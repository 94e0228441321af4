import UtilityLayer.Text.Basic

/-!
# Utilities and rules

A utility is a class name with the declarations it stands for. A hand-authored
one may carry the selector it was written under, which is grouped when its class
is one branch of a group of several. A rule is a selector with a body, perhaps
inside nested blocks and inside an at-rule, and its text is one line when its
parts are.
-/

set_option autoImplicit false

namespace UtilityLayer

structure Context where
  selector : Text
  grouped : Bool
  deriving DecidableEq, Repr

structure Utility where
  className : Text
  body : Text
  context : Option Context := none
  deriving DecidableEq, Repr

namespace Utility

def isFullBlock (u : Utility) : Bool := u.body.contains '{'

def withContext (u : Utility) (selector : Text) (grouped : Bool) : Utility :=
  { u with context := some ⟨selector, grouped⟩ }

end Utility

structure Rule where
  selector : Text
  nested : List Text := []
  media : Option Text := none
  body : Text
  deriving DecidableEq, Repr

namespace Rule

def isWrapped (r : Rule) : Bool := r.media.isSome

def wrap (head inner : Text) : Text := head ++ " \x7b " ++ inner ++ " \x7d"

def nest (heads : List Text) (inner : Text) : Text := heads.foldr wrap inner

def text (r : Rule) : Text :=
  let styled := wrap r.selector (nest r.nested r.body)
  match r.media with
  | none => styled
  | some media => wrap media styled

end Rule

end UtilityLayer

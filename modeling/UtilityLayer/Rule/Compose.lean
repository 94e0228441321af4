import UtilityLayer.Css.Name
import UtilityLayer.Rule.Important
import UtilityLayer.Token
import UtilityLayer.Utility.Basic

/-!
# Composing rules

The rule of a token for a utility. The token's escaped class takes the place of
the utility's class in the selector the utility was written under; the variants
then apply from left to right. A plain token keeps the authored selector, and a
decorated one never touches the other branches of a group.
-/

set_option autoImplicit false

namespace UtilityLayer.Rule

open Text Css

def continuesName (c : Char) : Bool := isNameChar c || c == '\\'

def continuesAt (t : Text) : Bool := (t.head?.map continuesName).getD false

/-- A selector cut just past the last replaced class: what stands before the
cut, when there is one, and what follows. -/
structure Replaced where
  head : Option Text
  tail : Text
  deriving DecidableEq, Repr

namespace Replaced

def add (t : Text) (r : Replaced) : Replaced :=
  match r.head with
  | some h => ⟨some (t ++ h), r.tail⟩
  | none => ⟨none, t ++ r.tail⟩

def cutAfter (t : Text) (r : Replaced) : Replaced :=
  match r.head with
  | some h => ⟨some (t ++ h), r.tail⟩
  | none => ⟨some t, r.tail⟩

def text (r : Replaced) : Text := r.head.getD [] ++ r.tail

end Replaced

/-- Every whole class spelled `needle` replaced by `new`. An occurrence that a
longer name continues is passed over as it stands. -/
def substitute (needle new : Text) : Text → Replaced
  | [] => ⟨none, []⟩
  | c :: t =>
    match after? needle (c :: t) with
    | none => (substitute needle new t).add [c]
    | some rest =>
      if _h : rest.length < (c :: t).length then
        if continuesAt rest then (substitute needle new rest).add needle
        else (substitute needle new rest).cutAfter new
      else ⟨none, c :: t⟩
termination_by t => t.length
decreasing_by
  · exact Nat.lt_succ_self _
  · exact _h
  · exact _h

/-- The selector that the variants start from: up to the token's class, and
the rest of the context after it. -/
def start (token : Token) (u : Utility) : Text × Text :=
  let own := classSelector token.raw
  match u.context with
  | none => (own, [])
  | some context =>
    if context.grouped then (own, [])
    else
      let r := substitute (classSelector u.className) own context.selector
      match r.head with
      | some head => (head, r.tail)
      | none => (r.tail, [])

/-- A rule on its way: the selector so far, its unread tail, and what the
variants have wrapped around it. -/
structure Draft where
  selector : Text
  tail : Text
  nested : List Text := []
  media : Option Text := none
  deriving DecidableEq, Repr

namespace Draft

def apply (d : Draft) (v : Variant) : Draft :=
  match v.kind with
  | .pseudo => { d with selector := d.selector ++ v.selector }
  | .flat => { d with selector := fill '&' (d.selector ++ d.tail) v.selector, tail := [] }
  | .nested => { d with nested := d.nested ++ [trim v.selector] }
  | .media => { d with media := some v.selector }

def finish (d : Draft) (body : Text) : Rule :=
  { selector := d.selector ++ d.tail, nested := d.nested, media := d.media, body }

end Draft

def bodyOf (token : Token) (u : Utility) : Text :=
  if token.important then markImportant u.body else u.body

def draft (token : Token) (u : Utility) : Draft :=
  token.variants.foldl Draft.apply { selector := (start token u).1, tail := (start token u).2 }

def compose (token : Token) (u : Utility) : Rule :=
  match u.context with
  | some context =>
    if token.isUndecorated then { selector := context.selector, body := bodyOf token u }
    else (draft token u).finish (bodyOf token u)
  | none => (draft token u).finish (bodyOf token u)

end UtilityLayer.Rule

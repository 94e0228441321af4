import UtilityLayer.Text.Blank

/-!
# Variants

A variant is a selector fragment and the way it joins a utility's selector:
appended, wrapped around it at each `&`, as a nested block, or as an at-rule
around the whole rule. A fragment from the table and one written in brackets
are told apart by different rules.
-/

set_option autoImplicit false

namespace UtilityLayer

open Text

namespace Variant

inductive Kind where
  | nested
  | flat
  | pseudo
  | media
  deriving DecidableEq, Repr

def namedKind (selector : Text) : Kind :=
  if startsWith "@" selector then .media
  else if endsWith "&" (trimEnd selector) then .nested
  else if selector.contains '&' then .flat
  else .pseudo

def arbitraryKind (selector : Text) : Kind :=
  if startsWith "&" selector then .flat
  else if startsWith "@" selector then .media
  else .nested

end Variant

structure Variant where
  selector : Text
  kind : Variant.Kind
  arbitrary : Bool
  deriving DecidableEq, Repr

namespace Variant

def named (selector : Text) : Variant := ⟨selector, namedKind selector, false⟩

def ofArbitrary (selector : Text) : Variant := ⟨selector, arbitraryKind selector, true⟩

def isMedia (v : Variant) : Bool := v.kind = .media

end Variant

end UtilityLayer

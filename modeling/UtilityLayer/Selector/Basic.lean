import UtilityLayer.Text.Basic

/-!
# Selectors

A compound selector is a list of simple ones; a complex selector is a chain of
compounds, and the last of them is its subject. A functional pseudo-class holds
either a list of complex selectors or, where its argument is none, a text.
-/

set_option autoImplicit false

namespace UtilityLayer.Selector

inductive Combinator where
  | descendant
  | child
  | adjacent
  | sibling
  deriving DecidableEq, Repr

mutual

inductive Simple where
  | element (name : Text)
  | className (name : Text)
  | ident (name : Text)
  | universal
  | parent
  | pseudoClass (name : Text)
  | pseudoElement (name : Text)
  | functional (name : Text) (branches : List Complex)
  | functionalText (name argument : Text)
  | attribute (name value : Text)

inductive Complex where
  | last (compound : List Simple)
  | link (compound : List Simple) (combinator : Combinator) (rest : Complex)

end

abbrev Compound := List Simple

namespace Complex

def subject : Complex → Compound
  | last c => c
  | link _ _ rest => rest.subject

def compounds : Complex → List Compound
  | last c => [c]
  | link c _ rest => c :: rest.compounds

end Complex

end UtilityLayer.Selector

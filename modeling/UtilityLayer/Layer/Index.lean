import UtilityLayer.TextSet
import UtilityLayer.Event
import UtilityLayer.Layer.Buffer
import UtilityLayer.Rule.Compose
import UtilityLayer.Theme.Declaration
import UtilityLayer.Utility.Authored
import UtilityLayer.Utility.Table

/-!
# Generating a layer

An index holds what a theme defines. Each token of a set is partial when one of
its variants has no meaning, unresolved when no utility has its base class, and
styled otherwise. The rules of the styled tokens are pushed in token order, all
those of generated utilities before those of hand-authored ones.
-/

set_option autoImplicit false

namespace UtilityLayer.Layer

open Theme Utility Css

structure Index where
  vars : Variables
  utilities : Utility.Table
  custom : Collection
  variants : Variant.Table

inductive Fate where
  | partly
  | unresolved
  | styled
  deriving DecidableEq, Repr

/-- What a pass did with its tokens: rules added, rules already there, tokens
without a utility, and tokens with an unknown variant. -/
structure Report where
  emitted : Nat
  duplicates : Nat
  unresolved : List Text
  partials : List Text
  deriving DecidableEq, Repr

namespace Index

def ofParts (vars : Variables) (custom : Collection) (colors : Colors) : Index :=
  ⟨vars, .build vars colors, custom, .ofVariables vars⟩

def build (theme : Text) (colors : Colors) : Except SheetError Index :=
  (Collection.ofSheet theme).map fun custom => ofParts (Variables.ofSheet theme) custom colors

def token (index : Index) (raw : Text) : Token := .parse index.variants raw

def hasUtility (index : Index) (baseClass : Text) : Bool :=
  baseClass ≠ [] &&
    ((index.utilities.resolve? baseClass).isSome || index.custom.contains baseClass)

def fate (index : Index) (t : Token) : Fate :=
  if !t.isUnderstood then .partly
  else if index.hasUtility t.baseClass then .styled
  else .unresolved

def tokens (index : Index) (classes : TextSet) : List Token := classes.toList.map index.token

def withFate (index : Index) (f : Fate) (classes : TextSet) : List Token :=
  (index.tokens classes).filter fun t => index.fate t = f

def generatedRule? (index : Index) (t : Token) : Option Rule :=
  (index.utilities.resolve? t.baseClass).map (Rule.compose t)

def customRules (index : Index) (t : Token) : List Rule :=
  (index.custom.get t.baseClass).map (Rule.compose t)

def rules (index : Index) (classes : TextSet) : List Rule :=
  let styled := index.withFate .styled classes
  styled.filterMap index.generatedRule? ++ styled.flatMap index.customRules

def generate (index : Index) (classes : TextSet) (buffer : Buffer) : Buffer :=
  (buffer.pushAll (index.rules classes)).2

def report (index : Index) (classes : TextSet) (buffer : Buffer) : Report :=
  let answers := (buffer.pushAll (index.rules classes)).1
  { emitted := answers.count true
    duplicates := answers.count false
    unresolved := (index.withFate .unresolved classes).map Token.raw
    partials := (index.withFate .partly classes).map Token.raw }

def render (index : Index) (classes : TextSet) (layer : Text) : Text :=
  layerText (index.generate classes .empty) layer

def renderReport (index : Index) (classes : TextSet) : Report := index.report classes .empty

end Index

end UtilityLayer.Layer

import UtilityLayer.Keyed

/-!
# Theme variables

The custom properties of a theme with their values, each once, in the order of
their first declarations.
-/

set_option autoImplicit false

namespace UtilityLayer.Theme

structure Variables where
  entries : List (Text × Text)
  distinct : (Keyed.keys entries).Nodup

namespace Variables

def empty : Variables := ⟨[], List.nodup_nil⟩

def define (vars : Variables) (name value : Text) : Variables :=
  ⟨Keyed.set name value vars.entries, Keyed.nodup_keys_set vars.distinct⟩

def get? (vars : Variables) (name : Text) : Option Text := Keyed.get? name vars.entries

def size (vars : Variables) : Nat := vars.entries.length

def ofList (declarations : List (Text × Text)) : Variables :=
  declarations.foldl (fun vars d => vars.define d.1 d.2) empty

theorem get?_define_self (vars : Variables) (name value : Text) :
    (vars.define name value).get? name = some value := Keyed.get?_set_self _ _ _

theorem get?_define_of_ne (vars : Variables) {name other : Text} (h : other ≠ name)
    (value : Text) : (vars.define name value).get? other = vars.get? other :=
  Keyed.get?_set_of_ne h _ _

end Variables

end UtilityLayer.Theme

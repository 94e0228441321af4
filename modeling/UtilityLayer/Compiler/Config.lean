import UtilityLayer.TextSet
import UtilityLayer.Duration
import UtilityLayer.Layer.Events

/-!
# Settings of a compiler

The layer's name, the least time between two passes, the bounds of the cache,
and the targets of color variables. With them a class set compiles against a
theme in one go.
-/

set_option autoImplicit false

namespace UtilityLayer.Compiler

open Layer

structure Config where
  layer : Text := "utilities".toList
  interval : Duration := .ofMillis 100
  capacity : Nat := 32
  ttl : Duration := .ofSeconds (7 * 24 * 60 * 60) 0
  colors : Utility.Colors := .all

namespace Config

def withCapacity (c : Config) (n : Nat) : Config := { c with capacity := max n 1 }

end Config

def freshLayer (config : Config) (theme : Text) (classes : TextSet) : Except Fault Text :=
  match Index.build theme config.colors with
  | .error e => .error (.generation e)
  | .ok index => .ok (index.render classes config.layer)

def freshLayerEvents (config : Config) (theme : Text) (classes : TextSet) : List Event :=
  Index.buildEvents theme config.colors ++
    match Index.build theme config.colors with
    | .error _ => []
    | .ok index =>
      let unresolved := (index.renderReport classes).unresolved
      index.generateEvents classes ++ if unresolved = [] then [] else [.noUtilities unresolved]

end UtilityLayer.Compiler

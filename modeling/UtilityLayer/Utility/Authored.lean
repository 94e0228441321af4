import UtilityLayer.Css.Scan
import UtilityLayer.Css.Name
import UtilityLayer.Css.Split
import UtilityLayer.Css.Tree
import UtilityLayer.Selector.Reader
import UtilityLayer.Selector.Subject
import UtilityLayer.Utility.Basic

/-!
# Hand-authored utilities

A theme defines utilities by `@utility` blocks and by class rules, at the top
level or inside `@layer` blocks. A class rule is split at its top-level commas,
and each selector is filed under every class it styles; the selector is kept as
the utility's context unless it is just the class. All other rules are passed
over. The collection keeps each utility once, in source order.
-/

set_option autoImplicit false

namespace UtilityLayer.Utility

open Text Css Selector

/-- What a selector of a class rule comes to. -/
inductive Authored where
  | utility (u : Utility)
  | unsupported (selector : Text)
  deriving DecidableEq, Repr

def authoredUtility (selector body : Text) (grouped : Bool) (className : Text) : Utility :=
  if selector = classSelector className then { className, body }
  else { className, body, context := some ⟨selector, grouped⟩ }

def authoredBySelector (selector body : Text) : List Authored :=
  match parseList selector with
  | none => [.unsupported selector]
  | some [] => []
  | some (x :: _) =>
    x.subjects.classes.map fun c => .utility (authoredUtility selector body x.subjects.grouped c)

def authoredByRule (head body : Text) : List Authored :=
  let body := normalize body
  if body = [] then []
  else (splitOuter ',' head).flatMap fun branch => authoredBySelector (normalize branch) body

def authoredByBlock (head body : Text) : List Authored :=
  match after? "@utility" head with
  | some name =>
    if trim name = [] then []
    else [.utility { className := trim name, body := normalize body }]
  | none => if startsWith "@" head then [] else authoredByRule head body

def authoredByNode : Node → List Authored
  | .block head body => authoredByBlock head body
  | _ => []

def isLayerHead (head : Text) : Bool := startsWith "@layer" head

/-- The leaves of a theme, `@layer` blocks opened. -/
def themeLeaves (theme : Text) : Except SheetError (List Node) :=
  (readTree isLayerHead (withoutComments theme)).map leavesOf

/-- What the theme defines, up to the first block that cannot be read. -/
def authored (theme : Text) : List Authored :=
  match themeLeaves theme with
  | .error _ => []
  | .ok leaves => (beforeError leaves).flatMap authoredByNode

structure Collection where
  utilities : List Utility
  distinct : utilities.Nodup

namespace Collection

def empty : Collection := ⟨[], List.nodup_nil⟩

def insert (c : Collection) (u : Utility) : Collection :=
  if h : u ∈ c.utilities then c
  else ⟨c.utilities ++ [u], by
    refine List.nodup_append.2 ⟨c.distinct, by simp, ?_⟩
    intro a ha b hb
    simp only [List.mem_singleton] at hb
    exact fun he => h (hb ▸ he ▸ ha)⟩

theorem mem_insert {c : Collection} {u v : Utility} :
    v ∈ (c.insert u).utilities ↔ v ∈ c.utilities ∨ v = u := by
  rw [insert]
  split
  · rename_i h
    exact ⟨.inl, fun h' => h'.elim id fun he => he ▸ h⟩
  · simp

def ofList (us : List Utility) : Collection := us.foldl insert empty

def get (c : Collection) (className : Text) : List Utility :=
  c.utilities.filter fun u => u.className = className

def contains (c : Collection) (className : Text) : Bool :=
  c.utilities.any fun u => u.className = className

def classNames (c : Collection) : List Text := (c.utilities.map Utility.className).eraseDups

def size (c : Collection) : Nat := c.classNames.length

theorem contains_iff {c : Collection} {className : Text} :
    c.contains className = true ↔ c.get className ≠ [] := by
  simp [contains, get, List.filter_eq_nil_iff]

end Collection

def Authored.utility? : Authored → Option Utility
  | .utility u => some u
  | .unsupported _ => none

def Authored.unsupported? : Authored → Option Text
  | .utility _ => none
  | .unsupported s => some s

def Collection.ofSheet (theme : Text) : Except SheetError Collection :=
  match themeLeaves theme with
  | .error e => .error e
  | .ok leaves =>
    match firstError leaves with
    | some e => .error e
    | none => .ok (.ofList ((authored theme).filterMap Authored.utility?))

end UtilityLayer.Utility

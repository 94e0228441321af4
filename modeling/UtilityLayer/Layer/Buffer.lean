import UtilityLayer.TextSet
import UtilityLayer.Utility.Basic

/-!
# The rules of a layer

A buffer keeps the texts of the rules pushed into it, each once, in order, and
the set of these texts. A push answers whether the text was new to the set. A
layer is written with the unconditional rules before those inside an at-rule.
-/

set_option autoImplicit false

namespace UtilityLayer.Layer

structure Stored where
  text : Text
  wrapped : Bool
  deriving DecidableEq, Repr

def Stored.ofRule (r : Rule) : Stored := ⟨r.text, r.isWrapped⟩

def InStep (seen : TextSet) (rules : List Stored) : Prop :=
  ∀ t, t ∈ seen ↔ t ∈ rules.map Stored.text

theorem inStep_empty : InStep .empty [] := fun _ => Iff.rfl

theorem InStep.insert {seen : TextSet} {rules : List Stored} (h : InStep seen rules)
    (s : Stored) : InStep (seen.insert s.text) (rules ++ [s]) := by
  intro t
  rw [TextSet.mem_insert, h t, List.map_append, List.mem_append, List.map_singleton,
    List.mem_singleton, or_comm]

theorem InStep.nodup_append {seen : TextSet} {rules : List Stored} (h : InStep seen rules)
    (distinct : (rules.map Stored.text).Nodup) {s : Stored} (new : s.text ∉ seen) :
    ((rules ++ [s]).map Stored.text).Nodup := by
  rw [List.map_append, List.map_singleton]
  refine List.nodup_append.2 ⟨distinct, by simp, ?_⟩
  rintro t ht u hu rfl
  obtain rfl := List.mem_singleton.1 hu
  exact new ((h s.text).2 ht)

structure Buffer where
  seen : TextSet
  rules : List Stored
  inStep : InStep seen rules
  distinct : (rules.map Stored.text).Nodup

namespace Buffer

def empty : Buffer := ⟨.empty, [], inStep_empty, List.nodup_nil⟩

def texts (b : Buffer) : List Text := b.rules.map Stored.text

def size (b : Buffer) : Nat := b.rules.length

/-- The rule is stored, and the answer is `true`, if its text has not been seen. -/
def push (b : Buffer) (r : Rule) : Bool × Buffer :=
  if h : r.text ∈ b.seen then (false, b)
  else (true, {
    seen := b.seen.insert r.text
    rules := b.rules ++ [Stored.ofRule r]
    inStep := b.inStep.insert (Stored.ofRule r)
    distinct := b.inStep.nodup_append b.distinct h })

/-- The answers of the pushes, and the buffer after them. -/
def pushAll : Buffer → List Rule → List Bool × Buffer
  | b, [] => ([], b)
  | b, r :: rs =>
    let (added, next) := b.push r
    let (answers, last) := next.pushAll rs
    (added :: answers, last)

theorem mem_seen {b : Buffer} {t : Text} : t ∈ b.seen ↔ t ∈ b.texts := b.inStep t

theorem push_answer {b : Buffer} {r : Rule} : (b.push r).1 = false ↔ r.text ∈ b.texts := by
  rw [push, ← mem_seen]
  split
  · rename_i h
    simp [h]
  · rename_i h
    simp [h]

theorem rules_push (b : Buffer) (r : Rule) :
    (b.push r).2.rules = b.rules ++ if r.text ∈ b.texts then [] else [Stored.ofRule r] := by
  simp only [push, ← mem_seen]
  split
  · exact (List.append_nil b.rules).symm
  · rfl

theorem texts_push (b : Buffer) (r : Rule) :
    (b.push r).2.texts = if r.text ∈ b.texts then b.texts else b.texts ++ [r.text] := by
  rw [texts, rules_push, List.map_append]
  split
  · exact List.append_nil _
  · rfl

theorem pushAll_append (b : Buffer) (rs ss : List Rule) :
    b.pushAll (rs ++ ss) =
      ((b.pushAll rs).1 ++ ((b.pushAll rs).2.pushAll ss).1, ((b.pushAll rs).2.pushAll ss).2) := by
  induction rs generalizing b with
  | nil => rfl
  | cons r rs ih => simp only [List.cons_append, pushAll, ih]

/-- Unwrapped rules first, each group in the order of the pushes. -/
def ordered (b : Buffer) : List Text :=
  ((b.rules.filter fun r => !r.wrapped) ++ b.rules.filter Stored.wrapped).map
    Stored.text

end Buffer

def openLayer (name : Text) : Text := "@layer " ++ name ++ " \x7b\n"

def layerText (b : Buffer) (name : Text) : Text :=
  openLayer name ++ b.ordered.flatMap (fun t => t ++ ['\n']) ++ ['}']

end UtilityLayer.Layer

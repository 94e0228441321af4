import UtilityLayer.Text.Basic

/-!
# Joined texts

How a joined text changes with the first and the last of its parts, and what
cutting it at its mark gives back.
-/

set_option autoImplicit false

namespace UtilityLayer.Text

variable (mark : Char)

theorem join_singleton (part : Text) : join [mark] [part] = part := List.intercalate_singleton

theorem join_cons_cons (part next : Text) (parts : List Text) :
    join [mark] (part :: next :: parts) = part ++ mark :: join [mark] (next :: parts) := by
  rw [join, List.intercalate_cons_cons, List.append_assoc, List.singleton_append, join]

theorem join_cons_head (c : Char) (part : Text) (parts : List Text) :
    join [mark] ((c :: part) :: parts) = c :: join [mark] (part :: parts) := by
  cases parts with
  | nil => rw [join_singleton, join_singleton]
  | cons q parts => rw [join_cons_cons, join_cons_cons, List.cons_append]

theorem join_nil_cons {parts : List Text} (h : parts ≠ []) :
    join [mark] ([] :: parts) = mark :: join [mark] parts := by
  obtain ⟨p, ps, rfl⟩ := List.exists_cons_of_ne_nil h
  rw [join_cons_cons, List.nil_append]

theorem length_le_join {part : Text} {parts : List Text} (h : part ∈ parts) :
    part.length ≤ (join [mark] parts).length := by
  induction parts with
  | nil => cases h
  | cons p parts ih =>
    cases parts with
    | nil =>
      obtain rfl := List.mem_singleton.mp h
      exact Nat.le_of_eq (congrArg List.length (join_singleton mark part).symm)
    | cons q parts =>
      rw [join_cons_cons, List.length_append, List.length_cons]
      rcases List.mem_cons.mp h with rfl | h
      · omega
      · have rest := ih h
        omega

theorem join_concat (parts : List Text) (last : Text) :
    join [mark] (parts ++ [last]) = parts.flatMap (fun s => s ++ [mark]) ++ last := by
  induction parts with
  | nil => exact join_singleton mark last
  | cons s parts ih =>
    obtain ⟨u, us, hu⟩ := List.exists_cons_of_ne_nil (List.append_ne_nil_of_right_ne_nil parts
      (List.cons_ne_nil last []))
    rw [List.cons_append, hu, join_cons_cons, ← hu, ih, List.flatMap_cons]
    simp

section

variable {p : Char → Bool} {mark : Char}

theorem pieces_cons_of_mark (h : p mark = true) (t : Text) :
    pieces p (mark :: t) = [] :: pieces p t := by
  rw [pieces, if_pos h]

theorem pieces_append_mark (h : p mark = true) (a b : Text) :
    pieces p (a ++ mark :: b) = pieces p a ++ pieces p b := by
  induction a with
  | nil => exact pieces_cons_of_mark h b
  | cons c a ih =>
    rw [List.cons_append, pieces, pieces, ih]
    split
    · rfl
    · obtain ⟨w, ws, hw⟩ := List.exists_cons_of_ne_nil (pieces_ne_nil p a)
      rw [hw]
      rfl

theorem pieces_of_forall {t : Text} (h : ∀ c ∈ t, p c = false) : pieces p t = [t] := by
  induction t with
  | nil => rfl
  | cons c t ih =>
    rw [pieces, h c (by simp), ih fun d hd => h d (by simp [hd])]
    rfl

end

theorem pieces_join (part : Text) (parts : List Text) :
    pieces (· == mark) (join [mark] (part :: parts)) =
      (part :: parts).flatMap (pieces (· == mark)) := by
  induction parts generalizing part with
  | nil => rw [join_singleton, List.flatMap_singleton]
  | cons next parts ih =>
    rw [join_cons_cons, pieces_append_mark (p := (· == mark)) (beq_self_eq_true mark), ih]
    rfl

theorem join_pieces (t : Text) : join [mark] (pieces (· == mark) t) = t := by
  induction t with
  | nil => rfl
  | cons c t ih =>
    have some := pieces_ne_nil (· == mark) t
    rw [pieces]
    split
    · rename_i hc
      rw [join_nil_cons mark some, ih, beq_iff_eq.mp hc]
    · obtain ⟨w, ws, hw⟩ := List.exists_cons_of_ne_nil some
      rw [hw] at ih ⊢
      rw [join_cons_head, ih]

theorem pieces_join_of_forall {parts : List Text} (some : parts ≠ [])
    (whole : ∀ part ∈ parts, mark ∉ part) : pieces (· == mark) (join [mark] parts) = parts := by
  have alone {part : Text} (h : mark ∉ part) : pieces (· == mark) part = [part] := by
    apply pieces_of_forall
    intro c hc
    exact beq_false_of_ne fun same => h (same ▸ hc)
  induction parts with
  | nil => exact absurd rfl some
  | cons part parts ih =>
    have first := alone (whole part (by simp))
    cases parts with
    | nil => rw [join_singleton, first]
    | cons next parts =>
      rw [join_cons_cons, pieces_append_mark (p := (· == mark)) (beq_self_eq_true mark), first,
        ih (by simp) fun q hq => whole q (by simp [hq])]
      rfl

end UtilityLayer.Text

import UtilityLayer.Proofs.Text.Blank
import UtilityLayer.Proofs.Text.Join

/-!
# Runs of blanks

The words of a text with a space between them are the text with every run of
blanks squeezed to one space, but for the spaces at its two ends. Squeezing goes
from character to character, so a reader of the text can be followed through it.
-/

set_option autoImplicit false

namespace UtilityLayer.Text

def leadsBlank (t : Text) : Bool := t.head?.any isBlank

/-- Every run of blanks is one space. -/
def squeeze : Text → Text
  | [] => []
  | c :: t => if isBlank c then if leadsBlank t then squeeze t else ' ' :: squeeze t else c :: squeeze t

variable {c : Char} {t : Text}

theorem squeeze_cons (h : isBlank c = false) (t : Text) : squeeze (c :: t) = c :: squeeze t := by
  rw [squeeze, if_neg (by simp [h])]

theorem squeeze_blank (h : isBlank c = true) (more : leadsBlank t = true) :
    squeeze (c :: t) = squeeze t := by
  rw [squeeze, if_pos h, if_pos more]

theorem squeeze_last_blank (h : isBlank c = true) (last : leadsBlank t = false) :
    squeeze (c :: t) = ' ' :: squeeze t := by
  rw [squeeze, if_pos h, if_neg (by simp [last])]

theorem exists_squeeze (h : leadsBlank t = true) : ∃ u, squeeze t = ' ' :: u := by
  induction t with
  | nil => cases h
  | cons c t ih =>
    cases more : leadsBlank t with
    | true =>
      rw [squeeze_blank h more]
      exact ih more
    | false => exact ⟨squeeze t, squeeze_last_blank h more⟩

theorem squeeze_cons_blank (h : isBlank c = true) (t : Text) :
    ∃ u, squeeze (c :: t) = ' ' :: u ∧ (squeeze t = u ∨ squeeze t = ' ' :: u) := by
  cases more : leadsBlank t with
  | true =>
    obtain ⟨u, hu⟩ := exists_squeeze more
    exact ⟨u, by rw [squeeze_blank h more, hu], .inr hu⟩
  | false => exact ⟨squeeze t, squeeze_last_blank h more, .inl rfl⟩

theorem squeeze_append {a : Text} (last : ∀ c ∈ a.getLast?, isBlank c = false) (t : Text) :
    squeeze (a ++ t) = squeeze a ++ squeeze t := by
  induction a with
  | nil => rfl
  | cons c a ih =>
    cases a with
    | nil =>
      have solid := last c rfl
      rw [List.singleton_append, squeeze_cons solid, squeeze_cons solid]
      rfl
    | cons d a =>
      have rest := ih fun e he => last e (by rwa [List.getLast?_cons_cons])
      have same : leadsBlank (d :: a ++ t) = leadsBlank (d :: a) := rfl
      rw [List.cons_append, squeeze, squeeze, same, rest]
      split
      · split <;> rfl
      · rfl

theorem words_append (h : isBlank c = true) (a b : Text) :
    words (a ++ c :: b) = words a ++ words b := by
  rw [words, pieces_append_mark h, List.filter_append, words, words]

theorem leadsBlank_of_pieces {w : Text} {ws : List Text} (h : pieces isBlank t = w :: ws) :
    w = [] ↔ t = [] ∨ leadsBlank t = true := by
  cases t with
  | nil => simp [pieces] at h; simp [h]
  | cons c t =>
    rw [pieces] at h
    split at h
    · rename_i blank
      simp [leadsBlank, blank, (List.cons.inj h).1.symm]
    · rename_i solid
      obtain ⟨v, vs, hv⟩ := List.exists_cons_of_ne_nil (pieces_ne_nil isBlank t)
      rw [hv] at h
      simp [leadsBlank, solid, (List.cons.inj h).1.symm]

/-- The space that a text begins with once it is squeezed. -/
def lead (t : Text) : Text := if leadsBlank t then [' '] else []

theorem isBlankText_lead (t : Text) : isBlankText (lead t) = true := by
  rw [lead]
  split <;> rfl

theorem normalize_cons (h : isBlank c = false) (t : Text) :
    normalize (c :: t) = if words t = [] then [c] else c :: (lead t ++ normalize t) := by
  obtain ⟨w, ws, hw⟩ := List.exists_cons_of_ne_nil (pieces_ne_nil isBlank t)
  have joined : pieces isBlank (c :: t) = (c :: w) :: ws := by
    rw [pieces, if_neg (by simp [h]), hw]
  have begins := leadsBlank_of_pieces hw
  rw [normalize, normalize, words, words, joined, hw, List.filter_cons_of_pos (by simp)]
  by_cases empty : w = []
  · subst empty
    rw [List.filter_cons_of_neg (by simp)]
    cases behind : ws.filter (· ≠ []) with
    | nil => simp [join_singleton]
    | cons v vs =>
      have leads : leadsBlank t = true := by
        rcases begins.mp rfl with rfl | leads
        · simp [pieces] at hw
          simp [hw] at behind
        · exact leads
      rw [if_neg (by simp), lead, if_pos leads, join_cons_cons]
      rfl
  · have leads : leadsBlank t = false := Bool.eq_false_iff.mpr fun leads =>
      empty (begins.mpr (.inr leads))
    rw [List.filter_cons_of_pos (by simpa using empty), if_neg (by simp), lead,
      if_neg (by simp [leads]), join_cons_head]
    rfl

/-- A squeezed text is its words between the spaces at its ends. -/
theorem squeeze_eq (t : Text) :
    ∃ z, isBlankText z = true ∧ squeeze t = lead t ++ (normalize t ++ z) := by
  induction t with
  | nil => exact ⟨[], rfl, rfl⟩
  | cons c t ih =>
    obtain ⟨z, blank, same⟩ := ih
    cases hc : isBlank c with
    | true =>
      have leads : lead (c :: t) = [' '] := by simp [lead, leadsBlank, hc]
      have blanks : words (c :: t) = words t := words_append hc [] t
      refine ⟨z, blank, ?_⟩
      rw [leads, normalize, blanks, ← normalize]
      cases more : leadsBlank t with
      | true => rw [squeeze_blank hc more, same, lead, if_pos more]
      | false =>
        rw [squeeze_last_blank hc more, same, lead, if_neg (by simp [more])]
        rfl
    | false =>
      have leads : lead (c :: t) = [] := by simp [lead, leadsBlank, hc]
      rw [squeeze_cons hc, same, normalize_cons hc, leads]
      split
      · rename_i none
        refine ⟨lead t ++ z, ?_, ?_⟩
        · rw [isBlankText, List.all_append, Bool.and_eq_true]
          exact ⟨isBlankText_lead t, blank⟩
        · rw [normalize, none]
          rfl
      · exact ⟨z, blank, by simp⟩

end UtilityLayer.Text

import UtilityLayer.Css.Split
import UtilityLayer.Proofs.Css.Name
import UtilityLayer.Proofs.Text.Join

/-!
# Parts of a text

The parts of a text that is split at its outer separators make up the text, and
each of them is its own part. A text is cut off by the separator behind it if a
reader stands at the top level there, and parts of this kind are cut apart again
when they have been joined.
-/

set_option autoImplicit false

namespace UtilityLayer.Css

open Text

theorem join_splitFrom (separator : Char) (l : Level) (t : Text) :
    join [separator] (splitFrom separator l t) = t := by
  induction t generalizing l with
  | nil => rfl
  | cons c t ih =>
    have rest := ih (l.step c)
    have some := splitFrom_ne_nil separator (l.step c) t
    rw [splitFrom]
    split
    · rename_i hc
      have same : c = separator := by
        simp only [Level.cuts, Bool.and_eq_true, beq_iff_eq] at hc
        exact hc.1.2
      rw [join_nil_cons separator some, rest, same]
    · obtain ⟨p, ps, hp⟩ := List.exists_cons_of_ne_nil some
      rw [hp] at rest ⊢
      rw [join_cons_head, rest]

theorem Level.scan_run (l : Level) (t : Text) : (l.run t).scan = l.scan.run t := by
  induction t generalizing l with
  | nil => rfl
  | cons c t ih => exact ih (l.step c)

/-- No character of the text is an outer separator. -/
def uncut (separator : Char) : Level → Text → Bool
  | _, [] => true
  | l, c :: t => !l.cuts separator c && uncut separator (l.step c) t

theorem uncut_append (separator : Char) (l : Level) (a b : Text) :
    uncut separator l (a ++ b) = (uncut separator l a && uncut separator (l.run a) b) := by
  induction a generalizing l with
  | nil => rfl
  | cons c a ih => simp [uncut, ih, Level.run, Bool.and_assoc]

theorem splitFrom_of_uncut {separator : Char} {l : Level} {t : Text}
    (h : uncut separator l t = true) : splitFrom separator l t = [t] := by
  induction t generalizing l with
  | nil => rfl
  | cons c t ih =>
    simp only [uncut, Bool.and_eq_true, Bool.not_eq_true'] at h
    rw [splitFrom, if_neg (by simp [h.1]), ih h.2]

/-- Where the parts stand: the first at the beginning, every other behind a cut, and
in front of a cut the reader is outside strings. None of them is cut. -/
theorem splitFrom_parts {separator : Char} {l : Level} {t p : Text} {ps : List Text}
    (h : splitFrom separator l t = p :: ps) :
    (∃ v, t = p ++ v ∧ uncut separator l p = true ∧ (v = [] ∨ l.scan.run p = .outside)) ∧
      ∀ b ∈ ps, ∃ u v, t = u ++ (b ++ v) ∧ l.run u = .top ∧ uncut separator .top b = true ∧
        (v = [] ∨ Scan.outside.run b = .outside) := by
  induction t generalizing l p ps with
  | nil =>
    obtain ⟨rfl, rfl⟩ := List.cons.inj h
    exact ⟨⟨[], rfl, rfl, .inl rfl⟩, by simp⟩
  | cons c t ih =>
    obtain ⟨q, qs, hq⟩ := List.exists_cons_of_ne_nil (splitFrom_ne_nil separator (l.step c) t)
    obtain ⟨⟨v, first, inside, ends⟩, others⟩ := ih hq
    rw [splitFrom, hq] at h
    split at h
    · rename_i cut
      obtain ⟨rfl, rfl⟩ := List.cons.inj h
      have free : l.scan.free c = true := by
        simp only [Level.cuts, Bool.and_eq_true] at cut
        exact cut.1.1.1.1
      refine ⟨⟨c :: t, rfl, rfl, .inr (Scan.eq_outside_of_free free)⟩, ?_⟩
      intro b hb
      rcases List.mem_cons.mp hb with rfl | hb
      · rw [Level.step_of_cuts cut] at inside ends
        exact ⟨[c], v, congrArg (c :: ·) first, Level.step_of_cuts cut, inside, ends⟩
      · obtain ⟨u, w, rfl, top, inside, ends⟩ := others b hb
        exact ⟨c :: u, w, rfl, top, inside, ends⟩
    · rename_i goesOn
      obtain ⟨rfl, rfl⟩ := List.cons.inj h
      rw [Bool.not_eq_true] at goesOn
      have uncut : uncut separator l (c :: q) = true := by
        rw [Css.uncut, goesOn, inside]
        rfl
      refine ⟨⟨v, congrArg (c :: ·) first, uncut, ends⟩, ?_⟩
      intro b hb
      obtain ⟨u, w, rfl, top, inside, ends⟩ := others b hb
      exact ⟨c :: u, w, rfl, top, inside, ends⟩

theorem exists_of_mem_splitOuter {separator : Char} {t b : Text}
    (h : b ∈ splitOuter separator t) : ∃ u v, t = u ++ (b ++ v) ∧ Level.top.run u = .top ∧
      uncut separator .top b = true ∧ (v = [] ∨ Scan.outside.run b = .outside) := by
  obtain ⟨p, ps, hp⟩ := List.exists_cons_of_ne_nil (splitFrom_ne_nil separator .top t)
  obtain ⟨⟨v, first, inside, ends⟩, others⟩ := splitFrom_parts hp
  rw [splitOuter, hp] at h
  rcases List.mem_cons.mp h with rfl | h
  · exact ⟨[], v, first, rfl, inside, ends⟩
  · exact others b h

theorem splitOuter_of_mem {separator : Char} {t p : Text} (h : p ∈ splitOuter separator t) :
    splitOuter separator p = [p] := by
  obtain ⟨u, v, -, -, inside, -⟩ := exists_of_mem_splitOuter h
  exact splitFrom_of_uncut inside

theorem splitFrom_cons_of_cuts {separator : Char} {l : Level} {c : Char}
    (cut : l.cuts separator c = true) (t : Text) :
    splitFrom separator l (c :: t) = [] :: splitFrom separator (l.step c) t := by
  rw [splitFrom, if_pos cut]

theorem splitFrom_cons_of_not_cuts {separator : Char} {l : Level} {c : Char} {t p : Text}
    {ps : List Text} (goesOn : l.cuts separator c = false)
    (h : splitFrom separator (l.step c) t = p :: ps) :
    splitFrom separator l (c :: t) = (c :: p) :: ps := by
  rw [splitFrom, goesOn, if_neg Bool.false_ne_true, h]

theorem splitFrom_append {separator : Char} {l : Level} {t u a b : Text} {as bs : List Text}
    (first : splitFrom separator l t = as ++ [a])
    (second : splitFrom separator (l.run t) u = b :: bs) :
    splitFrom separator l (t ++ u) = as ++ (a ++ b) :: bs := by
  induction t generalizing l as a with
  | nil =>
    obtain ⟨rfl, rfl⟩ : as = [] ∧ a = [] := by
      cases as <;> simp_all [splitFrom]
    exact second
  | cons c t ih =>
    have some := splitFrom_ne_nil separator (l.step c) t
    cases cut : l.cuts separator c with
    | true =>
      rw [splitFrom_cons_of_cuts cut] at first
      cases as with
      | nil => exact absurd (List.cons.inj first).2 some
      | cons p as =>
        obtain ⟨rfl, rest⟩ := List.cons.inj first
        rw [List.cons_append, splitFrom_cons_of_cuts cut, ih rest second, List.cons_append]
    | false =>
      obtain ⟨p, ps, hp⟩ := List.exists_cons_of_ne_nil some
      rw [splitFrom_cons_of_not_cuts cut hp] at first
      cases as with
      | nil =>
        obtain ⟨rfl, rfl⟩ := List.cons.inj first
        have alone : splitFrom separator (l.step c) t = [] ++ [p] := hp
        exact splitFrom_cons_of_not_cuts cut (ih alone second)
      | cons q as =>
        obtain ⟨rfl, rfl⟩ := List.cons.inj first
        have more : splitFrom separator (l.step c) t = (p :: as) ++ [a] := hp
        exact splitFrom_cons_of_not_cuts cut (ih more second)

def separates (c : Char) : Bool := !isQuote c && !isOpening c && !isClosing c && c != '\\'

theorem Level.cuts_iff {c : Char} (h : separates c = true) (l : Level) :
    l.cuts c c = true ↔ l = .top := by
  obtain ⟨⟨escaped, quote⟩, depth⟩ := l
  simp only [separates, Bool.and_eq_true, Bool.not_eq_true', bne_iff_ne] at h
  obtain ⟨⟨⟨plain, opening⟩, closing⟩, escape⟩ := h
  simp [cuts, top, Scan.free, plain, opening, closing, escape, and_assoc]

/-- A separator cuts off the text before it exactly at the top level. -/
theorem splitOuter_append_iff {separator : Char} (h : separates separator = true) (t u : Text) :
    splitOuter separator (t ++ separator :: u) = splitOuter separator t ++ splitOuter separator u ↔
      Level.top.run t = .top := by
  obtain ⟨as, a, parts⟩ : ∃ as a, splitFrom separator .top t = as ++ [a] :=
    ⟨_, _, (List.dropLast_concat_getLast (splitFrom_ne_nil separator .top t)).symm⟩
  rw [splitOuter, splitOuter, splitOuter, parts]
  constructor
  · intro apart
    by_contra inside
    have goesOn : (Level.top.run t).cuts separator separator = false :=
      Bool.eq_false_iff.mpr fun cut => inside ((Level.cuts_iff h _).mp cut)
    obtain ⟨b, bs, rest⟩ := List.exists_cons_of_ne_nil
      (splitFrom_ne_nil separator ((Level.top.run t).step separator) u)
    have second := splitFrom_cons_of_not_cuts goesOn rest
    rw [splitFrom_append parts second, List.append_assoc] at apart
    have same := (List.cons.inj (List.append_cancel_left apart)).1
    simp at same
  · intro top
    have cut := (Level.cuts_iff h _).mpr top
    have second : splitFrom separator (Level.top.run t) (separator :: u) =
        [] :: splitFrom separator .top u := by
      rw [splitFrom_cons_of_cuts cut, Level.step_of_cuts cut]
    rw [splitFrom_append parts second, List.append_nil, List.append_assoc, List.singleton_append]

/-- Joining the parts gives back the text, no part is cut once more, and a separator
puts the parts of what follows it behind those of the text exactly if a reader
stands at the top level behind the text. -/
theorem splitOuter_lossless_stable (separator : Char) (t : Text) :
    join [separator] (splitOuter separator t) = t ∧
      (∀ p ∈ splitOuter separator t, splitOuter separator p = [p]) ∧
      (separates separator = true → ∀ u,
        (splitOuter separator (t ++ separator :: u) =
            splitOuter separator t ++ splitOuter separator u ↔
          Level.top.run t = .top)) :=
  ⟨join_splitFrom separator .top t, fun _ member => splitOuter_of_mem member,
    fun h u => splitOuter_append_iff h t u⟩

def titled : Text := ".b[title=\",)\"]\\,"

theorem titled_parts_stable :
    separates ',' = true ∧ Level.top.run (".a),".toList ++ titled) = .top ∧
      titled ∈ splitOuter ',' (".a),".toList ++ titled) ∧ splitOuter ',' titled = [titled] ∧
      splitOuter ',' (".a),".toList ++ titled ++ ',' :: "(,") =
        splitOuter ',' (".a),".toList ++ titled) ++ splitOuter ',' "(," := by
  have top : Level.top.run (".a),".toList ++ titled) = .top := by decide
  have member : titled ∈ splitOuter ',' (".a),".toList ++ titled) := by decide
  obtain ⟨-, alone, apart⟩ := splitOuter_lossless_stable ',' (".a),".toList ++ titled)
  exact ⟨by decide, top, member, alone titled member, (apart (by decide) "(,").mpr top⟩

/-- A text without an outer comma, after which a reader stands at the top level
again. -/
structure Solid (t : Text) : Prop where
  uncut : uncut ',' .top t = true
  top : Level.top.run t = .top

theorem Solid.nil : Solid [] := ⟨rfl, rfl⟩

theorem Solid.append {a b : Text} (ha : Solid a) (hb : Solid b) : Solid (a ++ b) where
  uncut := by rw [uncut_append, ha.uncut, ha.top, hb.uncut]; rfl
  top := by rw [Level.run_append, ha.top, hb.top]

theorem Solid.splitOuter {t : Text} (h : Solid t) : splitOuter ',' t = [t] :=
  splitFrom_of_uncut h.uncut

theorem Solid.splitOuter_append {t : Text} (h : Solid t) (u : Text) :
    Css.splitOuter ',' (t ++ ',' :: u) = t :: Css.splitOuter ',' u := by
  have comma : separates ',' = true := by decide
  rw [(splitOuter_append_iff comma t u).mpr h.top, h.splitOuter, List.singleton_append]

theorem splitOuter_join {ts : List Text} (solid : ∀ t ∈ ts, Solid t) (nonempty : ts ≠ []) :
    splitOuter ',' (join [','] ts) = ts := by
  induction ts with
  | nil => exact absurd rfl nonempty
  | cons t ts ih =>
    have first := solid t (by simp)
    cases ts with
    | nil => rw [join_singleton, first.splitOuter]
    | cons u ts =>
      have rest := ih (fun v hv => solid v (by simp [hv])) (by simp)
      rw [join_cons_cons, first.splitOuter_append, rest]

end UtilityLayer.Css

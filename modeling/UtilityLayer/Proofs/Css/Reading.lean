import UtilityLayer.Css.Statement
import UtilityLayer.Proofs.Text.Blank

/-!
# How statements are read

A statement is read where its head opens it and, if it is a block, its body
closes again. Both are conditions on the two texts alone, so that what follows a
statement has no part in how it is read.
-/

set_option autoImplicit false

namespace UtilityLayer.Css

open Text

/-- No character of the text is a free stop. -/
def avoids (stop : Char → Bool) : Scan → Text → Bool
  | _, [] => true
  | s, c :: t => !(s.free c && stop c) && avoids stop (s.step c) t

/-- The number of blocks that stand open after a text, unless it closes more
blocks than were open before it. -/
def nesting : Nat → Scan → Text → Option Nat
  | depth, _, [] => some depth
  | depth, s, c :: t =>
    if s.free c && c == '{' then nesting (depth + 1) (s.step c) t
    else if s.free c && c == '}' then
      if depth = 0 then none else nesting (depth - 1) (s.step c) t
    else nesting depth (s.step c) t

/-- A text after which a brace opens a block and a semicolon ends a statement. -/
structure Opens (head : Text) : Prop where
  nonempty : head ≠ []
  avoids : avoids endsHead .outside head = true
  outside : Scan.outside.run head = .outside

/-- A text after which a brace closes the block that the text is the body of. -/
structure Closes (body : Text) : Prop where
  nesting : nesting 0 .outside body = some 0
  outside : Scan.outside.run body = .outside

instance (head : Text) : Decidable (Opens head) :=
  decidable_of_iff (head ≠ [] ∧ avoids endsHead .outside head = true ∧
      Scan.outside.run head = .outside)
    ⟨fun ⟨nonempty, avoids, outside⟩ => ⟨nonempty, avoids, outside⟩,
      fun ⟨nonempty, avoids, outside⟩ => ⟨nonempty, avoids, outside⟩⟩

instance (body : Text) : Decidable (Closes body) :=
  decidable_of_iff (nesting 0 .outside body = some 0 ∧ Scan.outside.run body = .outside)
    ⟨fun ⟨nesting, outside⟩ => ⟨nesting, outside⟩, fun ⟨nesting, outside⟩ => ⟨nesting, outside⟩⟩

variable {stop : Char → Bool} {s : Scan} {depth : Nat}

theorem avoids_append (a b : Text) :
    avoids stop s (a ++ b) = (avoids stop s a && avoids stop (s.run a) b) := by
  induction a generalizing s with
  | nil => rfl
  | cons c a ih => simp [avoids, ih, Scan.run, Bool.and_assoc]

theorem splitFree_of_avoids {a rest : Text} {c : Char} (h : avoids stop s a = true)
    (free : (s.run a).free c = true) (stops : stop c = true) :
    splitFree stop s (a ++ c :: rest) = (a, c :: rest) := by
  induction a generalizing s with
  | nil =>
    have hf : s.free c = true := free
    simp [splitFree, hf, stops]
  | cons d a ih =>
    simp only [avoids, Bool.and_eq_true, Bool.not_eq_true'] at h
    rw [List.cons_append, splitFree, if_neg (by simp [h.1]), ih h.2 free]

theorem avoids_of_splitFree {t a rest : Text} {c : Char}
    (h : splitFree stop s t = (a, c :: rest)) :
    avoids stop s a = true ∧ (s.run a).free c = true ∧ stop c = true := by
  induction t generalizing s a with
  | nil => simp [splitFree] at h
  | cons d t ih =>
    rw [splitFree] at h
    split at h
    · rename_i hd
      obtain ⟨rfl, hc⟩ := Prod.mk.inj h
      obtain ⟨rfl, -⟩ := List.cons.inj hc
      obtain ⟨hf, hs⟩ := Bool.and_eq_true_iff.mp hd
      exact ⟨rfl, hf, hs⟩
    · rename_i hd
      obtain ⟨rfl, hr⟩ := Prod.mk.inj h
      obtain ⟨ha, hf, hs⟩ := ih (Prod.ext rfl hr)
      exact ⟨by simp [avoids, hd, ha], hf, hs⟩

theorem nesting_append (a b : Text) :
    nesting depth s (a ++ b) = (nesting depth s a).bind fun d => nesting d (s.run a) b := by
  induction a generalizing depth s with
  | nil => rfl
  | cons c a ih =>
    rw [List.cons_append, nesting, nesting]
    split
    · exact ih
    · split
      · split
        · rfl
        · exact ih
      · exact ih

theorem nesting_add {t : Text} {e : Nat} (h : nesting depth s t = some e) (k : Nat) :
    nesting (depth + k) s t = some (e + k) := by
  induction t generalizing depth s with
  | nil =>
    obtain rfl := Option.some.inj h
    rfl
  | cons c t ih =>
    rw [nesting] at h ⊢
    split at h
    · rename_i hc
      rw [if_pos hc, Nat.add_right_comm]
      exact ih h
    · rename_i hc
      rw [if_neg hc]
      split at h
      · rename_i hb
        split at h
        · cases h
        · rename_i hd
          rw [if_pos hb, if_neg (by omega), show depth + k - 1 = depth - 1 + k by omega]
          exact ih h
      · rename_i hb
        rw [if_neg hb]
        exact ih h

theorem nesting_of_avoids {t : Text} (h : avoids endsHead s t = true) :
    nesting depth s t = some depth := by
  induction t generalizing s with
  | nil => rfl
  | cons c t ih =>
    simp only [avoids, Bool.and_eq_true, Bool.not_eq_true'] at h
    have hn : ∀ d : Char, endsHead d = true → ¬ (s.free c && c == d) = true := by
      intro d hd hc
      obtain ⟨hf, he⟩ := Bool.and_eq_true_iff.mp hc
      rw [beq_iff_eq.mp he] at hf h
      simp [hf, hd] at h
    rw [nesting, if_neg (hn '{' rfl), if_neg (hn '}' rfl)]
    exact ih h.2

theorem blockBody_of_nesting {body : Text} (h : nesting depth s body = some 0)
    (outside : s.run body = .outside) (rest : Text) :
    blockBody depth s (body ++ '}' :: rest) = some (body, rest) := by
  induction body generalizing depth s with
  | nil =>
    obtain rfl : depth = 0 := Option.some.inj h
    obtain rfl : s = .outside := outside
    rfl
  | cons c body ih =>
    have step {d : Nat} (hn : nesting d (s.step c) body = some 0) :
        (blockBody d (s.step c) (body ++ '}' :: rest)).map (Prod.map (c :: ·) id) =
          some (c :: body, rest) := by
      rw [ih hn outside]
      rfl
    rw [List.cons_append, blockBody]
    rw [nesting] at h
    split at h
    · rename_i hc
      rw [if_pos hc]
      exact step h
    · rename_i hc
      rw [if_neg hc]
      split at h
      · rename_i hb
        split at h
        · cases h
        · rename_i hd
          rw [if_pos hb, if_neg hd]
          exact step h
      · rename_i hb
        rw [if_neg hb]
        exact step h

theorem nesting_of_blockBody {t body rest : Text}
    (h : blockBody depth s t = some (body, rest)) :
    nesting depth s body = some 0 ∧ s.run body = .outside := by
  induction t generalizing depth s body with
  | nil => simp [blockBody] at h
  | cons c t ih =>
    have step {d : Nat} (hm : (blockBody d (s.step c) t).map (Prod.map (c :: ·) id) =
        some (body, rest)) :
        ∃ b, body = c :: b ∧ nesting d (s.step c) b = some 0 ∧ (s.step c).run b = .outside := by
      obtain ⟨⟨b, r⟩, hb, hr⟩ := Option.map_eq_some_iff.mp hm
      obtain ⟨rfl, rfl⟩ := Prod.mk.inj hr
      exact ⟨b, rfl, ih hb⟩
    rw [blockBody] at h
    split at h
    · rename_i hc
      obtain ⟨b, rfl, hn, ho⟩ := step h
      exact ⟨by rw [nesting, if_pos hc, hn], ho⟩
    · rename_i hc
      split at h
      · rename_i hb
        split at h
        · rename_i hd
          obtain ⟨rfl, -⟩ := Prod.mk.inj (Option.some.inj h)
          obtain ⟨hf, -⟩ := Bool.and_eq_true_iff.mp hb
          exact ⟨by rw [nesting, hd], Scan.eq_outside_of_free hf⟩
        · rename_i hd
          obtain ⟨b, rfl, hn, ho⟩ := step h
          exact ⟨by rw [nesting, if_neg hc, if_pos hb, if_neg hd, hn], ho⟩
      · rename_i hb
        obtain ⟨b, rfl, hn, ho⟩ := step h
        exact ⟨by rw [nesting, if_neg hc, if_neg hb, hn], ho⟩

theorem Closes.nil : Closes [] := ⟨rfl, rfl⟩

theorem Closes.append {a b : Text} (ha : Closes a) (hb : Closes b) : Closes (a ++ b) where
  nesting := by rw [nesting_append, ha.nesting, ha.outside]; exact hb.nesting
  outside := by rw [Scan.run_append, ha.outside, hb.outside]

theorem Opens.closes {head : Text} (h : Opens head) : Closes head where
  nesting := nesting_of_avoids h.avoids
  outside := h.outside

theorem Closes.braces {body : Text} (h : Closes body) : Closes ('{' :: (body ++ ['}'])) where
  nesting := by
    have opened : Css.nesting 1 .outside body = some 1 := nesting_add h.nesting 1
    show Css.nesting 1 .outside (body ++ ['}']) = some 0
    rw [nesting_append, opened, h.outside]
    rfl
  outside := by
    show Scan.outside.run (body ++ ['}']) = .outside
    rw [Scan.run_append, h.outside]
    rfl

theorem closes_block {head body : Text} (ho : Opens head) (hc : Closes body) :
    Closes (head ++ '{' :: (body ++ ['}'])) := ho.closes.append hc.braces

theorem splitHead_of_opens {head : Text} {c : Char} (ho : Opens head)
    (free : Scan.outside.free c = true) (ends : endsHead c = true) (rest : Text) :
    splitHead (head ++ c :: rest) = (head, c :: rest) :=
  splitFree_of_avoids ho.avoids (by rw [ho.outside]; exact free) ends

theorem readItem_of_semicolon {head : Text} (ho : Opens head) (rest : Text) :
    readItem (head ++ ';' :: rest) = .read (.bare (trim head)) rest := by
  have hs := splitHead_of_opens ho (c := ';') rfl rfl rest
  obtain ⟨c, u, hu⟩ := List.exists_cons_of_ne_nil ho.nonempty
  rw [readItem, hs, hu]
  rfl

theorem readItem_of_brace {head : Text} (ho : Opens head) (after : Text) :
    readItem (head ++ '{' :: after) =
      match blockBody 0 .outside after with
      | some (body, rest) => .read (.block (trim head) body) rest
      | none => .unclosed := by
  have hs := splitHead_of_opens ho (c := '{') rfl rfl after
  obtain ⟨c, u, hu⟩ := List.exists_cons_of_ne_nil ho.nonempty
  rw [readItem, hs, hu]
  rfl

theorem opens_of_splitHead {t head rest : Text} {c : Char} (nonempty : head ≠ [])
    (h : splitHead t = (head, c :: rest)) : Opens head ∧ t = head ++ c :: rest := by
  have happ := splitFree_append endsHead .outside t
  rw [← splitHead, h] at happ
  obtain ⟨ha, hf, -⟩ := avoids_of_splitFree h
  exact ⟨⟨nonempty, ha, Scan.eq_outside_of_free hf⟩, happ.symm⟩

/-- A text that begins with a statement or with a block that is never closed
begins with a head and its end. -/
theorem exists_head {t : Text} (h : readItem t ≠ .absent) :
    ∃ head rest, Opens head ∧ (t = head ++ ';' :: rest ∨ t = head ++ '{' :: rest) := by
  rw [readItem] at h
  split at h
  · exact absurd rfl h
  · rename_i head rest hne hs
    obtain ⟨ho, ht⟩ := opens_of_splitHead hne hs
    exact ⟨head, rest, ho, .inl ht⟩
  · rename_i head rest hne hs
    obtain ⟨ho, ht⟩ := opens_of_splitHead hne hs
    exact ⟨head, rest, ho, .inr ht⟩
  · exact absurd rfl h

theorem blockBody_eq_some_iff {t body rest : Text} :
    blockBody 0 .outside t = some (body, rest) ↔ Closes body ∧ t = body ++ '}' :: rest := by
  constructor
  · intro h
    obtain ⟨hn, ho⟩ := nesting_of_blockBody h
    exact ⟨⟨hn, ho⟩, blockBody_append h⟩
  · rintro ⟨hc, rfl⟩
    exact blockBody_of_nesting hc.nesting hc.outside rest

theorem readItem_eq_block_iff {t title body rest : Text} :
    readItem t = .read (.block title body) rest ↔
      ∃ head, Opens head ∧ Closes body ∧ title = trim head ∧
        t = head ++ '{' :: (body ++ '}' :: rest) := by
  constructor
  · intro h
    obtain ⟨head, after, ho, rfl | rfl⟩ := exists_head (by rw [h]; simp)
    · simp [readItem_of_semicolon ho] at h
    · rw [readItem_of_brace ho] at h
      split at h
      · rename_i hb
        obtain ⟨hst, rfl⟩ := Item.read.inj h
        obtain ⟨rfl, rfl⟩ := Statement.block.inj hst
        obtain ⟨hc, rfl⟩ := blockBody_eq_some_iff.mp hb
        exact ⟨head, ho, hc, rfl, rfl⟩
      · cases h
  · rintro ⟨head, ho, hc, rfl, rfl⟩
    rw [readItem_of_brace ho, blockBody_eq_some_iff.mpr ⟨hc, rfl⟩]

theorem readItem_eq_bare_iff {t title rest : Text} :
    readItem t = .read (.bare title) rest ↔
      ∃ head, Opens head ∧ title = trim head ∧ t = head ++ ';' :: rest := by
  constructor
  · intro h
    obtain ⟨head, after, ho, rfl | rfl⟩ := exists_head (by rw [h]; simp)
    · rw [readItem_of_semicolon ho] at h
      obtain ⟨hst, rfl⟩ := Item.read.inj h
      exact ⟨head, ho, (Statement.bare.inj hst).symm, rfl⟩
    · rw [readItem_of_brace ho] at h
      split at h
      · simp at h
      · cases h
  · rintro ⟨head, ho, rfl, rfl⟩
    exact readItem_of_semicolon ho rest

theorem readItem_eq_unclosed_iff {t : Text} :
    readItem t = .unclosed ↔
      ∃ head after, Opens head ∧ t = head ++ '{' :: after ∧
        ∀ body rest, after = body ++ '}' :: rest → ¬ Closes body := by
  constructor
  · intro h
    obtain ⟨head, after, ho, rfl | rfl⟩ := exists_head (by rw [h]; simp)
    · simp [readItem_of_semicolon ho] at h
    · rw [readItem_of_brace ho] at h
      split at h
      · cases h
      · rename_i hb
        refine ⟨head, after, ho, rfl, fun body rest ht hc => ?_⟩
        rw [blockBody_eq_some_iff.mpr ⟨hc, ht⟩] at hb
        cases hb
  · rintro ⟨head, after, ho, rfl, hn⟩
    rw [readItem_of_brace ho]
    cases hb : blockBody 0 .outside after with
    | none => rfl
    | some p =>
      obtain ⟨hc, ht⟩ := blockBody_eq_some_iff.mp hb
      exact absurd hc (hn p.1 p.2 ht)

def isCalm (c : Char) : Bool := c != '\\' && !isQuote c && !endsHead c

theorem isCalm_of {p : Char → Bool} {c : Char}
    (h : ['\\', '"', '\'', '{', ';', '}'].all (fun d => !p d) = true) (hc : p c = true) :
    isCalm c = true := by
  have not {d : Char} (hd : d ∈ ['\\', '"', '\'', '{', ';', '}']) : c ≠ d := by
    rintro rfl
    have hp := List.all_eq_true.mp h c hd
    simp [hc] at hp
  simp [isCalm, isQuote, endsHead, not]

theorem avoids_of_calm {t : Text} (h : t.all isCalm = true) :
    avoids endsHead .outside t = true ∧ Scan.outside.run t = .outside := by
  induction t with
  | nil => exact ⟨rfl, rfl⟩
  | cons c t ih =>
    obtain ⟨hc, ht⟩ : isCalm c = true ∧ t.all isCalm = true := by simpa using h
    simp only [isCalm, Bool.and_eq_true, Bool.not_eq_true', bne_iff_ne] at hc
    obtain ⟨⟨hb, hq⟩, he⟩ := hc
    have hs := Scan.step_of_free (Scan.free_outside hb hq)
    constructor
    · rw [avoids, hs, he, (ih ht).1]
      simp
    · show (Scan.outside.step c).run t = .outside
      rw [hs]
      exact (ih ht).2

theorem readItems_of_read {t rest : Text} {st : Statement}
    (h : readItem (skipGap t) = .read st rest) :
    readItems t = (readItems rest).map fun p => (st :: p.1, p.2) := by
  rw [readItems]
  split
  · rename_i st' rest' h'
    obtain ⟨rfl, rfl⟩ := Item.read.inj (h'.symm.trans h)
    rfl
  · rename_i h'
    rw [h] at h'
    cases h'
  · rename_i h'
    rw [h] at h'
    cases h'

theorem readItems_of_absent {t : Text} (h : readItem (skipGap t) = .absent) :
    readItems t = .ok ([], t) := by
  rw [readItems]
  split
  · rename_i h'
    rw [h] at h'
    cases h'
  · rfl
  · rename_i h'
    rw [h] at h'
    cases h'

theorem readItems_of_unclosed {t : Text} (h : readItem (skipGap t) = .unclosed) :
    readItems t = .error (.unclosed (excerpt (skipGap t))) := by
  rw [readItems]
  split
  · rename_i h'
    rw [h] at h'
    cases h'
  · rename_i h'
    rw [h] at h'
    cases h'
  · rfl

theorem readItems_of_gap {gap : Text} (h : gap.all isGap = true) :
    readItems gap = .ok ([], gap) := by
  have hs : skipGap gap = [] := by
    rw [← List.append_nil gap, skipGap_append h]
    rfl
  apply readItems_of_absent
  rw [hs]
  rfl

theorem readItems_eq_cons {t rest : Text} {st : Statement} {sts : List Statement}
    (h : readItems t = .ok (st :: sts, rest)) :
    ∃ r, readItem (skipGap t) = .read st r ∧ readItems r = .ok (sts, rest) := by
  rw [readItems] at h
  split at h
  · rename_i st' r hi
    cases hr : readItems r with
    | error e => simp [hr, Except.map] at h
    | ok p =>
      obtain ⟨ss, u⟩ := p
      simp only [hr, Except.map, Except.ok.injEq, Prod.mk.injEq, List.cons.injEq] at h
      obtain ⟨⟨rfl, rfl⟩, rfl⟩ := h
      exact ⟨r, hi, hr⟩
  · simp at h
  · simp at h

theorem readItems_eq_nil {t rest : Text} (h : readItems t = .ok ([], rest)) : rest = t := by
  rw [readItems] at h
  split at h
  · rename_i st r hi
    cases hr : readItems r <;> simp [hr, Except.map] at h
  · simpa using h.symm
  · simp at h

theorem readSheet_eq_ok_iff {t : Text} {sts : List Statement} :
    readSheet t = .ok sts ↔
      ∃ rest, readItems t = .ok (sts, rest) ∧ isBlankText rest = true := by
  rw [readSheet]
  cases hr : readItems t with
  | error e => simp
  | ok p =>
    obtain ⟨ss, rest⟩ := p
    constructor
    · intro h
      dsimp only at h
      split at h
      · rename_i hb
        obtain rfl := Except.ok.inj h
        exact ⟨rest, rfl, trim_eq_nil_iff.mp hb⟩
      · cases h
    · rintro ⟨rest', he, hb⟩
      obtain ⟨rfl, rfl⟩ := Prod.mk.inj (Except.ok.inj he)
      exact if_pos (trim_eq_nil_iff.mpr hb)

theorem readSheet_eq_block_iff {t title body : Text} :
    readSheet t = .ok [.block title body] ↔
      ∃ head rest, Opens head ∧ Closes body ∧ title = trim head ∧
        skipGap t = head ++ '{' :: (body ++ '}' :: rest) ∧
        readItems rest = .ok ([], rest) ∧ isBlankText rest = true := by
  rw [readSheet_eq_ok_iff]
  constructor
  · rintro ⟨rest, hi, hb⟩
    obtain ⟨r, hr, hn⟩ := readItems_eq_cons hi
    obtain rfl := readItems_eq_nil hn
    obtain ⟨head, ho, hc, ht, hs⟩ := readItem_eq_block_iff.mp hr
    exact ⟨head, rest, ho, hc, ht, hs, hn, hb⟩
  · rintro ⟨head, rest, ho, hc, ht, hs, hn, hb⟩
    refine ⟨rest, ?_, hb⟩
    have hr := readItem_eq_block_iff.mpr ⟨head, ho, hc, ht, hs⟩
    rw [readItems_of_read hr, hn]
    rfl

end UtilityLayer.Css

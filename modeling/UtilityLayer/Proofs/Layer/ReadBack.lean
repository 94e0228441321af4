import UtilityLayer.Layer.Critical
import UtilityLayer.Layer.Index
import UtilityLayer.Proofs.Css.Comment
import UtilityLayer.Proofs.Css.Reading

/-!
# Reading a layer back

A layer reads back as its own rules exactly when it has no comment in it and
each of its rules, read alone, is one block printed as it was written. A rule
that is more or less than one block never comes right through its neighbours.
-/

set_option autoImplicit false

namespace UtilityLayer.Layer

open Text Css

/-- The text is one block with the given title, and its body the rules one after
the other. -/
def ReadsBack (css name : Text) (rules : List Text) : Prop :=
  ∃ body, readSheet (withoutComments css) = .ok [.block ("@layer ".toList ++ name) body] ∧
    ∃ blocks : List (Text × Text), readSheet body = .ok (blocks.map fun b => .block b.1 b.2) ∧
      blocks.map (fun b => printBlock b.1 b.2) = rules

/-- Read alone, the text is one block and printed as it is written. -/
def StandsAlone (t : Text) : Prop :=
  ∃ title body, readSheet t = .ok [.block title body] ∧ t = printBlock title body

def ruled (ts : List Text) : Text := ts.flatMap fun t => t ++ ['\n']

theorem printBlock_eq (title body rest : Text) :
    printBlock title body ++ rest = (title ++ [' ']) ++ '{' :: (body ++ '}' :: rest) := by
  simp [printBlock]

theorem aligned {gap title body head rest r : Text} (hg : gap.all isGap = true)
    (nonempty : head ≠ []) (ht : title = trim head)
    (h : skipGap (gap ++ (printBlock title body ++ rest)) = head ++ '{' :: (body ++ '}' :: r)) :
    title ≠ [] ∧ head = title ++ [' '] ∧ r = rest := by
  rw [skipGap_append hg, printBlock_eq] at h
  obtain ⟨c, u, hu⟩ := List.exists_cons_of_ne_nil nonempty
  cases title with
  | nil =>
    have blank := trim_eq_nil_iff.mp ht.symm
    have hs : skipGap ([] ++ [' '] ++ '{' :: (body ++ '}' :: rest)) =
      '{' :: (body ++ '}' :: rest) := rfl
    rw [hs, hu] at h
    obtain ⟨rfl, -⟩ := List.cons.inj h
    rw [hu] at blank
    exact absurd (List.all_eq_true.mp blank '{' (by simp)) (by decide)
  | cons d v =>
    have hd := isBlank_of_trim ht.symm
    refine ⟨by simp, ?_⟩
    obtain ⟨a, z, hz, ha, hb⟩ := exists_trim head
    rw [← ht] at hz
    have hs : skipGap ((d :: v) ++ [' '] ++ '{' :: (body ++ '}' :: rest)) =
        (d :: v) ++ [' '] ++ '{' :: (body ++ '}' :: rest) := skipGap_cons hd _
    rw [hs, hz] at h
    obtain rfl : a = [] := by
      rw [List.append_assoc a, List.append_assoc a] at h
      exact eq_nil_of_blank_append ha hd h.symm
    have tail : [' '] ++ '{' :: (body ++ '}' :: rest) = z ++ '{' :: (body ++ '}' :: r) := by
      rw [List.nil_append, List.append_assoc, List.append_assoc] at h
      exact List.append_cancel_left h
    cases z with
    | nil =>
      have he := (List.cons.inj tail).1
      exact absurd he (by decide)
    | cons e z =>
      obtain rfl : ' ' = e := (List.cons.inj tail).1
      have after : '{' :: (body ++ '}' :: rest) = z ++ '{' :: (body ++ '}' :: r) :=
        (List.cons.inj tail).2
      cases z with
      | nil =>
        have hr := List.append_cancel_left (List.cons.inj after).2
        exact ⟨hz, (List.cons.inj hr).2.symm⟩
      | cons f z =>
        obtain rfl : '{' = f := (List.cons.inj after).1
        exact absurd (List.all_eq_true.mp hb '{' (by simp)) (by decide)

/-- A title as it is written before a space and a brace. -/
structure Tidy (title : Text) : Prop where
  nonempty : title ≠ []
  trimmed : title = trim (title ++ [' '])
  opens : Opens (title ++ [' '])

instance (title : Text) : Decidable (Tidy title) :=
  decidable_of_iff (title ≠ [] ∧ title = trim (title ++ [' ']) ∧ Opens (title ++ [' ']))
    ⟨fun ⟨nonempty, trimmed, opens⟩ => ⟨nonempty, trimmed, opens⟩,
      fun ⟨nonempty, trimmed, opens⟩ => ⟨nonempty, trimmed, opens⟩⟩

theorem Tidy.skipGap {title : Text} (h : Tidy title) (body rest : Text) :
    skipGap (printBlock title body ++ rest) =
      (title ++ [' ']) ++ '{' :: (body ++ '}' :: rest) := by
  obtain ⟨c, u, hu⟩ := List.exists_cons_of_ne_nil h.nonempty
  have hb : isBlank c = false := isBlank_of_trim (h.trimmed.symm.trans hu)
  rw [printBlock_eq, hu]
  exact skipGap_cons hb _

theorem Tidy.readItem {title body : Text} (h : Tidy title) (hc : Closes body) (rest : Text) :
    readItem (Text.skipGap (printBlock title body ++ rest)) = .read (.block title body) rest :=
  readItem_eq_block_iff.mpr ⟨title ++ [' '], h.opens, hc, h.trimmed, h.skipGap body rest⟩

/-- What it takes for a rule to stand alone. -/
theorem standsAlone_iff {t : Text} :
    StandsAlone t ↔ ∃ title body, t = printBlock title body ∧ Tidy title ∧ Closes body := by
  constructor
  · rintro ⟨title, body, hr, rfl⟩
    obtain ⟨head, rest, ho, hc, ht, hs, -⟩ := readSheet_eq_block_iff.mp hr
    have hs' : skipGap ([] ++ (printBlock title body ++ [])) =
        head ++ '{' :: (body ++ '}' :: rest) := by
      simpa using hs
    obtain ⟨hne, rfl, -⟩ := aligned rfl ho.nonempty ht hs'
    exact ⟨title, body, rfl, ⟨hne, ht, ho⟩, hc⟩
  · rintro ⟨title, body, rfl, tidy, hc⟩
    refine ⟨title, body, ?_, rfl⟩
    have hi := tidy.readItem hc []
    rw [List.append_nil] at hi
    refine readSheet_eq_ok_iff.mpr ⟨[], ?_, rfl⟩
    rw [readItems_of_read hi, readItems_of_gap rfl]
    rfl

theorem not_standsAlone_of_absent {t : Text} (h : readItem (skipGap t) = .absent) :
    ¬ StandsAlone t := by
  rintro ⟨title, body, hr, -⟩
  obtain ⟨rest, hi, -⟩ := readSheet_eq_ok_iff.mp hr
  obtain ⟨r, hi, -⟩ := readItems_eq_cons hi
  rw [h] at hi
  cases hi

theorem readItems_blocks (gap : Text) {blocks : List (Text × Text)} (hg : gap.all isGap = true)
    (tidy : ∀ b ∈ blocks, Tidy b.1 ∧ Closes b.2) :
    ∃ rest, readItems (gap ++ ruled (blocks.map fun b => printBlock b.1 b.2)) =
      .ok (blocks.map (fun b => .block b.1 b.2), rest) ∧ isBlankText rest = true := by
  induction blocks generalizing gap with
  | nil =>
    refine ⟨gap, ?_, ?_⟩
    · rw [List.map_nil, ruled, List.flatMap_nil, List.append_nil]
      exact readItems_of_gap hg
    · exact List.all_eq_true.mpr fun c hc => isBlank_of_isGap (List.all_eq_true.mp hg c hc)
  | cons b blocks ih =>
    obtain ⟨title, closes⟩ := tidy b (by simp)
    obtain ⟨rest, hr, hb⟩ := ih ['\n'] rfl fun c hc => tidy c (by simp [hc])
    refine ⟨rest, ?_, hb⟩
    have hi := title.readItem closes (['\n'] ++ ruled (blocks.map fun b => printBlock b.1 b.2))
    rw [← skipGap_append hg, ← List.append_assoc (printBlock b.1 b.2)] at hi
    rw [List.map_cons, ruled, List.flatMap_cons, ← ruled, readItems_of_read hi, hr]
    rfl

theorem exists_blocks {ts : List Text} (alone : ∀ t ∈ ts, StandsAlone t) :
    ∃ blocks : List (Text × Text), blocks.map (fun b => printBlock b.1 b.2) = ts ∧
      ∀ b ∈ blocks, Tidy b.1 ∧ Closes b.2 := by
  induction ts with
  | nil => exact ⟨[], rfl, by simp⟩
  | cons t ts ih =>
    obtain ⟨title, body, rfl, tidy, hc⟩ := standsAlone_iff.mp (alone t (by simp))
    obtain ⟨blocks, rfl, tidies⟩ := ih fun u hu => alone u (by simp [hu])
    exact ⟨(title, body) :: blocks, rfl, List.forall_mem_cons.mpr ⟨⟨tidy, hc⟩, tidies⟩⟩

theorem readItems_ruled (gap : Text) {ts : List Text} (hg : gap.all isGap = true)
    (alone : ∀ t ∈ ts, StandsAlone t) :
    ∃ (blocks : List (Text × Text)) (rest : Text),
      readItems (gap ++ ruled ts) = .ok (blocks.map (fun b => .block b.1 b.2), rest) ∧
        isBlankText rest = true ∧ blocks.map (fun b => printBlock b.1 b.2) = ts := by
  obtain ⟨blocks, rfl, tidy⟩ := exists_blocks alone
  obtain ⟨rest, hr, hb⟩ := readItems_blocks gap hg tidy
  exact ⟨blocks, rest, hr, hb, rfl⟩

theorem alone_of_readItems (gap : Text) {rest : Text} {blocks : List (Text × Text)}
    (hg : gap.all isGap = true)
    (h : readItems (gap ++ ruled (blocks.map fun b => printBlock b.1 b.2)) =
      .ok (blocks.map (fun b => .block b.1 b.2), rest)) :
    ∀ b ∈ blocks, StandsAlone (printBlock b.1 b.2) := by
  induction blocks generalizing gap with
  | nil => simp
  | cons b blocks ih =>
    obtain ⟨title, body⟩ := b
    obtain ⟨r, hi, hr⟩ := readItems_eq_cons h
    obtain ⟨head, ho, hc, ht, hs⟩ := readItem_eq_block_iff.mp hi
    rw [List.map_cons, ruled, List.flatMap_cons, List.append_assoc] at hs
    obtain ⟨hne, rfl, rfl⟩ := aligned hg ho.nonempty ht hs
    intro b hb
    rcases List.mem_cons.mp hb with rfl | hb
    · exact standsAlone_iff.mpr ⟨title, body, rfl, ⟨hne, ht, ho⟩, hc⟩
    · exact ih ['\n'] rfl hr b hb

theorem closes_ruled {ts : List Text} (alone : ∀ t ∈ ts, StandsAlone t) : Closes (ruled ts) := by
  induction ts with
  | nil => exact .nil
  | cons t ts ih =>
    obtain ⟨title, body, rfl, tidy, hc⟩ := standsAlone_iff.mp (alone t (by simp))
    have hp := printBlock_eq title body []
    rw [List.append_nil] at hp
    have rest := ih fun u hu => alone u (by simp [hu])
    rw [ruled, List.flatMap_cons, hp]
    exact ((closes_block tidy.opens hc).append ⟨rfl, rfl⟩).append rest

def layerHead (name : Text) : Text := '@' :: ("layer ".toList ++ name ++ [' '])

theorem layerHead_eq (name : Text) : layerHead name = "@layer ".toList ++ name ++ [' '] := rfl

theorem openLayer_eq (name : Text) : openLayer name = layerHead name ++ ['{', '\n'] := by
  have unfolded : openLayer name = "@layer ".toList ++ name ++ " \x7b\n".toList := rfl
  have brace : " \x7b\n".toList = [' '] ++ ['{', '\n'] := rfl
  rw [unfolded, layerHead_eq, brace, List.append_assoc, List.append_assoc, List.append_assoc]

theorem layer_eq (name : Text) (ts : List Text) :
    openLayer name ++ ruled ts ++ ['}'] =
      layerHead name ++ '{' :: ((['\n'] ++ ruled ts) ++ '}' :: []) := by
  rw [openLayer_eq]
  simp only [List.append_assoc, List.cons_append, List.nil_append]

theorem Index.render_eq (index : Index) (classes : TextSet) (name : Text) :
    index.render classes name =
      openLayer name ++ ruled (index.generate classes .empty).ordered ++ ['}'] := rfl

theorem isNameChar_of_name {name : Text} (plain : name? name = some (name, [])) :
    name ≠ [] ∧ ∀ c ∈ name, isNameChar c = true := by
  refine ⟨(name?_append plain).2, ?_⟩
  rw [name?] at plain
  split at plain
  · cases plain
  · rename_i c n hn
    have he : c :: n = name := (Prod.mk.inj (Option.some.inj plain)).1
    rw [he] at hn
    intro d hd
    rw [← hn] at hd
    exact List.mem_takeWhile_imp hd

theorem ne_of_isNameChar {c d : Char} (h : isNameChar c = true) (hd : isNameChar d = false) :
    c ≠ d := by
  rintro rfl
  rw [h] at hd
  cases hd

theorem opens_layerHead {name : Text} (plain : name? name = some (name, [])) :
    Opens (layerHead name) := by
  have lead : "@layer ".toList.all isCalm = true := by decide
  have named : name.all isCalm = true := by
    rw [List.all_eq_true]
    exact fun c hc => isCalm_of (by decide) ((isNameChar_of_name plain).2 c hc)
  have hc : (layerHead name).all isCalm = true := by
    rw [layerHead_eq, List.all_append, List.all_append, lead, named]
    decide
  obtain ⟨ha, ho⟩ := avoids_of_calm hc
  exact ⟨List.cons_ne_nil _ _, ha, ho⟩

theorem trim_layerHead {name : Text} (plain : name? name = some (name, [])) :
    trim (layerHead name) = "@layer ".toList ++ name := by
  obtain ⟨hne, hn⟩ := isNameChar_of_name plain
  have last : isBlank (name.getLast hne) = false :=
    isBlank_of_isNameChar (hn _ (List.getLast_mem hne))
  have start : trimStart (layerHead name) = layerHead name := by
    rw [trimStart]
    exact List.dropWhile_cons_of_neg (by decide)
  rw [trim, start, layerHead_eq, trimEnd_concat, if_pos (by decide)]
  have split := List.dropLast_concat_getLast hne
  rw [← split, ← List.append_assoc, trimEnd_concat, last]
  rfl

theorem count_layerHead {name : Text} (plain : name? name = some (name, [])) :
    (layerHead name).count '/' = 0 := by
  have lead : "@layer ".toList.count '/' = 0 := by decide
  have named : name.count '/' = 0 := by
    rw [List.count_eq_zero]
    intro hm
    exact ne_of_isNameChar ((isNameChar_of_name plain).2 _ hm) (by decide) rfl
  rw [layerHead_eq, List.count_append, List.count_append, lead, named]
  decide

theorem count_line (title body : Text) :
    (printBlock title body ++ ['\n']).count '/' = title.count '/' + body.count '/' := by
  rw [printBlock_eq]
  simp [List.count_append]

theorem count_ruled_le {t rest : Text} {blocks : List (Text × Text)}
    (h : readItems t = .ok (blocks.map (fun b => .block b.1 b.2), rest)) :
    (ruled (blocks.map fun b => printBlock b.1 b.2)).count '/' ≤ t.count '/' := by
  induction blocks generalizing t with
  | nil => exact Nat.zero_le _
  | cons b blocks ih =>
    obtain ⟨r, hi, hr⟩ := readItems_eq_cons h
    obtain ⟨head, -, -, ht, hs⟩ := readItem_eq_block_iff.mp hi
    have hle := ih hr
    have hgap : (skipGap t).count '/' ≤ t.count '/' :=
      (List.dropWhile_sublist isGap).count_le '/'
    have htitle : b.1.count '/' ≤ head.count '/' := by
      obtain ⟨a, z, hz, -, -⟩ := exists_trim head
      rw [hz, ← ht, List.count_append, List.count_append]
      omega
    rw [hs, List.count_append, List.count_cons, List.count_append, List.count_cons] at hgap
    rw [List.map_cons, ruled, List.flatMap_cons, List.count_append, count_line, ← ruled]
    omega

theorem count_layer {name : Text} (plain : name? name = some (name, [])) (ts : List Text) :
    (openLayer name ++ ruled ts ++ ['}']).count '/' = (ruled ts).count '/' := by
  rw [layer_eq, List.count_append, count_layerHead plain]
  simp [List.count_append]

theorem opens_unique {head head' t t' : Text} (ho : Opens head) (ho' : Opens head')
    (h : head ++ '{' :: t = head' ++ '{' :: t') : head = head' ∧ t = t' := by
  have hs := splitHead_of_opens ho (c := '{') rfl rfl t
  have hs' := splitHead_of_opens ho' (c := '{') rfl rfl t'
  rw [h, hs'] at hs
  obtain ⟨he, ht⟩ := Prod.mk.inj hs
  exact ⟨he.symm, (List.cons.inj ht).2.symm⟩

theorem name_unique {name name' : Text} (plain : name? name = some (name, []))
    (plain' : name? name' = some (name', [])) {ts us : List Text}
    (h : openLayer name ++ ruled ts ++ ['}'] = openLayer name' ++ ruled us ++ ['}']) :
    name = name' := by
  rw [layer_eq, layer_eq] at h
  obtain ⟨heads, -⟩ := opens_unique (opens_layerHead plain) (opens_layerHead plain') h
  rw [layerHead_eq, layerHead_eq, List.append_assoc, List.append_assoc] at heads
  exact List.append_cancel_right (List.append_cancel_left heads)

theorem body_eq {body body' rest : Text} (blank : isBlankText rest = true)
    (h : body ++ '}' :: rest = body' ++ ['}']) : body = body' := by
  rcases List.eq_nil_or_concat rest with rfl | ⟨r, z, rfl⟩
  · exact List.append_cancel_right h
  · have split : (body ++ '}' :: r) ++ [z] = body' ++ ['}'] := by
      rw [← h]
      simp
    obtain ⟨-, hz⟩ := List.append_inj' split rfl
    obtain rfl : z = '}' := (List.cons.inj hz).1
    exact absurd (List.all_eq_true.mp blank '}' (by simp)) (by decide)

theorem readsBack_iff {name : Text} (plain : name? name = some (name, [])) (ts : List Text) :
    ReadsBack (openLayer name ++ ruled ts ++ ['}']) name ts ↔
      withoutComments (openLayer name ++ ruled ts ++ ['}']) = openLayer name ++ ruled ts ++ ['}'] ∧
        ∀ t ∈ ts, StandsAlone t := by
  have ho := opens_layerHead plain
  have ht := trim_layerHead plain
  have gap : skipGap (openLayer name ++ ruled ts ++ ['}']) =
      layerHead name ++ '{' :: ((['\n'] ++ ruled ts) ++ '}' :: []) := by
    rw [layer_eq]
    exact skipGap_cons (by decide) _
  constructor
  · rintro ⟨body, hl, blocks, hb, rfl⟩
    obtain ⟨r, hi, -⟩ := readSheet_eq_ok_iff.mp hb
    obtain ⟨head, rest, ho', -, -, hs, -, hblank⟩ := readSheet_eq_block_iff.mp hl
    -- The rules were read whole, so no slash is gone.
    have kept : withoutComments (openLayer name ++ ruled (blocks.map fun b => printBlock b.1 b.2) ++
        ['}']) = openLayer name ++ ruled (blocks.map fun b => printBlock b.1 b.2) ++ ['}'] := by
      apply withoutComments_eq_self
      have hskip := (List.dropWhile_sublist isGap (l := withoutComments (openLayer name ++
        ruled (blocks.map fun b => printBlock b.1 b.2) ++ ['}']))).count_le '/'
      rw [← skipGap, hs, List.count_append, List.count_cons, List.count_append] at hskip
      rw [count_layer plain]
      have hcount := count_ruled_le hi
      omega
    refine ⟨kept, ?_⟩
    rw [kept, gap] at hs
    obtain ⟨-, hbody⟩ := opens_unique ho ho' hs
    obtain rfl := body_eq hblank hbody.symm
    intro t hm
    obtain ⟨b, hb', rfl⟩ := List.mem_map.mp hm
    exact alone_of_readItems ['\n'] rfl hi b hb'
  · rintro ⟨hc, alone⟩
    obtain ⟨blocks, rest, hi, hblank, hp⟩ := readItems_ruled ['\n'] rfl alone
    refine ⟨['\n'] ++ ruled ts, ?_, blocks, readSheet_eq_ok_iff.mpr ⟨rest, hi, hblank⟩, hp⟩
    have body : Closes (['\n'] ++ ruled ts) := Closes.append ⟨rfl, rfl⟩ (closes_ruled alone)
    rw [hc]
    exact readSheet_eq_block_iff.mpr
      ⟨layerHead name, [], ho, body, ht.symm, gap, readItems_of_gap rfl, rfl⟩

end UtilityLayer.Layer

import UtilityLayer.Proofs.Css.Concatenation
import UtilityLayer.Proofs.Text.Words

/-!
# The strings of a text

The strings in a text with their quotes, as the reader of statements meets them.
Squeezing the blanks of a text squeezes those in its strings, and keeps the text
between the strings outside them. So a normalized text has the strings of the
text, each of them normalized.
-/

set_option autoImplicit false

namespace UtilityLayer.Css

open Text

section Quotes

variable {s : Scan} {t : Text}

theorem isQuote_of_run (h : ∀ q, s.quote = some q → isQuote q = true) (t : Text) :
    ∀ q, (s.run t).quote = some q → isQuote q = true := by
  induction t generalizing s with
  | nil => exact h
  | cons c t ih =>
    apply ih
    intro q hq
    rw [Scan.step] at hq
    split at hq
    · exact h q hq
    · split at hq
      · exact h q hq
      · split at hq
        · split at hq
          · cases hq
          · exact h q hq
        · split at hq
          · rename_i quote
            exact Option.some.inj hq ▸ quote
          · exact h q hq

theorem quote_run_blank (h : ∀ q, s.quote = some q → isQuote q = true)
    (blank : isBlankText t = true) : (s.run t).quote = s.quote := by
  induction t generalizing s with
  | nil => rfl
  | cons c t ih =>
    obtain ⟨hc, ht⟩ : isBlank c = true ∧ isBlankText t = true := by
      simpa [isBlankText] using blank
    have calm := isCalm_of_isBlank hc
    simp only [isCalm, Bool.and_eq_true, Bool.not_eq_true', bne_iff_ne] at calm
    have kept : (s.step c).quote = s.quote := by
      rw [Scan.step]
      split
      · rfl
      · rw [if_neg calm.1.1]
        split
        · rename_i q hq
          rw [if_neg]
          rintro rfl
          have quote := h c hq
          rw [calm.1.2] at quote
          cases quote
        · rw [if_neg (by rw [calm.1.2]; exact Bool.false_ne_true)]
    have next : ∀ q, (s.step c).quote = some q → isQuote q = true := by rwa [kept]
    exact (ih next ht).trans kept

theorem run_concat (closed : (Scan.outside.run t).quote = none) {c : Char} (bare : c ≠ '\\')
    (plain : isQuote c = false) : Scan.outside.run (t ++ [c]) = .outside := by
  rw [Scan.run_append]
  cases hs : Scan.outside.run t with
  | mk escaped quote =>
    rw [hs] at closed
    obtain rfl := closed
    cases escaped with
    | true => rfl
    | false => exact Scan.step_of_free (Scan.free_outside bare plain)

end Quotes

/-- The rest of the string that the reader is in, and the strings behind it. -/
def stringsFrom : Scan → Text → List Text
  | _, [] => []
  | s, c :: t =>
    let later := stringsFrom (s.step c) t
    if (s.step c).quote.isSome then
      match later with
      | [] => [[c]]
      | a :: rest => (c :: a) :: rest
    else if s.quote.isSome then [c] :: later
    else later

def strings (t : Text) : List Text := stringsFrom .outside t

section Strings

variable {q : Char} {a t : Text}

theorem strings_plain {c : Char} (bare : c ≠ '\\') (unquoted : isQuote c = false) (t : Text) :
    strings (c :: t) = strings t := by
  have stays := Scan.step_of_free (Scan.free_outside bare unquoted)
  rw [strings, stringsFrom, stays]
  rfl

theorem strings_escape (c : Char) (t : Text) : strings ('\\' :: c :: t) = strings t := rfl

theorem StringRest.stringsFrom (h : StringRest q a) (quote : isQuote q = true) (t : Text) :
    Css.stringsFrom { quote := some q } (a ++ t) = a :: strings t := by
  have bareQuote := isQuote_ne_backslash quote
  induction h with
  | close => simp [Css.stringsFrom, Scan.step, bareQuote, Scan.outside, strings]
  | escape c rest ih => simp [Css.stringsFrom, Scan.step, ih]
  | char inside bare rest ih => simp [Css.stringsFrom, Scan.step, inside, bare, ih]

theorem strings_string (quote : isQuote q = true) (rest : StringRest q a) (t : Text) :
    strings (q :: (a ++ t)) = (q :: a) :: strings t := by
  have opened : Scan.outside.step q = { quote := some q } := by
    simp [Scan.step, Scan.outside, isQuote_ne_backslash quote, quote]
  rw [strings, stringsFrom, opened, rest.stringsFrom quote]
  rfl

theorem Signs.string_of_mem (h : Signs t) (ha : a ∈ strings t) :
    ∃ q b, a = q :: b ∧ isQuote q = true ∧ StringRest q b := by
  induction h with
  | nil => cases ha
  | @cons b t sign rest ih =>
    cases sign with
    | plain bare unquoted =>
      rw [List.singleton_append, strings_plain bare unquoted] at ha
      exact ih ha
    | escape c => exact ih ha
    | @string q b quote closed =>
      rw [List.cons_append, strings_string quote closed, List.mem_cons] at ha
      rcases ha with rfl | ha
      · exact ⟨q, b, rfl, quote, closed⟩
      · exact ih ha

theorem StringRest.squeeze (h : StringRest q a) (quote : isQuote q = true) :
    StringRest q (squeeze a) := by
  have solid := isBlank_of_isQuote quote
  have space : ' ' ≠ q := by
    rintro rfl
    cases quote
  have behind {u : Text} (h : StringRest q (' ' :: u)) : StringRest q u := by
    cases h with
    | close => exact absurd rfl space
    | char inside bare rest => exact rest
  induction h with
  | close =>
    rw [squeeze_cons solid]
    exact .close
  | @escape c t rest ih =>
    rw [squeeze_cons (by decide)]
    cases hc : isBlank c with
    | true =>
      obtain ⟨u, hu, same | more⟩ := squeeze_cons_blank hc t
      · rw [hu, ← same]
        exact .escape ' ' ih
      · rw [more] at ih
        rw [hu]
        exact .escape ' ' (behind ih)
    | false =>
      rw [squeeze_cons hc]
      exact .escape c ih
  | @char c t inside bare rest ih =>
    cases hc : isBlank c with
    | true =>
      obtain ⟨u, hu, same | more⟩ := squeeze_cons_blank hc t
      · rw [hu, ← same]
        exact .char space (by decide) ih
      · rw [hu, ← more]
        exact ih
    | false =>
      rw [squeeze_cons hc]
      exact .char inside bare ih

theorem Signs.squeeze (h : Signs t) : Scan.outside.run (squeeze t) = .outside ∧
    strings (Text.squeeze t) = (strings t).map Text.squeeze := by
  have space (u : Text) : Scan.outside.run (' ' :: u) = Scan.outside.run u ∧
      strings (' ' :: u) = strings u := ⟨rfl, strings_plain (by decide) rfl u⟩
  induction h with
  | nil => exact ⟨rfl, rfl⟩
  | @cons a t sign rest ih =>
    cases sign with
    | @plain c bare unquoted =>
      rw [List.singleton_append, strings_plain bare unquoted]
      cases hc : isBlank c with
      | true =>
        obtain ⟨u, hu, same | more⟩ := squeeze_cons_blank hc t
        · rw [hu, (space u).1, (space u).2, ← same]
          exact ih
        · rw [hu, ← more]
          exact ih
      | false =>
        rw [squeeze_cons hc, strings_plain bare unquoted]
        refine ⟨?_, ih.2⟩
        show (Scan.outside.step c).run (Text.squeeze t) = .outside
        rw [Scan.step_of_free (Scan.free_outside bare unquoted)]
        exact ih.1
    | escape c =>
      have escaped (d : Char) (u : Text) :
          Scan.outside.run ('\\' :: d :: u) = Scan.outside.run u := rfl
      have whole : ['\\', c] ++ t = '\\' :: c :: t := rfl
      rw [whole, strings_escape, squeeze_cons (by decide)]
      cases hc : isBlank c with
      | true =>
        obtain ⟨u, hu, same | more⟩ := squeeze_cons_blank hc t
        · rw [hu, escaped, strings_escape, ← same]
          exact ih
        · rw [more, (space u).1, (space u).2] at ih
          rw [hu, escaped, strings_escape]
          exact ih
      | false =>
        rw [squeeze_cons hc, escaped, strings_escape]
        exact ih
    | @string q a quote closed =>
      have solid := isBlank_of_isQuote quote
      have last : ∀ c ∈ a.getLast?, isBlank c = false := by
        rw [closed.getLast?]
        rintro c ⟨⟩
        exact solid
      have squeezed := closed.squeeze quote
      rw [List.cons_append, squeeze_cons solid, squeeze_append last, strings_string quote squeezed,
        strings_string quote closed, List.map_cons, squeeze_cons solid, ih.2]
      refine ⟨?_, rfl⟩
      rw [← List.cons_append, Scan.run_append, (Sign.string quote squeezed).passes.1]
      exact ih.1

theorem normalize_string (quote : isQuote q = true) (rest : StringRest q a) :
    normalize (q :: a) = squeeze (q :: a) := by
  have solid := isBlank_of_isQuote quote
  obtain ⟨z, blank, same⟩ := squeeze_eq (q :: a)
  have first : lead (q :: a) = [] := by simp [lead, leadsBlank, solid]
  rw [first, List.nil_append] at same
  have none : z = [] := by
    rcases List.eq_nil_or_concat z with none | ⟨z, c, rfl⟩
    · exact none
    · have last := congrArg List.getLast? same
      rw [squeeze_cons solid, List.getLast?_cons, (rest.squeeze quote).getLast?,
        List.concat_eq_append, ← List.append_assoc, List.getLast?_concat] at last
      obtain rfl : q = c := by simpa using last
      exact absurd (by simp) (not_mem_of_blank solid blank)
  rw [same, none, List.append_nil]

theorem stringsFrom_append {s : Scan} (closed : (s.run a).quote = none) (b : Text) :
    stringsFrom s (a ++ b) = stringsFrom s a ++ stringsFrom (s.run a) b := by
  induction a generalizing s with
  | nil => rfl
  | cons c a ih =>
    have later := ih (s := s.step c) closed
    have same : s.run (c :: a) = (s.step c).run a := rfl
    rw [List.cons_append, stringsFrom, stringsFrom, later, same]
    cases inside : (s.step c).quote with
    | none => cases s.quote <;> rfl
    | some q =>
      have some : stringsFrom (s.step c) a ≠ [] := by
        cases a with
        | nil =>
          have open' : (s.step c).quote = none := closed
          rw [inside] at open'
          cases open'
        | cons d a =>
          rw [stringsFrom, inside]
          split
          · split <;> simp
          · simp
      obtain ⟨x, rest, hx⟩ := List.exists_cons_of_ne_nil some
      rw [hx]
      rfl

theorem stringsFrom_blank {s : Scan} (outside : s.quote = none) (blank : isBlankText t = true) :
    stringsFrom s t = [] := by
  induction t generalizing s with
  | nil => rfl
  | cons c t ih =>
    obtain ⟨hc, ht⟩ : isBlankText [c] = true ∧ isBlankText t = true := by
      simpa [isBlankText] using blank
    have stays : (s.step c).quote = none := by
      have kept := quote_run_blank (s := s) (by simp [outside]) hc
      rw [outside] at kept
      exact kept
    rw [stringsFrom, stays, outside, ih stays ht]
    rfl

theorem strings_between {z w : Text} (before : isBlankText z = true) (after : isBlankText w = true)
    (closed : (Scan.outside.run (z ++ (t ++ w))).quote = none) :
    strings (z ++ (t ++ w)) = strings t := by
  have outside := (avoids_of_calm (calm_of_blank before)).2
  rw [Scan.run_append, outside, Scan.run_append,
    quote_run_blank (isQuote_of_run (by simp [Scan.outside]) t) after] at closed
  rw [strings, stringsFrom_append (by rw [outside]; rfl), outside, stringsFrom_append closed,
    stringsFrom_blank rfl before, stringsFrom_blank closed after, List.nil_append, List.append_nil,
    strings]

/-- What normalizing does to the strings of a text, it does to each of them. -/
theorem strings_normalize (closed : (Scan.outside.run t).quote = none) :
    strings (normalize t) = (strings t).map normalize := by
  have signs := signs_of_outside (run_concat closed (c := ' ') (by decide) rfl)
  have sameWords : normalize (t ++ [' ']) = normalize t := by
    rw [Text.normalize, words_append (by decide), Text.normalize, words]
    simp [words, pieces]
  have sameStrings : strings (t ++ [' ']) = strings t := by
    rw [strings, stringsFrom_append closed, stringsFrom_blank closed (by decide),
      List.append_nil, strings]
  obtain ⟨outside, squeezed⟩ := signs.squeeze
  obtain ⟨z, blank, same⟩ := squeeze_eq (t ++ [' '])
  rw [same] at outside squeezed
  have between := strings_between (isBlankText_lead (t ++ [' '])) blank (by rw [outside]; rfl)
  rw [← sameWords, ← between, squeezed, ← sameStrings]
  apply List.map_congr_left
  intro a ha
  obtain ⟨q, b, rfl, quote, rest⟩ := signs.string_of_mem ha
  exact (normalize_string quote rest).symm

end Strings

end UtilityLayer.Css

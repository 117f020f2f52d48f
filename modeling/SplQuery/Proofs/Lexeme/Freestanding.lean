import Mathlib.Data.List.Find
import SplQuery.Proofs.Lexeme.Classes

/-!
# Texts that stand by themselves

A text is freestanding when it is one lexeme wherever a blank or the end of the query comes after
it. Names, numbers, times, quoted values, operators and reserved words are; each of them is shown to
have its kind although rules before it might have claimed it.

* `IsIdentifier`, `IsNumber`, `IsTime` — what may be written as a name, a number and a time.
* `IsIdentifier.freestanding`, `IsNumber.freestanding`, `IsTime.freestanding`,
  `freestanding_quote`, `freestanding_fixed` — their kinds.
* `Found` — a lexeme that is found again between blanks.
-/

namespace SplQuery

open Form Rule

/-- A name or a placeholder that is no reserved word and no word for a value. -/
def IsIdentifier (w : String) : Prop :=
  (Admits name w.toList ∨ Admits placeholder w.toList) ∧ ∀ r ∈ words, ¬Admits r.form w.toList

/-- A number without a sign. -/
def IsNumber (w : String) : Prop := Admits number w.toList

/-- A time relative to now, or the word for now. -/
def IsTime (w : String) : Prop := Admits relativeTime w.toList ∨ Admits (word "now") w.toList

instance (w : String) : Decidable (IsIdentifier w) :=
  inferInstanceAs (Decidable ((_ ∨ _) ∧ ∀ r ∈ words, ¬Admits r.form w.toList))

instance (w : String) : Decidable (IsNumber w) := inferInstanceAs (Decidable (Admits _ _))

instance (w : String) : Decidable (IsTime w) :=
  inferInstanceAs (Decidable (Admits _ _ ∨ Admits _ _))

/-- A text that is one lexeme, of a kind, wherever a blank or the end comes after it. -/
structure Freestanding (w : List Char) (k : Kind) : Prop where
  kind : kindOf? Rule.all w = some k
  /-- white space before it does not run on into it -/
  start : ∀ c ∈ w.head?, c ∉ blanks
  /-- it does not run on behind a blank -/
  ends : ∀ s, kindOf? Rule.all (w ++ ' ' :: s) = none

/-- The empty text is no lexeme. -/
theorem kindOf?_nil : kindOf? Rule.all [] = none := by decide

/-! ## First characters -/

/-- The characters with which those texts may begin that may hold blanks. -/
def openers : List Char := blanks ++ ['\x60', '"', '\'']

theorem not_mem_of_class {m : Char → Bool} {c : Char} {ds : List Char} (hc : m c = true)
    (hds : ds.all (!m ·) = true) : c ∉ ds := by
  intro hmem
  have hfalse := List.all_eq_true.mp hds c hmem
  rw [hc] at hfalse
  cases hfalse

section Starts

variable {c : Char}

theorem mayStart_whitespace (h : c ∉ blanks) : whitespace.mayStart c = false := by
  simp [whitespace, Form.some, thenOf, mayStart, acceptsNow, h]

theorem mayStart_comment (h : c ≠ '\x60') : comment.mayStart c = false := by
  simp [comment, char, thenOf, mayStart, acceptsNow, h]

theorem mayStart_macroCall (h : c ≠ '\x60') : macroCall.mayStart c = false := by
  simp [macroCall, char, thenOf, mayStart, acceptsNow, h]

theorem mayStart_quoted {q : Char} (h : c ≠ q) : (quoted q).mayStart c = false := by
  simp [quoted, char, thenOf, mayStart, acceptsNow, h]

theorem mayStart_number (h : c.isDigit = false) : number.mayStart c = false := by
  simp [number, digit, Form.some, thenOf, mayStart, acceptsNow, h]

theorem mayStart_relativeTime (h : c.isDigit = false) (hc : c ∉ ['+', '-', '@']) :
    relativeTime.mayStart c = false := by
  simp only [List.mem_cons, List.not_mem_nil, or_false, not_or] at hc
  simp [relativeTime, snap, digit, Form.some, Form.optional, char, orOf, thenOf, mayStart,
    acceptsNow, h, hc]

theorem mayStart_name (h : (c.isAlpha || c == '_') = false) : name.mayStart c = false := by
  simpa [name, thenOf, mayStart, acceptsNow] using h

/-- The characters that end a name wherever they stand after it. -/
def stops : List Char := blanks ++ [',', '=']

/-- They stand in no word, time, number, name or placeholder. -/
theorem avoids_stop {b : Char} (hb : b ∈ stops) :
    isWordChar b = false ∧ relativeTime.avoids b = true ∧ number.avoids b = true ∧
      name.avoids b = true ∧ placeholder.avoids b = true := by
  simp only [stops, blanks, List.mem_append, List.mem_cons, List.not_mem_nil, or_false] at hb
  rcases hb with (rfl | rfl | rfl | rfl | rfl) | rfl | rfl <;> decide

/-- A blank stands in no operator. -/
theorem not_mem_symbolChars_of_blank {b : Char} (hb : b ∈ blanks) : b ∉ symbolChars := by
  simp only [blanks, List.mem_cons, List.not_mem_nil, or_false] at hb
  rcases hb with rfl | rfl | rfl | rfl | rfl <;> decide

theorem not_admits_symbols {c : Char} {w : List Char} (hc : c ∉ symbolChars) (hw : c ∈ w) :
    kindOf? symbols w = none :=
  kindOf?_eq_none_iff.mpr fun r hr => not_admits_of_avoids (symbols_avoid hc r hr) hw

/-- A text that is no operator and has begun like none of those that may hold such characters ends
before the first one. -/
theorem kindOf?_eq_none_of_stop {b : Char} {w : List Char} (hc : c ∉ openers)
    (hsymbols : kindOf? symbols (c :: w) = none) (hb : b ∈ stops) (hw : b ∈ w) :
    kindOf? Rule.all (c :: w) = none := by
  have hmem : b ∈ c :: w := List.mem_cons_of_mem c hw
  obtain ⟨hword, htime, hnumber, hname, hplaceholder⟩ := avoids_stop hb
  simp only [openers, List.mem_append, List.mem_cons, List.not_mem_nil, or_false, not_or] at hc
  obtain ⟨hblank, htick, hdouble, hsingle⟩ := hc
  rw [kindOf?_eq_none_iff]
  intro r hr
  rw [Rule.all, List.mem_append, List.mem_append] at hr
  obtain (hr | hr) | hr := hr
  · exact kindOf?_eq_none_iff.mp hsymbols r hr
  · exact not_admits_of_avoids (words_avoid hword r hr) hmem
  · simp only [patterns, List.mem_cons, List.not_mem_nil, or_false] at hr
    rcases hr with rfl | rfl | rfl | rfl | rfl | rfl | rfl | rfl | rfl
    · exact not_admits_of_mayStart (mayStart_whitespace hblank)
    · exact not_admits_of_mayStart (mayStart_comment htick)
    · exact not_admits_of_mayStart (mayStart_quoted hdouble)
    · exact not_admits_of_mayStart (mayStart_quoted hsingle)
    · exact not_admits_of_avoids htime hmem
    · exact not_admits_of_avoids hnumber hmem
    · exact not_admits_of_mayStart (mayStart_macroCall htick)
    · exact not_admits_of_avoids hname hmem
    · exact not_admits_of_avoids hplaceholder hmem

theorem kindOf?_eq_none_of_blank {b : Char} {w : List Char} (hc : c ∉ openers) (hb : b ∈ blanks)
    (hw : b ∈ w) : kindOf? Rule.all (c :: w) = none :=
  kindOf?_eq_none_of_stop hc
    (not_admits_symbols (not_mem_symbolChars_of_blank hb) (List.mem_cons_of_mem c hw))
    (List.mem_append_left _ hb) hw

/-- A text with a kind that begins like none of those that may hold blanks is freestanding. -/
theorem freestanding_of_not_opener {w : List Char} {k : Kind} (hc : c ∉ openers)
    (hk : kindOf? Rule.all (c :: w) = some k) : Freestanding (c :: w) k := by
  refine ⟨hk, fun d hd => ?_, fun s => ?_⟩
  · obtain rfl : c = d := by simpa using hd
    exact fun hblank => hc (List.mem_append_left _ hblank)
  · exact kindOf?_eq_none_of_blank hc List.mem_cons_self
      (List.mem_append_right w List.mem_cons_self)

end Starts

/-! ## Names -/

theorem not_admits_words {c : Char} {w : List Char} (hc : isWordChar c = false) (hw : c ∈ w) :
    kindOf? words w = none :=
  kindOf?_eq_none_iff.mpr fun r hr => not_admits_of_avoids (words_avoid hc r hr) hw

/-- What neither an operator nor a reserved word claims has the kind that the patterns give it. -/
theorem kindOf?_all {w : List Char} (hsymbols : kindOf? symbols w = none)
    (hwords : kindOf? words w = none) : kindOf? Rule.all w = kindOf? patterns w := by
  rw [Rule.all, kindOf?_append, kindOf?_append, hsymbols, hwords, Option.none_or, Option.none_or]

/-- The class of the characters with which names begin. -/
def startsName (c : Char) : Bool := c.isAlpha || c == '_'

theorem not_isAlpha_of_isDigit {c : Char} (h : c.isDigit = true) : c.isAlpha = false := by
  change (decide (c.val ≥ 48) && decide (c.val ≤ 57)) = true at h
  change (decide (c.val ≥ 65 ∧ c.val ≤ 90) ||
    (decide (c.val ≥ 97) && decide (c.val ≤ 122))) = false
  simp at *
  grind

theorem not_isDigit_of_startsName {c : Char} (h : startsName c = true) : c.isDigit = false := by
  by_contra hdigit
  rw [Bool.not_eq_false] at hdigit
  rw [startsName, not_isAlpha_of_isDigit hdigit, Bool.false_or, beq_iff_eq] at h
  subst h
  exact absurd hdigit (by decide)

/-- A text that begins with a letter, an underscore or an angle bracket is claimed by no pattern
before those of names. -/
theorem kindOf?_patterns_of_start {c : Char} {w : List Char} (hdigit : c.isDigit = false)
    (hc : c ∉ openers ++ ['+', '-', '@']) :
    kindOf? patterns (c :: w) =
      kindOf? [⟨name, .identifier⟩, ⟨placeholder, .identifier⟩] (c :: w) := by
  rw [List.mem_append, not_or] at hc
  obtain ⟨hopeners, hsigns⟩ := hc
  simp only [openers, List.mem_append, List.mem_cons, List.not_mem_nil, or_false, not_or]
    at hopeners
  obtain ⟨hblank, htick, hdouble, hsingle⟩ := hopeners
  rw [patterns, kindOf?_cons_of_not (not_admits_of_mayStart (mayStart_whitespace hblank)),
    kindOf?_cons_of_not (not_admits_of_mayStart (mayStart_comment htick)),
    kindOf?_cons_of_not (not_admits_of_mayStart (mayStart_quoted hdouble)),
    kindOf?_cons_of_not (not_admits_of_mayStart (mayStart_quoted hsingle)),
    kindOf?_cons_of_not (not_admits_of_mayStart (mayStart_relativeTime hdigit hsigns)),
    kindOf?_cons_of_not (not_admits_of_mayStart (mayStart_number hdigit)),
    kindOf?_cons_of_not (not_admits_of_mayStart (mayStart_macroCall htick))]

/-- A placeholder holds a character of a name. -/
theorem exists_startsName_of_placeholder {w : List Char} (h : Admits placeholder w) :
    ∃ c ∈ w, startsName c = true := by
  rw [placeholder, admits_thenOf_iff, admits_andThen_iff] at h
  obtain ⟨-, u, -, hu, rfl⟩ := h
  rw [admits_thenOf_iff, admits_andThen_iff] at hu
  obtain ⟨v, z, hv, -, rfl⟩ := hu
  rw [Form.some, admits_thenOf_iff, admits_andThen_iff] at hv
  obtain ⟨x, y, hx, -, rfl⟩ := hv
  obtain ⟨c, hc, rfl⟩ := admits_one_iff.mp hx
  exact ⟨c, by simp, hc⟩

/-- How names and placeholders begin, and a character that tells them from operators. -/
theorem IsIdentifier.begins {w : String} (h : IsIdentifier w) :
    ∃ c cs, w.toList = c :: cs ∧ c ∉ openers ++ ['+', '-', '@'] ∧ c.isDigit = false ∧
      ∃ d ∈ c :: cs, startsName d = true := by
  obtain ⟨hw, -⟩ := h
  generalize w.toList = w at hw
  rcases w with _ | ⟨c, w⟩
  · rcases hw with hw | hw <;> exact absurd ((acceptsNow_iff _).mpr hw) (by decide)
  refine ⟨c, w, rfl, ?_⟩
  rcases hw with hname | hplace
  · have hstart : startsName c = true := by
      by_contra hc
      have hfalse := hname.mayStart
      rw [mayStart_name (Bool.eq_false_iff.mpr hc)] at hfalse
      cases hfalse
    exact ⟨not_mem_of_class hstart (by decide), not_isDigit_of_startsName hstart, c,
      List.mem_cons_self, hstart⟩
  · obtain rfl : c = '<' := by
      have hstart : placeholder.mayStart c = true := hplace.mayStart
      simpa [placeholder, Form.text, char, thenOf, mayStart, acceptsNow] using hstart
    exact ⟨by decide, by decide, exists_startsName_of_placeholder hplace⟩

theorem IsIdentifier.freestanding {w : String} (h : IsIdentifier w) :
    Freestanding w.toList .identifier := by
  obtain ⟨c, cs, hcs, hc, hdigit, d, hd, hstart⟩ := h.begins
  obtain ⟨hw, hwords⟩ := h
  rw [hcs] at hw hwords ⊢
  have hwords : kindOf? words (c :: cs) = none := kindOf?_eq_none_iff.mpr hwords
  have hsymbols : kindOf? symbols (c :: cs) = none :=
    not_admits_symbols (not_mem_of_class hstart (by decide)) hd
  refine freestanding_of_not_opener (fun h => hc (List.mem_append_left _ h)) ?_
  rw [kindOf?_all hsymbols hwords, kindOf?_patterns_of_start hdigit hc]
  by_cases hname : Admits name (c :: cs)
  · exact kindOf?_cons hname
  · rw [kindOf?_cons_of_not hname]
    exact kindOf?_cons (hw.resolve_left hname)

/-- A name ends before a comma and before an equals sign. -/
theorem IsIdentifier.ends {w : String} (h : IsIdentifier w) {b : Char} (hb : b ∈ stops)
    (s : List Char) : kindOf? Rule.all (w.toList ++ b :: s) = none := by
  obtain ⟨c, cs, hcs, hc, -, d, hd, hstart⟩ := h.begins
  rw [hcs, List.cons_append]
  refine kindOf?_eq_none_of_stop (fun h => hc (List.mem_append_left _ h)) ?_ hb (by simp)
  refine not_admits_symbols (not_mem_of_class hstart (by decide)) ?_
  rw [← List.cons_append]
  exact List.mem_append_left _ hd

/-! ## Numbers and times -/

theorem isWordChar_of_isDigit {c : Char} (h : c.isDigit = true) : isWordChar c = false := by
  have hne {d : Char} (hd : d.isDigit = false) : (c == d) = false := by
    rw [beq_eq_false_iff_ne]
    rintro rfl
    rw [h] at hd
    cases hd
  rw [isWordChar, not_isAlpha_of_isDigit h, hne (by decide), hne (by decide)]
  rfl

/-- A text that begins with a digit, a sign or an at sign is claimed by no reserved word and by no
pattern before those of times and numbers. -/
theorem kindOf?_of_amount {c : Char} {w : List Char}
    (hc : c.isDigit = true ∨ c ∈ ['+', '-', '@']) (hsymbols : kindOf? symbols (c :: w) = none) :
    c ∉ openers ∧ kindOf? Rule.all (c :: w) = kindOf? (patterns.drop 4) (c :: w) := by
  have hopeners : c ∉ openers := by
    rcases hc with hc | hc
    · exact not_mem_of_class hc (by decide)
    · exact not_mem_of_class (m := ['+', '-', '@'].contains) (List.contains_iff_mem.mpr hc)
        (by decide)
  have hword : isWordChar c = false := by
    rcases hc with hc | hc
    · exact isWordChar_of_isDigit hc
    · simp only [List.mem_cons, List.not_mem_nil, or_false] at hc
      rcases hc with rfl | rfl | rfl <;> decide
  refine ⟨hopeners, ?_⟩
  simp only [openers, List.mem_append, List.mem_cons, List.not_mem_nil, or_false, not_or]
    at hopeners
  obtain ⟨hblank, htick, hdouble, hsingle⟩ := hopeners
  rw [kindOf?_all hsymbols (not_admits_words hword List.mem_cons_self), patterns,
    kindOf?_cons_of_not (not_admits_of_mayStart (mayStart_whitespace hblank)),
    kindOf?_cons_of_not (not_admits_of_mayStart (mayStart_comment htick)),
    kindOf?_cons_of_not (not_admits_of_mayStart (mayStart_quoted hdouble)),
    kindOf?_cons_of_not (not_admits_of_mayStart (mayStart_quoted hsingle))]
  rfl

/-- The letters with which units of time begin. -/
def unitLetters : List Char := "smhdwqy".toList

theorem exists_letter_of_timeUnit {w : List Char} (h : Admits timeUnit w) :
    ∃ c ∈ w, c ∈ unitLetters := by
  have hunits : timeUnits.all (fun t => t.toList.any unitLetters.contains) = true := by decide
  rw [timeUnit, admits_orOf_iff, admits_oneOf_iff] at h
  rcases h with ⟨t, ht, rfl⟩ | h
  · obtain ⟨c, hc, hletter⟩ := List.any_eq_true.mp (List.all_eq_true.mp hunits t ht)
    exact ⟨c, hc, List.contains_iff_mem.mp hletter⟩
  · rw [admits_thenOf_iff, admits_andThen_iff] at h
    obtain ⟨u, v, hu, -, rfl⟩ := h
    rw [admits_char_iff] at hu
    exact ⟨'w', by simp [hu], by decide⟩

theorem exists_letter_of_snap {w : List Char} (h : Admits snap w) : ∃ c ∈ w, c ∈ unitLetters := by
  rw [snap, admits_thenOf_iff, admits_andThen_iff] at h
  obtain ⟨-, u, -, hu, rfl⟩ := h
  rw [admits_thenOf_iff, admits_andThen_iff] at hu
  obtain ⟨v, z, hv, -, rfl⟩ := hu
  obtain ⟨c, hc, hletter⟩ := exists_letter_of_timeUnit hv
  exact ⟨c, by simp [hc], hletter⟩

/-- A time relative to now holds a letter of a unit, which a number does not. -/
theorem exists_letter_of_relativeTime {w : List Char} (h : Admits relativeTime w) :
    ∃ c ∈ w, c ∈ unitLetters := by
  rw [relativeTime, admits_orOf_iff] at h
  rcases h with h | h
  · rw [admits_thenOf_iff, admits_andThen_iff] at h
    obtain ⟨-, t, -, ht, rfl⟩ := h
    rw [admits_thenOf_iff, admits_andThen_iff] at ht
    obtain ⟨-, u, -, hu, rfl⟩ := ht
    rw [admits_thenOf_iff, admits_andThen_iff] at hu
    obtain ⟨v, z, hv, -, rfl⟩ := hu
    obtain ⟨c, hc, hletter⟩ := exists_letter_of_timeUnit hv
    exact ⟨c, by simp [hc], hletter⟩
  · exact exists_letter_of_snap h

theorem IsNumber.freestanding {w : String} (h : IsNumber w) :
    Freestanding w.toList .numberLiteral := by
  unfold IsNumber at h
  generalize w.toList = w at h
  rcases w with _ | ⟨c, w⟩
  · exact absurd ((acceptsNow_iff _).mpr h) (by decide)
  have hdigit : c.isDigit = true := by
    by_contra hc
    have hfalse := h.mayStart
    rw [mayStart_number (Bool.eq_false_iff.mpr hc)] at hfalse
    cases hfalse
  have hsymbols : kindOf? symbols (c :: w) = none :=
    not_admits_symbols (not_mem_of_class hdigit (by decide)) List.mem_cons_self
  have havoids : unitLetters.all number.avoids = true := by decide
  have htime : ¬Admits relativeTime (c :: w) := by
    intro ht
    obtain ⟨d, hd, hletter⟩ := exists_letter_of_relativeTime ht
    exact not_admits_of_avoids (List.all_eq_true.mp havoids d hletter) hd h
  obtain ⟨hopeners, hkind⟩ := kindOf?_of_amount (.inl hdigit) hsymbols
  refine freestanding_of_not_opener hopeners ?_
  rw [hkind]
  exact (kindOf?_cons_of_not htime).trans (kindOf?_cons h)

theorem freestanding_relativeTime {w : List Char} (h : Admits relativeTime w) :
    Freestanding w .timeModifier := by
  rcases w with _ | ⟨c, w⟩
  · exact absurd ((acceptsNow_iff _).mpr h) (by decide)
  have hstart : c.isDigit = true ∨ c ∈ ['+', '-', '@'] := by
    by_contra hc
    rw [not_or, Bool.not_eq_true] at hc
    have hfalse := h.mayStart
    rw [mayStart_relativeTime hc.1 hc.2] at hfalse
    cases hfalse
  have hletters : symbolChars.all (!unitLetters.contains ·) = true := by decide
  obtain ⟨d, hd, hletter⟩ := exists_letter_of_relativeTime h
  have hsymbol : d ∉ symbolChars :=
    not_mem_of_class (m := unitLetters.contains) (List.contains_iff_mem.mpr hletter) hletters
  obtain ⟨hopeners, hkind⟩ := kindOf?_of_amount hstart (not_admits_symbols hsymbol hd)
  refine freestanding_of_not_opener hopeners ?_
  rw [hkind]
  exact kindOf?_cons h

/-! ## Reserved words -/

theorem admits_word_self {t : String} (ht : t.toList.all Char.isLower = true) :
    Admits (word t) t.toList := by
  rw [admits_word_iff, List.forall₂_same]
  intro c hc
  have hlower : c.isLower = true := List.all_eq_true.mp ht c hc
  have hc : c.toLower = c := by
    change (decide (c.val ≥ 97) && decide (c.val ≤ 122)) = true at hlower
    delta Char.toLower
    simp at *
    grind
  simp [variantOf, hc]

/-- The case of the letters of a word does not matter. -/
theorem kindOf?_words {t : String} {w : List Char} (ht : t.toList.all Char.isLower = true)
    (h : Admits (word t) w) : kindOf? words w = kindOf? words t.toList := by
  have hsame : ∀ r ∈ words, r.form.accepts w = r.form.accepts t.toList := by
    intro r hr
    obtain ⟨u, hform, hu⟩ := words_form r hr
    rw [hform, Bool.eq_iff_iff, accepts_iff, accepts_iff]
    constructor
    · intro hw
      rw [word_unique hu ht hw h]
      exact admits_word_self ht
    · intro hself
      rwa [word_unique hu ht hself (admits_word_self ht)]
  unfold kindOf?
  congr 1
  exact List.find?_congr hsame

/-- A word in any case is freestanding, of the kind that it has in lower case. -/
theorem freestanding_word {t : String} {w : List Char} {k : Kind}
    (ht : t.toList.all Char.isLower = true) (hk : kindOf? words t.toList = some k)
    (h : Admits (word t) w) : Freestanding w k := by
  rw [← kindOf?_words ht h] at hk
  rcases w with _ | ⟨c, w⟩
  · have hnil : kindOf? words [] = none := by decide
    rw [hnil] at hk
    cases hk
  have hchar : isWordChar c = true := by
    rw [admits_word_iff] at h
    obtain ⟨letter, letters, hletter, -, hlist⟩ := List.forall₂_cons_right_iff.mp h
    rw [hlist, List.all_cons, Bool.and_eq_true] at ht
    exact isWordChar_of_variantOf ht.1 hletter
  have hsymbols : kindOf? symbols (c :: w) = none :=
    not_admits_symbols (not_mem_of_class hchar (by decide)) List.mem_cons_self
  refine freestanding_of_not_opener (not_mem_of_class hchar (by decide)) ?_
  rw [Rule.all, kindOf?_append, kindOf?_append, hsymbols, hk]
  rfl

theorem IsTime.freestanding {w : String} (h : IsTime w) :
    Freestanding w.toList .timeModifier := by
  rcases h with h | h
  · exact freestanding_relativeTime h
  · exact freestanding_word (by decide) (by decide) h

/-! ## Quoted values -/

/-- A value between double quotes is one lexeme, whatever it holds. -/
theorem freestanding_quote (cs : List Char) : Freestanding (Text.quote '"' cs) .stringLiteral := by
  have hquoted : Admits (quoted '"') (Text.quote '"' cs) := admits_quoted_quote (by decide) cs
  have hbefore : ∀ r ∈ symbols ++ words ++ patterns.take 2, r.form.mayStart '"' = false := by
    decide +kernel
  have hafter : ∀ r ∈ patterns.drop 3, r.form.mayStart '"' = false := by decide
  have hkind (s : List Char) : kindOf? Rule.all (Text.quote '"' cs ++ s) =
      kindOf? [⟨quoted '"', .stringLiteral⟩] (Text.quote '"' cs ++ s) := by
    have hfirst : kindOf? (symbols ++ words ++ patterns.take 2) (Text.quote '"' cs ++ s) = none :=
      kindOf?_eq_none_iff.mpr fun r hr => not_admits_of_mayStart (hbefore r hr)
    have hlast : kindOf? (patterns.drop 3) (Text.quote '"' cs ++ s) = none :=
      kindOf?_eq_none_iff.mpr fun r hr => not_admits_of_mayStart (hafter r hr)
    have hall : Rule.all = (symbols ++ words ++ patterns.take 2) ++
        ([⟨quoted '"', .stringLiteral⟩] ++ patterns.drop 3) := by
      rw [Rule.all, List.append_assoc (symbols ++ words)]
      rfl
    rw [hall, kindOf?_append, hfirst, Option.none_or, kindOf?_append, hlast, Option.or_none]
  refine ⟨?_, ?_, fun s => ?_⟩
  · have h := hkind []
    rw [List.append_nil] at h
    exact h.trans (kindOf?_cons hquoted)
  · intro c hc
    obtain rfl : '"' = c := by simpa [Text.quote] using hc
    decide
  · rw [hkind, kindOf?_eq_none_iff]
    intro r hr
    rw [List.mem_singleton] at hr
    subst hr
    intro h
    cases quoted_unique (by decide) hquoted h

/-! ## Fixed texts -/

/-- The kind of an operator, a delimiter or a reserved word, by its characters. -/
theorem freestanding_fixed {w : List Char} {k : Kind} (hk : kindOf? Rule.all w = some k)
    (hw : w.head?.all fun c => !openers.contains c) : Freestanding w k := by
  rcases w with _ | ⟨c, w⟩
  · rw [kindOf?_nil] at hk
    cases hk
  · exact freestanding_of_not_opener (by simpa using hw) hk

/-! ## Lexemes -/

/-- A lexeme that is found again between blanks. -/
def Found (t : Kind × String) : Prop := Freestanding t.2.toList t.1 ∧ t.1.isTrivia = false

theorem found_lparen : Found (.lparen, "(") :=
  ⟨freestanding_fixed (by decide) (by decide), rfl⟩

theorem found_rparen : Found (.rparen, ")") :=
  ⟨freestanding_fixed (by decide) (by decide), rfl⟩

theorem found_comma : Found (.comma, ",") :=
  ⟨freestanding_fixed (by decide) (by decide), rfl⟩

end SplQuery

import Mathlib.Data.List.Forall2
import SplQuery.Proofs.Lexeme.Longest
import SplQuery.Text.Quoted

/-!
# What texts of a form look like

A text is told from those of a rule by its first character, or by a character that no text of the
rule holds. Both can be read off a form.

* `Form.Admits.mayStart`, `Form.Admits.not_mem` — what the form says of its texts.
* `Rule.symbols_avoid`, `Rule.words_avoid` — the characters of operators and of reserved words.
* `Rule.word_unique` — no text is a spelling of two words.
* `Rule.quoted_unique` — a text between quotes ends at the first quote that can end it.
-/

namespace SplQuery

namespace Form

/-! ## Characters of a form -/

/-- Whether no text of the form holds a character. -/
def avoids (c : Char) : Form → Bool
  | .never | .done => true
  | .one member => !member c
  | .andThen f g | .either f g => f.avoids c && g.avoids c
  | .many f => f.avoids c

/-- Whether a text of the form may begin with a character. -/
def mayStart (c : Char) : Form → Bool
  | .never | .done => false
  | .one member => member c
  | .andThen f g => f.mayStart c || (f.acceptsNow && g.mayStart c)
  | .either f g => f.mayStart c || g.mayStart c
  | .many f => f.mayStart c

variable {f g : Form} {c : Char} {s : List Char}

theorem Admits.not_mem (h : Admits f s) (hf : f.avoids c = true) : c ∉ s := by
  induction h with
  | done => exact List.not_mem_nil
  | @one member d hd =>
    rw [List.mem_singleton]
    rintro rfl
    simp [avoids, hd] at hf
  | andThen _ _ ihs iht =>
    simp only [avoids, Bool.and_eq_true] at hf
    rw [List.mem_append, not_or]
    exact ⟨ihs hf.1, iht hf.2⟩
  | left _ ih =>
    simp only [avoids, Bool.and_eq_true] at hf
    exact ih hf.1
  | right _ ih =>
    simp only [avoids, Bool.and_eq_true] at hf
    exact ih hf.2
  | stop => exact List.not_mem_nil
  | more _ _ ihs iht =>
    rw [List.mem_append, not_or]
    exact ⟨ihs hf, iht hf⟩

theorem Admits.mayStart (h : Admits f (c :: s)) : f.mayStart c = true := by
  generalize hw : c :: s = w at h
  induction h generalizing c s with
  | done | stop => cases hw
  | one hd =>
    obtain rfl := (List.cons.inj hw).1
    exact hd
  | @andThen f g t u hf _ ihs iht =>
    cases t with
    | nil => simp [Form.mayStart, (acceptsNow_iff f).mpr hf, iht hw]
    | cons d t =>
      obtain rfl := (List.cons.inj hw).1
      simp [Form.mayStart, ihs rfl]
  | left _ ih => simp [Form.mayStart, ih hw]
  | right _ ih => simp [Form.mayStart, ih hw]
  | @more f t u _ _ ihs iht =>
    cases t with
    | nil => exact iht hw
    | cons d t =>
      obtain rfl := (List.cons.inj hw).1
      exact ihs rfl

theorem not_admits_of_mayStart (h : f.mayStart c = false) : ¬Admits f (c :: s) := by
  intro hs
  rw [hs.mayStart] at h
  cases h

theorem not_admits_of_avoids (h : f.avoids c = true) (hs : c ∈ s) : ¬Admits f s :=
  fun ha => ha.not_mem h hs

theorem avoids_thenOf (hf : f.avoids c = true) (hg : g.avoids c = true) :
    (thenOf f g).avoids c = true := by
  unfold thenOf
  split
  · rfl
  · exact hg
  · rw [avoids, hf, hg, Bool.and_self]

theorem admits_char_iff : Admits (char c) s ↔ s = [c] := by
  rw [char, admits_one_iff]
  constructor
  · rintro ⟨d, hd, rfl⟩
    rw [eq_of_beq hd]
  · rintro rfl
    exact ⟨c, beq_self_eq_true c, rfl⟩

theorem admits_text_iff {t : String} : Admits (text t) s ↔ s = t.toList := by
  unfold text
  generalize t.toList = ds
  induction ds generalizing s with
  | nil => exact admits_done_iff
  | cons d ds ih =>
    rw [List.foldr_cons, admits_thenOf_iff, admits_andThen_iff]
    simp only [admits_char_iff, ih]
    constructor
    · rintro ⟨_, _, rfl, rfl, rfl⟩
      rfl
    · rintro rfl
      exact ⟨[d], ds, rfl, rfl, rfl⟩

theorem admits_oneOf_iff {texts : List String} :
    Admits (oneOf texts) s ↔ ∃ t ∈ texts, s = t.toList := by
  unfold oneOf
  induction texts with
  | nil => simp [not_admits_never]
  | cons t texts ih => simp [admits_orOf_iff, admits_text_iff, ih]

/-- A text avoids what is none of its characters. -/
theorem avoids_text {t : String} (h : c ∉ t.toList) : (text t).avoids c = true := by
  unfold text
  generalize t.toList = ds at h
  induction ds with
  | nil => rfl
  | cons d ds ih =>
    rw [List.mem_cons, not_or] at h
    have hd : (char d).avoids c = true := by simpa [char, avoids] using h.1
    exact avoids_thenOf hd (ih h.2)

end Form

namespace Rule

open Form

/-! ## Operators and reserved words -/

/-- The characters of operators and delimiters. -/
def symbolChars : List Char := "!=<>+-*/%.|,()[]".toList

theorem symbols_form : ∀ r ∈ symbols, ∃ t : String, r.form = text t ∧ t.toList ⊆ symbolChars := by
  intro r hr
  simp only [symbols, List.mem_cons, List.not_mem_nil, or_false] at hr
  rcases hr with rfl | rfl | rfl | rfl | rfl | rfl | rfl | rfl | rfl | rfl | rfl | rfl | rfl | rfl |
    rfl | rfl | rfl | rfl | rfl <;> exact ⟨_, rfl, by decide⟩

theorem symbols_avoid {c : Char} (hc : c ∉ symbolChars) :
    ∀ r ∈ symbols, r.form.avoids c = true := by
  intro r hr
  obtain ⟨t, hform, ht⟩ := symbols_form r hr
  rw [hform]
  exact avoids_text fun h => hc (ht h)

/-- A rule for a word in lower case. -/
def IsWordRule (r : Rule) : Prop :=
  ∃ t : String, r.form = word t ∧ t.toList.all Char.isLower = true

theorem words_form : ∀ r ∈ words, IsWordRule r := by
  have hcommands : ∀ w ∈ CommandWord.all, ∀ t ∈ w.spellings, t.toList.all Char.isLower = true := by
    decide
  have hclauses : ∀ w ∈ ClauseWord.all, w.spelling.toList.all Char.isLower = true := by
    decide
  intro r hr
  simp only [words, List.mem_append, List.mem_flatMap, List.mem_map, List.mem_cons,
    List.not_mem_nil, or_false] at hr
  rcases hr with (⟨w, hw, t, ht, rfl⟩ | ⟨w, hw, rfl⟩) | rfl | rfl | rfl
  · exact ⟨t, rfl, hcommands w hw t ht⟩
  · exact ⟨w.spelling, rfl, hclauses w hw⟩
  · exact ⟨"now", rfl, by decide⟩
  · exact ⟨"true", rfl, by decide⟩
  · exact ⟨"false", rfl, by decide⟩

/-- What a letter of a reserved word may be written as: a letter, or one of the two characters
outside ASCII that have one as their lower case. -/
def isWordChar (c : Char) : Bool := c.isAlpha || c == '\u212a' || c == '\u017f'

/-- Whether a character is a variant of a lower-case letter. -/
def variantOf (letter c : Char) : Bool :=
  c.toLower == letter || (letter == 'k' && c == '\u212a') || (letter == 's' && c == '\u017f')

theorem isAlpha_of_toLower {c letter : Char} (h : c.toLower = letter)
    (hletter : letter.isLower = true) : c.isAlpha = true := by
  change (c.isUpper || c.isLower) = true
  delta Char.toLower at h
  split at h
  · next hupper =>
    have hc : c.isUpper = true := decide_eq_true hupper
    rw [hc, Bool.true_or]
  · rw [h, hletter, Bool.or_true]

theorem isWordChar_of_variantOf {c letter : Char} (hletter : letter.isLower = true)
    (h : variantOf letter c = true) : isWordChar c = true := by
  simp only [variantOf, Bool.or_eq_true, Bool.and_eq_true, beq_iff_eq] at h
  rcases h with (h | ⟨-, h⟩) | ⟨-, h⟩
  · simp [isWordChar, isAlpha_of_toLower h hletter]
  · simp [isWordChar, h]
  · simp [isWordChar, h]

theorem anyCase_avoids {c letter : Char} (hletter : letter.isLower = true)
    (hc : isWordChar c = false) : (anyCase letter).avoids c = true := by
  change (!variantOf letter c) = true
  rw [Bool.not_eq_true', Bool.eq_false_iff]
  intro h
  rw [isWordChar_of_variantOf hletter h] at hc
  cases hc

theorem words_avoid {c : Char} (hc : isWordChar c = false) :
    ∀ r ∈ words, r.form.avoids c = true := by
  intro r hr
  obtain ⟨t, hform, ht⟩ := words_form r hr
  rw [hform, word]
  generalize t.toList = letters at ht
  induction letters with
  | nil => rfl
  | cons letter letters ih =>
    rw [List.all_cons, Bool.and_eq_true] at ht
    exact avoids_thenOf (anyCase_avoids ht.1 hc) (ih ht.2)

/-- A text of a word is one variant after another. -/
theorem admits_word_iff {t : String} {s : List Char} :
    Admits (word t) s ↔ List.Forall₂ (fun letter c => variantOf letter c = true) t.toList s := by
  unfold word
  induction t.toList generalizing s with
  | nil => simp [admits_done_iff, List.forall₂_nil_left_iff]
  | cons letter letters ih =>
    rw [List.foldr_cons, admits_thenOf_iff, admits_andThen_iff, List.forall₂_cons_left_iff]
    constructor
    · rintro ⟨t, u, ht, hu, rfl⟩
      obtain ⟨c, hc, rfl⟩ := admits_one_iff.mp ht
      exact ⟨c, u, hc, ih.mp hu, rfl⟩
    · rintro ⟨c, u, hc, hu, rfl⟩
      exact ⟨[c], u, .one hc, ih.mpr hu, rfl⟩

/-- A character is a variant of one letter at most. -/
theorem variantOf_unique {a b c : Char} (ha : a.isLower = true) (hb : b.isLower = true)
    (hac : variantOf a c = true) (hbc : variantOf b c = true) : a = b := by
  have hlower : ∀ l : Char, l.isLower = true → l ≠ '\u212a' ∧ l ≠ '\u017f' := by
    intro l hl
    constructor <;> rintro rfl <;> exact absurd hl (by decide)
  simp only [variantOf, Bool.or_eq_true, Bool.and_eq_true, beq_iff_eq] at hac hbc
  have hk : '\u212a'.toLower = '\u212a' := by decide
  have hs : '\u017f'.toLower = '\u017f' := by decide
  rcases hac with (h | ⟨h, rfl⟩) | ⟨h, rfl⟩ <;> rcases hbc with (h' | ⟨h', hc⟩) | ⟨h', hc⟩
  · exact h.symm.trans h'
  · subst hc
    exact absurd (h.symm.trans hk) (hlower a ha).1
  · subst hc
    exact absurd (h.symm.trans hs) (hlower a ha).2
  · exact absurd (h'.symm.trans hk) (hlower b hb).1
  · exact h.trans h'.symm
  · exact absurd hc (by decide)
  · exact absurd (h'.symm.trans hs) (hlower b hb).2
  · exact absurd hc (by decide)
  · exact h.trans h'.symm

/-- No text is a spelling of two words. -/
theorem word_unique {t u : String} {s : List Char} (ht : t.toList.all Char.isLower = true)
    (hu : u.toList.all Char.isLower = true) (hts : Admits (word t) s) (hus : Admits (word u) s) :
    t = u := by
  rw [admits_word_iff] at hts hus
  rw [← String.toList_inj]
  generalize t.toList = ts at ht hts
  generalize u.toList = us at hu hus
  induction hts generalizing us with
  | nil => exact (List.forall₂_nil_right_iff.mp hus).symm
  | cons hac _ ih =>
    obtain ⟨b, us', hbc, hus', rfl⟩ := List.forall₂_cons_right_iff.mp hus
    rw [List.all_cons, Bool.and_eq_true] at ht hu
    rw [variantOf_unique ht.1 hu.1 hac hbc, ih ht.2 us' hu.2 hus']

/-! ## Quoted texts -/

theorem admits_quoted_iff {q : Char} {s : List Char} :
    Admits (quoted q) s ↔ ∃ body, Admits (.many (quotedStep q)) body ∧ s = q :: (body ++ [q]) := by
  unfold quoted
  simp only [admits_thenOf_iff, admits_andThen_iff, admits_char_iff]
  constructor
  · rintro ⟨_, _, rfl, ⟨body, _, hbody, rfl, rfl⟩, rfl⟩
    exact ⟨body, hbody, rfl⟩
  · rintro ⟨body, hbody, rfl⟩
    exact ⟨[q], _, rfl, ⟨body, [q], hbody, rfl, rfl⟩, rfl⟩

/-- What follows the characters that a quote cannot end at. -/
def fromQuote (q : Char) : List Char → List Char
  | [] => []
  | '\\' :: _ :: cs => fromQuote q cs
  | c :: cs => if c = q then c :: cs else fromQuote q cs

/-- One repetition of what may stand between quotes. -/
theorem admits_quotedStep_iff {q : Char} {s : List Char} :
    Admits (quotedStep q) s ↔
      (∃ c, c ≠ q ∧ c ≠ '\\' ∧ s = [c]) ∨ ∃ c, c ≠ '\n' ∧ s = ['\\', c] := by
  have hexcept (cs : List Char) (s : List Char) :
      Admits (except cs) s ↔ ∃ c, c ∉ cs ∧ s = [c] := by
    rw [except, admits_one_iff]
    simp
  simp only [quotedStep, admits_orOf_iff, admits_thenOf_iff, admits_andThen_iff, hexcept,
    admits_char_iff, List.mem_cons, List.not_mem_nil, or_false, not_or]
  constructor
  · rintro (⟨c, ⟨hq, hb⟩, rfl⟩ | ⟨_, _, rfl, ⟨c, hc, rfl⟩, rfl⟩)
    · exact .inl ⟨c, hq, hb, rfl⟩
    · exact .inr ⟨c, hc, rfl⟩
  · rintro (⟨c, hq, hb, rfl⟩ | ⟨c, hc, rfl⟩)
    · exact .inl ⟨c, ⟨hq, hb⟩, rfl⟩
    · exact .inr ⟨['\\'], [c], rfl, ⟨c, hc, rfl⟩, rfl⟩

theorem fromQuote_append {q : Char} (hq : q ≠ '\\') {body : List Char}
    (h : Admits (.many (quotedStep q)) body) (s : List Char) :
    fromQuote q (body ++ q :: s) = q :: s := by
  generalize hf : Form.many _ = f at h
  induction h with
  | done | one | andThen | left | right => cases hf
  | stop =>
    rw [List.nil_append, fromQuote, if_pos rfl]
    intro _ _ hc
    exact absurd hc hq
  | @more f t u ht _ _ ih =>
    obtain rfl := Form.many.inj hf
    rw [List.append_assoc]
    obtain ⟨c, hcq, hcb, rfl⟩ | ⟨c, -, rfl⟩ := admits_quotedStep_iff.mp ht
    · rw [List.singleton_append, fromQuote, if_neg hcq]
      · exact ih rfl
      · intro _ _ hc
        exact absurd hc hcb
    · exact ih rfl

/-- A text between quotes ends at the first quote that can end it. -/
theorem quoted_unique {q : Char} (hq : q ≠ '\\') {w s : List Char} (hw : Admits (quoted q) w)
    (hs : Admits (quoted q) (w ++ s)) : s = [] := by
  obtain ⟨body, hbody, rfl⟩ := admits_quoted_iff.mp hw
  obtain ⟨body', hbody', h⟩ := admits_quoted_iff.mp hs
  have htail : body ++ q :: s = body' ++ [q] := by simpa using h
  have hfrom := congrArg (fromQuote q) htail
  rw [fromQuote_append hq hbody, fromQuote_append hq hbody'] at hfrom
  exact (List.cons.inj hfrom).2

/-- A value that is put between quotes makes a text of that form. -/
theorem admits_quoted_quote {q : Char} (hq : q ≠ '\n') (cs : List Char) :
    Admits (quoted q) (Text.quote q cs) := by
  refine admits_quoted_iff.mpr ⟨Text.escape q cs, ?_, rfl⟩
  induction cs with
  | nil => exact .stop
  | cons c cs ih =>
    by_cases h : c = q ∨ c = '\\'
    · have hc : c ≠ '\n' := by
        rcases h with rfl | rfl
        · exact hq
        · decide
      rw [Text.escape, if_pos h]
      exact Admits.more (s := ['\\', c]) (admits_quotedStep_iff.mpr (.inr ⟨c, hc, rfl⟩)) ih
    · rw [not_or] at h
      rw [Text.escape, if_neg (not_or.mpr h)]
      exact Admits.more (s := [c]) (admits_quotedStep_iff.mpr (.inl ⟨c, h.1, h.2, rfl⟩)) ih

end Rule

end SplQuery

import SplQuery.Proofs.Lexeme.Stray
import SplQuery.Proofs.Lexeme.Wildcards

/-!
# Every lexeme is the longest one

What the scan takes for a lexeme is the longest beginning of what is left of the text that any rule
describes, and its kind is that of every rule that describes it; only a word with a meaning of its
own is also a name. What follows a lexeme is known from this: after a reserved word in ASCII letters
the name would have gone on, and after an amount of time so would the time.

* `Rule.kindOf?_of_admits` — the kind of a text from any rule that describes it.
* `Rule.admits_name_of_word`, `Rule.admits_relativeTime` — what goes on to be a name or a time.
* `IsMaximal` — no longer beginning of a text has a kind.
* `Scan.left_of_mem_lexemes` — what is left of a text at a lexeme.
* `Scan.lexemes_maximal` — what a lexeme is, and what may come after it.
-/

namespace SplQuery

open Form Rule

/-! ## Rules that describe the same text -/

namespace Rule

/-- An operator has the kind of its rule. -/
theorem kindOf?_symbol {r : Rule} {w : List Char} (hr : r ∈ symbols) (h : Admits r.form w) :
    kindOf? Rule.all w = some r.kind := by
  have hkind : ∀ r ∈ symbols, ∃ t : String, r.form = text t ∧
      kindOf? Rule.all t.toList = some r.kind := by
    intro r hr
    simp only [symbols, List.mem_cons, List.not_mem_nil, or_false] at hr
    rcases hr with rfl | rfl | rfl | rfl | rfl | rfl | rfl | rfl | rfl | rfl | rfl | rfl | rfl |
      rfl | rfl | rfl | rfl | rfl | rfl <;> exact ⟨_, rfl, by decide⟩
  obtain ⟨t, hform, hkind⟩ := hkind r hr
  rw [hform, admits_text_iff] at h
  rw [h, hkind]

/-- No spelling of a reserved word belongs to two rules of different kinds. -/
theorem words_kind : ∀ r ∈ words, ∃ t : String, r.form = word t ∧
    t.toList.all Char.isLower = true ∧ kindOf? words t.toList = some r.kind := by
  have hcommands : ∀ w ∈ CommandWord.all, ∀ t ∈ w.spellings, t.toList.all Char.isLower = true ∧
      kindOf? words t.toList = some (.command w) := by
    decide +kernel
  have hclauses : ∀ w ∈ ClauseWord.all, w.spelling.toList.all Char.isLower = true ∧
      kindOf? words w.spelling.toList = some (.clause w) := by
    decide +kernel
  intro r hr
  simp only [words, List.mem_append, List.mem_flatMap, List.mem_map, List.mem_cons,
    List.not_mem_nil, or_false] at hr
  rcases hr with (⟨w, hw, t, ht, rfl⟩ | ⟨w, hw, rfl⟩) | rfl | rfl | rfl
  · exact ⟨t, rfl, hcommands w hw t ht⟩
  · exact ⟨w.spelling, rfl, hclauses w hw⟩
  · exact ⟨"now", rfl, by decide +kernel⟩
  · exact ⟨"true", rfl, by decide +kernel⟩
  · exact ⟨"false", rfl, by decide +kernel⟩

/-- A reserved word has the kind of its rule, although it may be a name as well. -/
theorem kindOf?_word {r : Rule} {w : List Char} (hr : r ∈ words) (h : Admits r.form w) :
    kindOf? Rule.all w = some r.kind := by
  obtain ⟨t, hform, hlower, hkind⟩ := words_kind r hr
  rw [hform] at h
  exact (freestanding_word hlower hkind h).kind

/-- A text has the kind of a rule that describes it if no other kind belongs to a rule whose texts
may begin like it. -/
theorem kindOf?_of_start {r : Rule} {rules : List Rule} {c : Char} {w : List Char}
    (hrules : Rule.all.filter (·.form.mayStart c) = rules) (hr : r ∈ rules)
    (h : Admits r.form (c :: w)) (honly : ∀ q ∈ rules, Admits q.form (c :: w) → q.kind = r.kind) :
    kindOf? Rule.all (c :: w) = some r.kind := by
  subst hrules
  cases hkind : kindOf? Rule.all (c :: w) with
  | none => exact absurd h (kindOf?_eq_none_iff.mp hkind r (List.mem_of_mem_filter hr))
  | some k =>
    obtain ⟨q, hq, rfl, hadmits⟩ := exists_rule_of_kindOf? (c := c) rfl hkind
    rw [honly q hq hadmits]

/-- What is put between backticks is a comment or the call of a macro, and never both. -/
theorem kindOf?_backtick {w : List Char} :
    (Admits comment w → kindOf? Rule.all w = some .comment) ∧
      (Admits macroCall w → kindOf? Rule.all w = some .macroCall) := by
  have hnotboth (hcomment : Admits comment w) (hcall : Admits macroCall w) : False := by
    obtain ⟨body, -, rfl⟩ := admits_comment_iff.mp hcomment
    have hnot := not_row_of_macroCall hcall []
    rw [List.append_nil] at hnot
    exact hnot (List.prefix_append row _)
  refine ⟨fun h => ?_, fun h => ?_⟩
  · obtain ⟨v, rfl⟩ : ∃ v, w = '\x60' :: v := by
      obtain ⟨body, -, rfl⟩ := admits_comment_iff.mp h
      exact ⟨_, rfl⟩
    refine kindOf?_of_start (r := ⟨comment, .comment⟩) rules_of_backtick List.mem_cons_self h ?_
    rintro q hq hadmits
    simp only [List.mem_cons, List.not_mem_nil, or_false] at hq
    rcases hq with rfl | rfl
    · rfl
    · exact (hnotboth h hadmits).elim
  · obtain ⟨v, rfl⟩ : ∃ v, w = '\x60' :: v := by
      obtain ⟨body, -, -, rfl⟩ := admits_macroCall_iff.mp h
      exact ⟨_, rfl⟩
    refine kindOf?_of_start (r := ⟨macroCall, .macroCall⟩) rules_of_backtick
      (List.mem_cons_of_mem _ List.mem_cons_self) h ?_
    rintro q hq hadmits
    simp only [List.mem_cons, List.not_mem_nil, or_false] at hq
    rcases hq with rfl | rfl
    · exact (hnotboth hadmits h).elim
    · rfl

/-- A text between quotes is a string literal. -/
theorem kindOf?_quoted {q : Char} {w : List Char} (hq : q = '"' ∨ q = '\'')
    (h : Admits (quoted q) w) : kindOf? Rule.all w = some .stringLiteral := by
  obtain ⟨body, -, rfl⟩ := admits_quoted_iff.mp h
  have honly : ∀ r ∈ [(⟨quoted q, .stringLiteral⟩ : Rule)], Admits r.form (q :: (body ++ [q])) →
      r.kind = .stringLiteral := fun r hr _ => by rw [List.mem_singleton.mp hr]
  rcases hq with rfl | rfl
  · exact kindOf?_of_start rules_of_doubleQuote (List.mem_singleton_self _) h honly
  · exact kindOf?_of_start rules_of_singleQuote (List.mem_singleton_self _) h honly

/-- A name or a placeholder has its kind unless a reserved word is spelled like it. -/
theorem kindOf?_identifier {w : List Char} (h : Admits name w ∨ Admits placeholder w) :
    kindOf? Rule.all w = some .identifier ∨ ∃ r ∈ words, Admits r.form w := by
  by_cases hwords : ∃ r ∈ words, Admits r.form w
  · exact .inr hwords
  · have hidentifier : IsIdentifier (String.ofList w) := by
      rw [IsIdentifier, String.toList_ofList]
      exact ⟨h, fun r hr hadmits => hwords ⟨r, hr, hadmits⟩⟩
    have hkind := hidentifier.freestanding.kind
    rw [String.toList_ofList] at hkind
    exact .inl hkind

/-- A text has the kind of every rule that describes it, but for the names that are reserved. -/
theorem kindOf?_of_admits {r : Rule} {w : List Char} (hr : r ∈ Rule.all) (h : Admits r.form w) :
    kindOf? Rule.all w = some r.kind ∨ r.kind = .identifier ∧ ∃ q ∈ words, Admits q.form w := by
  rw [Rule.all, List.mem_append, List.mem_append] at hr
  obtain (hr | hr) | hr := hr
  · exact .inl (kindOf?_symbol hr h)
  · exact .inl (kindOf?_word hr h)
  · simp only [patterns, List.mem_cons, List.not_mem_nil, or_false] at hr
    rcases hr with rfl | rfl | rfl | rfl | rfl | rfl | rfl | rfl | rfl
    · obtain ⟨hne, hblanks⟩ := admits_whitespace_iff.mp h
      exact .inl (kindOf?_white hne hblanks)
    · exact .inl (kindOf?_backtick.1 h)
    · exact .inl (kindOf?_quoted (.inl rfl) h)
    · exact .inl (kindOf?_quoted (.inr rfl) h)
    · exact .inl (freestanding_relativeTime h).kind
    · have hnumber : IsNumber (String.ofList w) := by rwa [IsNumber, String.toList_ofList]
      have hkind := hnumber.freestanding.kind
      rw [String.toList_ofList] at hkind
      exact .inl hkind
    · exact .inl (kindOf?_backtick.2 h)
    · exact (kindOf?_identifier (.inl h)).imp_right fun hwords => ⟨rfl, hwords⟩
    · exact (kindOf?_identifier (.inr h)).imp_right fun hwords => ⟨rfl, hwords⟩

/-! ## What goes on -/

/-- What is read as a keyword is spelled like a reserved word. -/
theorem exists_word_of_isKeyword {w : List Char} {k : Kind} (h : kindOf? Rule.all w = some k)
    (hk : k.isKeyword = true) : ∃ q ∈ words, Admits q.form w := by
  have hothers : ∀ r ∈ symbols ++ patterns, r.kind.isKeyword = false := by decide
  obtain ⟨r, hr, hadmits⟩ := exists_of_kindOf? h
  obtain ⟨hr, hrkind⟩ := List.mem_filter.mp hr
  refine ⟨r, ?_, hadmits⟩
  by_contra hnot
  have hother : r ∈ symbols ++ patterns := by
    simp only [Rule.all, List.mem_append] at hr ⊢
    tauto
  have hfalse := hothers r hother
  rw [eq_of_beq hrkind, hk] at hfalse
  cases hfalse

/-- A spelling in ASCII letters of a reserved word, and a character that a name may go on with, are
a name. -/
theorem admits_name_of_word {r : Rule} {w : List Char} {c : Char} (hr : r ∈ words)
    (h : Admits r.form w) (hne : w ≠ []) (hkelvin : '\u212a' ∉ w) (hlong : '\u017f' ∉ w)
    (hc : (c.isAlphanum || c == '_' || c == '.') = true) : Admits name (w ++ [c]) := by
  have halpha : ∀ d ∈ w, d.isAlpha = true := by
    intro d hd
    by_contra halpha
    have hword : isWordChar d = false := by
      simp only [isWordChar, Bool.or_eq_false_iff, beq_eq_false_iff_ne]
      exact ⟨⟨Bool.eq_false_iff.mpr halpha, ne_of_mem_of_not_mem hd hkelvin⟩,
        ne_of_mem_of_not_mem hd hlong⟩
    exact h.not_mem (words_avoid hword r hr) hd
  obtain ⟨d, w, rfl⟩ := List.exists_cons_of_ne_nil hne
  obtain ⟨hd, hw⟩ := List.forall_mem_cons.mp halpha
  rw [name, admits_thenOf_iff, admits_andThen_iff]
  refine ⟨[d], w ++ [c], .one (by rw [hd]; rfl), admits_many_one_iff.mpr fun e he => ?_, rfl⟩
  rcases List.mem_append.mp he with he | he
  · simp [Char.isAlphanum, hw e he]
  · rw [List.mem_singleton.mp he]
    exact hc

/-- A number of units, with a sign in front or without one. -/
def amount : Form :=
  thenOf (optional (orOf (char '+') (char '-'))) (thenOf (Form.some digit) timeUnit)

/-- An amount of time, and a unit to which it is rounded down, are a time. -/
theorem admits_relativeTime {u v : List Char} (hu : Admits amount u) (hv : Admits snap v) :
    Admits relativeTime (u ++ v) := by
  rw [amount, admits_thenOf_iff, admits_andThen_iff] at hu
  obtain ⟨sign, _, hsign, h, rfl⟩ := hu
  rw [admits_thenOf_iff, admits_andThen_iff] at h
  obtain ⟨digits, unit, hdigits, hunit, rfl⟩ := h
  have hsnap : Admits (optional snap) v := by
    rw [Form.optional, admits_orOf_iff]
    exact .inl hv
  rw [relativeTime, admits_orOf_iff]
  left
  simp only [admits_thenOf_iff, admits_andThen_iff]
  exact ⟨sign, _, hsign, ⟨digits, _, hdigits, ⟨unit, v, hunit, hsnap, rfl⟩, rfl⟩, by simp⟩

end Rule

/-! ## The longest beginning -/

/-- Of a text that begins with `w`, no longer beginning has a kind. -/
def IsMaximal (w rest : List Char) : Prop :=
  ∀ t v, rest = t ++ v → t ≠ [] → Rule.kindOf? Rule.all (w ++ t) = none

namespace IsMaximal

variable {w rest u v : List Char} {r : Rule}

/-- No rule describes a longer beginning. -/
theorem length_le (h : IsMaximal w rest) (hr : r ∈ Rule.all) (hv : v <+: w ++ rest)
    (hadmits : Admits r.form v) : v.length ≤ w.length := by
  refine Nat.le_of_not_lt fun hlt => ?_
  obtain ⟨t, rfl⟩ :=
    List.prefix_of_prefix_length_le (List.prefix_append _ rest) hv (Nat.le_of_lt hlt)
  obtain ⟨v, hrest⟩ := (List.prefix_append_right_inj _).mp hv
  have ht : t ≠ [] := by
    rintro rfl
    rw [List.append_nil] at hlt
    exact Nat.lt_irrefl _ hlt
  exact kindOf?_eq_none_iff.mp (h t v hrest.symm ht) r hr hadmits

/-- Behind a reserved word in ASCII letters stands nothing that a name may go on with. -/
theorem not_continued (h : IsMaximal w rest) (hr : r ∈ words) (hadmits : Admits r.form w)
    (hkelvin : '\u212a' ∉ w) (hlong : '\u017f' ∉ w) {c : Char} (hc : c ∈ rest.head?) :
    (c.isAlphanum || c == '_' || c == '.') = false := by
  obtain ⟨rest, rfl⟩ := List.head?_eq_some_iff.mp hc
  have hne : w ≠ [] := by
    rintro rfl
    have hkind := kindOf?_word hr hadmits
    rw [kindOf?_nil] at hkind
    cases hkind
  by_contra hname
  have hlonger := admits_name_of_word hr hadmits hne hkelvin hlong (Bool.not_eq_false _ ▸ hname)
  have hrule : (⟨name, .identifier⟩ : Rule) ∈ Rule.all := by simp [Rule.all, patterns]
  have hlength := h.length_le hrule ⟨rest, by simp⟩ hlonger
  rw [List.length_append] at hlength
  exact absurd hlength (Nat.not_succ_le_self _)

/-- It covers an amount of time that stands there with a unit to round down to. -/
theorem covers_time (h : IsMaximal w rest) (huv : u ++ v <+: w ++ rest) (hu : Admits amount u)
    (hv : Admits snap v) : u ++ v <+: w := by
  have hrule : (⟨relativeTime, .timeModifier⟩ : Rule) ∈ Rule.all := by simp [Rule.all, patterns]
  have hlength := h.length_le hrule huv (admits_relativeTime hu hv)
  exact List.prefix_of_prefix_length_le huv (List.prefix_append _ rest) hlength

end IsMaximal

/-! ## Lexemes -/

namespace Scan

variable {cs : List Char} {l : Lexeme}

/-- What is left of a text at a lexeme begins with it and with nothing longer that has a kind. -/
theorem left_of_mem_lexemes (h : l ∈ lexemes cs) (hkind : l.kind ≠ .garbage) :
    ∃ rest, Text.after l.start cs = l.text.toList ++ rest ∧ IsMaximal l.text.toList rest := by
  obtain ⟨ps, qs, hpieces, hstart⟩ := pieces_of_mem_lexemes h hkind
  have hcs : cs = ps.flatMap (·.text) ++ (l.text.toList ++ qs.flatMap (·.text)) := by
    have htexts := pieces_texts cs
    rw [hpieces, List.flatMap_append, List.flatMap_cons] at htexts
    exact htexts.symm
  refine ⟨qs.flatMap (·.text), ?_, fun t v hrest ht => ?_⟩
  · rw [hstart]
    conv_lhs => rw [hcs]
    exact Text.after_width _ _
  · obtain ⟨-, hfirst⟩ := pieces_of_append hpieces
    rw [List.flatMap_cons, hrest] at hfirst
    exact pieces_maximal hfirst ht

/-- **Every lexeme is the longest one.** A lexeme of the scan that is no garbage is the longest
beginning of what is left of the text that any rule describes. Its kind is that of a rule which
describes it, and of every other such rule unless that is one for names and a reserved word is
spelled like it. Hence a reserved word, which every keyword is, is not followed by a character that
a name may go on with, provided that it is written without the long s and without the Kelvin sign,
with which no name is written; and where an amount of time is followed by a unit to round down to,
with an offset or without one, the lexeme covers all of these. -/
theorem lexemes_maximal (text : String) (h : l ∈ lexemes text.toList) (hkind : l.kind ≠ .garbage) :
    ∃ rest, Text.after l.start text.toList = l.text.toList ++ rest ∧
      (∃ r ∈ Rule.all, Admits r.form l.text.toList ∧ r.kind = l.kind) ∧
      (∀ r ∈ Rule.all, ∀ w, w <+: l.text.toList ++ rest → Admits r.form w →
        w.length ≤ l.text.toList.length) ∧
      (∀ r ∈ Rule.all, Admits r.form l.text.toList → r.kind = l.kind ∨
        r.kind = .identifier ∧ ∃ q ∈ words, Admits q.form l.text.toList ∧ q.kind = l.kind) ∧
      (l.kind.isKeyword = true → ∃ q ∈ words, Admits q.form l.text.toList) ∧
      ((∃ q ∈ words, Admits q.form l.text.toList) →
        '\u212a' ∉ l.text.toList → '\u017f' ∉ l.text.toList →
        ∀ c ∈ rest.head?, (c.isAlphanum || c == '_' || c == '.') = false) ∧
      ∀ u v, u ++ v <+: l.text.toList ++ rest → Admits amount u → Admits snap v →
        u ++ v <+: l.text.toList := by
  obtain ⟨rest, hleft, hmaximal⟩ := left_of_mem_lexemes h hkind
  have hkindOf := kindOf?_of_mem_lexemes h hkind
  obtain ⟨r, hr, hadmits⟩ := exists_of_kindOf? hkindOf
  obtain ⟨hr, hrkind⟩ := List.mem_filter.mp hr
  refine ⟨rest, hleft, ⟨r, hr, hadmits, eq_of_beq hrkind⟩,
    fun r hr w hw => hmaximal.length_le hr hw, fun q hq hqadmits => ?_,
    exists_word_of_isKeyword hkindOf,
    fun ⟨q, hq, hword⟩ hkelvin hlong c => hmaximal.not_continued hq hword hkelvin hlong,
    fun u v huv => hmaximal.covers_time huv⟩
  rcases kindOf?_of_admits hq hqadmits with hsame | ⟨hname, q', hq', hword⟩
  · rw [hkindOf] at hsame
    exact .inl (Option.some.inj hsame).symm
  · have hsame := kindOf?_word hq' hword
    rw [hkindOf] at hsame
    exact .inr ⟨hname, q', hq', hword, (Option.some.inj hsame).symm⟩

/-- An amount that is rounded down to a day and moved on by five seconds is one lexeme. -/
theorem lexemes_maximal_sample :
    (⟨.timeModifier, 5, "-24h@d+5s"⟩ : Lexeme) ∈ lexemes "head -24h@d+5s".toList ∧
      "-24h".toList ++ "@d+5s".toList <+: "-24h@d+5s".toList := by
  have hmem : (⟨.timeModifier, 5, "-24h@d+5s"⟩ : Lexeme) ∈ lexemes "head -24h@d+5s".toList := by
    decide +kernel
  obtain ⟨rest, -, -, -, -, -, -, htime⟩ := lexemes_maximal "head -24h@d+5s" hmem (by decide)
  exact ⟨hmem, htime "-24h".toList "@d+5s".toList (List.prefix_append _ rest) (by decide)
    (by decide)⟩

/-- A reserved word that is spelled with a long s may be followed by a letter: with that spelling it
is not the beginning of a name. -/
theorem keyword_before_letter :
    ¬∀ (text : String), ∀ l ∈ lexemes text.toList, l.kind.isKeyword = true →
      ∀ c ∈ (Text.after l.stop text.toList).head?,
        (c.isAlphanum || c == '_' || c == '.') = false := by
  intro h
  have hmem : (⟨.command .search, 0, "\u017fearch"⟩ : Lexeme) ∈
      lexemes "\u017fearchx".toList := by
    decide +kernel
  exact absurd (h _ _ hmem rfl 'x' (by decide)) (by decide)

end Scan

end SplQuery

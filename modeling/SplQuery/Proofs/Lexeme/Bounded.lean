import SplQuery.Proofs.Lexeme.Freestanding

/-!
# No lexeme looks past white space

A text that has a kind may grow into a longer one of some kind, but not past white space unless it
has grown into one by then: what is between quotes or backticks ends where it can end for the first
time, white space is one lexeme, and all else holds no blanks.

* `Rule.comment_unique`, `Rule.macroCall_unique` — comments and macro calls end where they can.
* `kindOf?_white`, `all_blanks_of_kindOf?` — the kind of white space.
* `kindOf?_past_blank` — what a text does not grow into up to a blank it does not grow into at all.
-/

namespace SplQuery

open Form Rule

namespace Form

theorem admits_many_one_iff {m : Char → Bool} {s : List Char} :
    Admits (.many (.one m)) s ↔ ∀ c ∈ s, m c = true := by
  induction s with
  | nil => exact ⟨fun _ => List.forall_mem_nil _, fun _ => .stop⟩
  | cons c s ih =>
    rw [List.forall_mem_cons, ← ih]
    constructor
    · intro h
      obtain ⟨t, u, ht, hu, rfl⟩ := admits_many_cons h
      obtain ⟨d, hd, heq⟩ := admits_one_iff.mp ht
      obtain ⟨rfl, rfl⟩ := List.cons.inj heq
      exact ⟨hd, hu⟩
    · rintro ⟨hc, hs⟩
      exact .more (s := [c]) (.one hc) hs

theorem admits_some_one_iff {m : Char → Bool} {s : List Char} :
    Admits (some (.one m)) s ↔ s ≠ [] ∧ ∀ c ∈ s, m c = true := by
  rw [some, admits_thenOf_iff, admits_andThen_iff]
  constructor
  · rintro ⟨t, u, ht, hu, rfl⟩
    obtain ⟨c, hc, rfl⟩ := admits_one_iff.mp ht
    exact ⟨List.cons_ne_nil c u, List.forall_mem_cons.mpr ⟨hc, admits_many_one_iff.mp hu⟩⟩
  · rintro ⟨hne, hs⟩
    obtain ⟨c, s, rfl⟩ := List.exists_cons_of_ne_nil hne
    obtain ⟨hc, hs⟩ := List.forall_mem_cons.mp hs
    exact ⟨[c], s, .one hc, admits_many_one_iff.mpr hs, rfl⟩

end Form

namespace Rule

/-! ## Texts between backticks -/

/-- Three backticks. -/
def row : List Char := ['\x60', '\x60', '\x60']

/-- What follows the characters of a comment, at whose end there is a row. -/
def fromRow : List Char → List Char
  | [] => []
  | c :: cs => if row <+: c :: cs then c :: cs else fromRow cs

/-- One repetition of what may stand in a comment. -/
def commentStep : Form :=
  let other := except ['\x60']
  orOf other (orOf (thenOf (char '\x60') other) (thenOf (char '\x60') (thenOf (char '\x60') other)))

theorem admits_commentStep_iff {s : List Char} : Admits commentStep s ↔
    ∃ c, c ≠ '\x60' ∧ (s = [c] ∨ s = ['\x60', c] ∨ s = ['\x60', '\x60', c]) := by
  have hother (s : List Char) : Admits (except ['\x60']) s ↔ ∃ c, c ≠ '\x60' ∧ s = [c] := by
    rw [except, admits_one_iff]
    simp
  simp only [commentStep, admits_orOf_iff, admits_thenOf_iff, admits_andThen_iff, admits_char_iff,
    hother]
  constructor
  · rintro (⟨c, hc, rfl⟩ | ⟨_, _, rfl, ⟨c, hc, rfl⟩, rfl⟩ |
      ⟨_, _, rfl, ⟨_, _, rfl, ⟨c, hc, rfl⟩, rfl⟩, rfl⟩)
    · exact ⟨c, hc, .inl rfl⟩
    · exact ⟨c, hc, .inr (.inl rfl)⟩
    · exact ⟨c, hc, .inr (.inr rfl)⟩
  · rintro ⟨c, hc, rfl | rfl | rfl⟩
    · exact .inl ⟨c, hc, rfl⟩
    · exact .inr (.inl ⟨_, _, rfl, ⟨c, hc, rfl⟩, rfl⟩)
    · exact .inr (.inr ⟨_, _, rfl, ⟨_, _, rfl, ⟨c, hc, rfl⟩, rfl⟩, rfl⟩)

theorem admits_comment_iff {s : List Char} :
    Admits comment s ↔ ∃ body, Admits (.many commentStep) body ∧ s = row ++ (body ++ row) := by
  have hcomment : comment = thenOf (thenOf (char '\x60') (thenOf (char '\x60') (char '\x60')))
      (thenOf (.many commentStep) (thenOf (char '\x60') (thenOf (char '\x60') (char '\x60')))) :=
    rfl
  have hrow (s : List Char) :
      Admits (thenOf (char '\x60') (thenOf (char '\x60') (char '\x60'))) s ↔ s = row := by
    simp only [admits_thenOf_iff, admits_andThen_iff, admits_char_iff]
    constructor
    · rintro ⟨_, _, rfl, ⟨_, _, rfl, rfl, rfl⟩, rfl⟩
      rfl
    · rintro rfl
      exact ⟨_, _, rfl, ⟨_, _, rfl, rfl, rfl⟩, rfl⟩
  rw [hcomment, admits_thenOf_iff, admits_andThen_iff]
  simp only [hrow, admits_thenOf_iff, admits_andThen_iff]
  constructor
  · rintro ⟨_, _, rfl, ⟨body, _, hbody, rfl, rfl⟩, rfl⟩
    exact ⟨body, hbody, rfl⟩
  · rintro ⟨body, hbody, rfl⟩
    exact ⟨row, _, rfl, ⟨body, row, hbody, rfl, rfl⟩, rfl⟩

/-- The first row after what may stand in a comment is the one that ends it. -/
theorem fromRow_append {body : List Char} (h : Admits (.many commentStep) body) (s : List Char) :
    fromRow (body ++ (row ++ s)) = row ++ s := by
  generalize hf : Form.many _ = f at h
  induction h with
  | done | one | andThen | left | right => cases hf
  | stop =>
    change fromRow ('\x60' :: '\x60' :: '\x60' :: s) = _
    rw [fromRow, if_pos ⟨s, rfl⟩]
    rfl
  | @more f t u ht _ _ ih =>
    obtain rfl := Form.many.inj hf
    rw [List.append_assoc]
    obtain ⟨c, hc, rfl | rfl | rfl⟩ := admits_commentStep_iff.mp ht <;>
      simp [fromRow, row, Ne.symm hc] <;> exact ih rfl

/-- A comment ends at the first row of backticks. -/
theorem comment_unique {w s : List Char} (hw : Admits comment w) (hs : Admits comment (w ++ s)) :
    s = [] := by
  obtain ⟨body, hbody, rfl⟩ := admits_comment_iff.mp hw
  obtain ⟨body', hbody', h⟩ := admits_comment_iff.mp hs
  have htail : body ++ (row ++ s) = body' ++ (row ++ []) := by
    rw [List.append_assoc, List.append_assoc] at h
    rw [List.append_nil]
    exact List.append_cancel_left h
  have hfrom := congrArg fromRow htail
  rw [fromRow_append hbody, fromRow_append hbody'] at hfrom
  exact List.append_cancel_left hfrom

theorem admits_macroCall_iff {s : List Char} : Admits macroCall s ↔
    ∃ body, body ≠ [] ∧ '\x60' ∉ body ∧ s = '\x60' :: (body ++ ['\x60']) := by
  have hbody (s : List Char) :
      Admits (Form.some (except ['\x60'])) s ↔ s ≠ [] ∧ '\x60' ∉ s := by
    rw [except, admits_some_one_iff]
    refine and_congr_right fun _ => ⟨fun h hmem => ?_, fun h c hc => ?_⟩
    · simpa using h _ hmem
    · have hne : c ≠ '\x60' := fun heq => h (heq ▸ hc)
      simpa using hne
  simp only [macroCall, admits_thenOf_iff, admits_andThen_iff, admits_char_iff, hbody]
  constructor
  · rintro ⟨_, _, rfl, ⟨body, _, ⟨hne, htick⟩, rfl, rfl⟩, rfl⟩
    exact ⟨body, hne, htick, rfl⟩
  · rintro ⟨body, hne, htick, rfl⟩
    exact ⟨['\x60'], _, rfl, ⟨body, ['\x60'], ⟨hne, htick⟩, rfl, rfl⟩, rfl⟩

/-- The call of a macro ends at the first backtick after the one that begins it. -/
theorem macroCall_unique {w s : List Char} (hw : Admits macroCall w)
    (hs : Admits macroCall (w ++ s)) : s = [] := by
  obtain ⟨body, -, htick, rfl⟩ := admits_macroCall_iff.mp hw
  obtain ⟨body', -, htick', h⟩ := admits_macroCall_iff.mp hs
  have htail : body ++ '\x60' :: s = body' ++ ['\x60'] := by simpa using h
  have hpast {body : List Char} (hbody : '\x60' ∉ body) : ∀ c ∈ body, (c != '\x60') = true :=
    fun c hc => bne_iff_ne.mpr fun heq => hbody (heq ▸ hc)
  have hfrom := congrArg (List.dropWhile (· != '\x60')) htail
  rw [List.dropWhile_append_of_pos (hpast htick), List.dropWhile_append_of_pos (hpast htick')]
    at hfrom
  exact (List.cons.inj hfrom).2

/-- What begins like the call of a macro does not begin like a comment. -/
theorem not_row_of_macroCall {w : List Char} (h : Admits macroCall w) (s : List Char) :
    ¬row <+: w ++ s := by
  obtain ⟨body, hne, htick, rfl⟩ := admits_macroCall_iff.mp h
  obtain ⟨c, body, rfl⟩ := List.exists_cons_of_ne_nil hne
  rintro ⟨rest, heq⟩
  obtain ⟨-, hcons⟩ := List.cons.inj heq
  obtain ⟨rfl, -⟩ := List.cons.inj hcons
  exact htick List.mem_cons_self

/-- What begins with a backtick ends where it can end. -/
theorem backtick_unique {w s : List Char} (hw : Admits comment w ∨ Admits macroCall w)
    (hs : Admits comment (w ++ s) ∨ Admits macroCall (w ++ s)) : s = [] := by
  have hrow {v : List Char} (h : Admits comment v) : row <+: v := by
    obtain ⟨body, -, rfl⟩ := admits_comment_iff.mp h
    exact List.prefix_append row _
  rcases hw with hw | hw <;> rcases hs with hs | hs
  · exact comment_unique hw hs
  · have hnot := not_row_of_macroCall hs []
    rw [List.append_nil] at hnot
    exact absurd ((hrow hw).trans (List.prefix_append w s)) hnot
  · exact absurd (hrow hs) (not_row_of_macroCall hw s)
  · exact macroCall_unique hw hs

end Rule

/-! ## First characters -/

theorem exists_head?_of_ne_nil {s : List Char} (h : s ≠ []) :
    ∃ c, s.head? = Option.some c := by
  obtain ⟨c, s, rfl⟩ := List.exists_cons_of_ne_nil h
  exact ⟨c, rfl⟩

/-- A text that has a kind is one of a rule whose texts may begin like it. -/
theorem exists_rule_of_kindOf? {c : Char} {s : List Char} {k : Kind} (hc : s.head? = some c)
    (h : kindOf? Rule.all s = some k) :
    ∃ r ∈ Rule.all.filter (·.form.mayStart c), r.kind = k ∧ Admits r.form s := by
  obtain ⟨r, hr, hadmits⟩ := exists_of_kindOf? h
  obtain ⟨hmem, hkind⟩ := List.mem_filter.mp hr
  obtain ⟨s, rfl⟩ := List.head?_eq_some_iff.mp hc
  exact ⟨r, List.mem_filter.mpr ⟨hmem, hadmits.mayStart⟩, eq_of_beq hkind, hadmits⟩

/-- The rules for texts that begin with white space. -/
theorem rules_of_blank {c : Char} (h : c ∈ blanks) :
    Rule.all.filter (·.form.mayStart c) = [⟨whitespace, .whitespace⟩] := by
  simp only [blanks, List.mem_cons, List.not_mem_nil, or_false] at h
  rcases h with rfl | rfl | rfl | rfl | rfl <;> rfl

theorem rules_of_doubleQuote :
    Rule.all.filter (·.form.mayStart '"') = [⟨quoted '"', .stringLiteral⟩] := rfl

theorem rules_of_singleQuote :
    Rule.all.filter (·.form.mayStart '\'') = [⟨quoted '\'', .stringLiteral⟩] := rfl

theorem rules_of_backtick :
    Rule.all.filter (·.form.mayStart '\x60') = [⟨comment, .comment⟩, ⟨macroCall, .macroCall⟩] := rfl

theorem admits_whitespace_iff {s : List Char} :
    Admits whitespace s ↔ s ≠ [] ∧ ∀ c ∈ s, c ∈ blanks := by
  rw [whitespace, admits_some_one_iff]
  simp only [List.contains_iff_mem]

/-- What begins with white space and has a kind is white space. -/
theorem all_blanks_of_kindOf? {c : Char} {s : List Char} {k : Kind} (hhead : s.head? = some c)
    (hc : c ∈ blanks) (h : kindOf? Rule.all s = some k) : ∀ d ∈ s, d ∈ blanks := by
  obtain ⟨r, hr, -, hadmits⟩ := exists_rule_of_kindOf? hhead h
  rw [rules_of_blank hc, List.mem_singleton] at hr
  subst hr
  exact (admits_whitespace_iff.mp hadmits).2

theorem blanks_of_whitespace {s : List Char} (h : kindOf? Rule.all s = some .whitespace) :
    ∀ c ∈ s, c ∈ blanks := by
  obtain ⟨r, hr, hadmits⟩ := exists_of_kindOf? h
  have hrules : Rule.all.filter (·.kind == .whitespace) = [⟨whitespace, .whitespace⟩] := rfl
  rw [hrules, List.mem_singleton] at hr
  rw [hr] at hadmits
  exact (admits_whitespace_iff.mp hadmits).2

/-- Characters of white space are white space. -/
theorem kindOf?_white {s : List Char} (hne : s ≠ []) (h : ∀ c ∈ s, c ∈ blanks) :
    kindOf? Rule.all s = some .whitespace := by
  have hadmits : Admits whitespace s := admits_whitespace_iff.mpr ⟨hne, h⟩
  obtain ⟨c, hc⟩ := exists_head?_of_ne_nil hne
  cases hkind : kindOf? Rule.all s with
  | none =>
    exact absurd hadmits (kindOf?_eq_none_iff.mp hkind ⟨whitespace, .whitespace⟩
      (List.mem_append_right _ List.mem_cons_self))
  | some k =>
    obtain ⟨r, hr, hrk, -⟩ := exists_rule_of_kindOf? hc hkind
    rw [rules_of_blank (h c (List.mem_of_head? hc)), List.mem_singleton] at hr
    rw [← hrk, hr]

/-! ## Past white space -/

/-- What begins with a quote or a backtick ends where it can end. -/
theorem eq_nil_of_kindOf?_quote {c : Char} {w s : List Char} {k j : Kind}
    (hc : c ∈ ['\x60', '"', '\'']) (hhead : w.head? = some c) (hk : kindOf? Rule.all w = some k)
    (hj : kindOf? Rule.all (w ++ s) = some j) : s = [] := by
  have hlong : (w ++ s).head? = some c := by rw [List.head?_append, hhead, Option.some_or]
  obtain ⟨q, hq, -, hw⟩ := exists_rule_of_kindOf? hhead hk
  obtain ⟨r, hr, -, hws⟩ := exists_rule_of_kindOf? hlong hj
  have hbacktick {t : List Char} {r : Rule} (h : Admits r.form t)
      (hr : r ∈ Rule.all.filter (·.form.mayStart '\x60')) :
      Admits comment t ∨ Admits macroCall t := by
    rw [rules_of_backtick] at hr
    simp only [List.mem_cons, List.not_mem_nil, or_false] at hr
    rcases hr with rfl | rfl
    · exact .inl h
    · exact .inr h
  simp only [List.mem_cons, List.not_mem_nil, or_false] at hc
  rcases hc with rfl | rfl | rfl
  · exact backtick_unique (hbacktick hw hq) (hbacktick hws hr)
  · rw [rules_of_doubleQuote, List.mem_singleton] at hq hr
    subst hq hr
    exact quoted_unique (by decide) hw hws
  · rw [rules_of_singleQuote, List.mem_singleton] at hq hr
    subst hq hr
    exact quoted_unique (by decide) hw hws

/-- What a text of some kind does not grow into up to a blank it does not grow into at all. -/
theorem kindOf?_past_blank {w u : List Char} {b : Char} {k : Kind} (hb : b ∈ blanks)
    (hk : kindOf? Rule.all w = some k) (hgrown : kindOf? Rule.all (w ++ (u ++ [b])) = none)
    (s : List Char) : kindOf? Rule.all (w ++ (u ++ b :: s)) = none := by
  have hne : w ≠ [] := by
    rintro rfl
    rw [kindOf?_nil] at hk
    cases hk
  obtain ⟨c, hhead⟩ := exists_head?_of_ne_nil hne
  have hrest : u ++ b :: s ≠ [] := List.append_ne_nil_of_right_ne_nil u (List.cons_ne_nil b s)
  by_cases hc : c ∈ openers
  · cases hlong : kindOf? Rule.all (w ++ (u ++ b :: s)) with
    | none => rfl
    | some j =>
      exfalso
      rcases List.mem_append.mp hc with hblank | hquote
      · have hlongHead : (w ++ (u ++ b :: s)).head? = some c := by
          rw [List.head?_append, hhead, Option.some_or]
        have hall := all_blanks_of_kindOf? hlongHead hblank hlong
        rw [kindOf?_white (List.append_ne_nil_of_left_ne_nil hne _)] at hgrown
        · cases hgrown
        · intro d hd
          refine hall d ?_
          simp only [List.mem_append, List.mem_cons, List.not_mem_nil, or_false] at hd ⊢
          tauto
      · exact hrest (eq_nil_of_kindOf?_quote hquote hhead hk hlong)
  · obtain ⟨w, rfl⟩ := List.head?_eq_some_iff.mp hhead
    exact kindOf?_eq_none_of_blank hc hb (by simp)

end SplQuery

import Mathlib.Data.List.DropRight
import SplQuery.Proofs.Lexeme.Spaced
import SplQuery.Proofs.Lexeme.Tokens

/-!
# Field patterns stand at word boundaries

The scan leaves every star by itself. What becomes one lexeme afterwards is a stretch of stars, then
words and numbers, then stars, with a delimiter, trivia or nothing on either side, unless it begins
with a star that multiplies what stands before it. All else is left as the scan gave it, above all a
star between two words.

* `Wildcard.IsRun` — a stretch of words, numbers and stars that goes on in neither direction.
* `Wildcard.joinRuns_around`, `Wildcard.exists_run_of_mem` — what becomes of the runs, from the
  scan to the lexemes and back.
* `Wildcard.Field`, `Wildcard.Multiplies` — what is written like a field pattern, and when it is a
  product all the same.
* `lex_wildcards` — the field patterns of a text are exactly these.
-/

namespace SplQuery

open Lexeme

/-! ## The texts of stars and names -/

namespace Scan

/-- What is no garbage has the kind that the rules give to its text. -/
theorem kindOf?_of_mem_lexemes {cs : List Char} {l : Lexeme} (h : l ∈ lexemes cs)
    (hkind : l.kind ≠ .garbage) : Rule.kindOf? Rule.all l.text.toList = some l.kind := by
  obtain ⟨ps, qs, hpieces, -⟩ := pieces_of_mem_lexemes h hkind
  have hmem : ⟨some l.kind, l.text.toList⟩ ∈ pieces cs :=
    hpieces ▸ List.mem_append_right _ List.mem_cons_self
  exact kindOf?_of_mem_pieces hmem

variable {cs : List Char} {l : Lexeme}

/-- The scan makes no field pattern. -/
theorem ne_wildcardField_of_mem (h : l ∈ lexemes cs) : l.kind ≠ .wildcardField := by
  intro hkind
  have hne : l.kind ≠ .garbage := by
    rw [hkind]
    decide
  obtain ⟨r, hr, -⟩ := Rule.exists_of_kindOf? (kindOf?_of_mem_lexemes h hne)
  have hrules : Rule.all.filter (·.kind == .wildcardField) = [] := rfl
  rw [hkind, hrules] at hr
  cases hr

/-- A star is written in one way. -/
theorem text_of_star (h : l ∈ lexemes cs) (hkind : l.kind = .multiply) : l.text.toList = ['*'] := by
  have hne : l.kind ≠ .garbage := by
    rw [hkind]
    decide
  obtain ⟨r, hr, hadmits⟩ := Rule.exists_of_kindOf? (kindOf?_of_mem_lexemes h hne)
  have hrules : Rule.all.filter (·.kind == .multiply) = [⟨.text "*", .multiply⟩] := rfl
  rw [hkind, hrules, List.mem_singleton] at hr
  rw [hr, Form.admits_text_iff] at hadmits
  exact hadmits

end Scan

namespace Wildcard

/-- A word or a number: what a field pattern has between its stars. -/
def IsName (l : Lexeme) : Prop := l.kind.isWord = true ∨ l.kind = .numberLiteral

theorem isPart_iff {l : Lexeme} : isPart l.kind = true ↔ IsName l ∨ l.kind = .multiply := by
  simp [isPart, IsName, or_assoc]

theorem IsName.ne_multiply {l : Lexeme} (h : IsName l) : l.kind ≠ .multiply := by
  rintro hkind
  rcases h with h | h <;> rw [hkind] at h <;> cases h

theorem IsName.isPart {l : Lexeme} (h : IsName l) : isPart l.kind = true := isPart_iff.mpr (.inl h)

/-- No word and no number holds a star. -/
theorem IsName.star_not_mem {cs : List Char} {l : Lexeme} (h : IsName l)
    (hl : l ∈ Scan.lexemes cs) : '*' ∉ l.text.toList := by
  have hrules : ∀ r ∈ Rule.all, r.kind.isWord = true ∨ r.kind = .numberLiteral →
      r.form.avoids '*' = true := by
    decide +kernel
  have hne : l.kind ≠ .garbage := ne_garbage_of_isPart h.isPart
  obtain ⟨r, hr, hadmits⟩ := Rule.exists_of_kindOf? (Scan.kindOf?_of_mem_lexemes hl hne)
  obtain ⟨hr, hkind⟩ := List.mem_filter.mp hr
  refine hadmits.not_mem (hrules r hr ?_)
  rw [eq_of_beq hkind]
  exact h

/-! ## Runs -/

/-- A stretch of words, numbers and stars that goes on in neither direction. -/
structure IsRun (front run rest : List Lexeme) : Prop where
  ne_nil : run ≠ []
  parts : ∀ l ∈ run, isPart l.kind = true
  before : ∀ l ∈ front.getLast?, isPart l.kind = false
  after : ∀ l ∈ rest.head?, isPart l.kind = false

variable {before : List Kind} {near front run rest ls : List Lexeme} {l : Lexeme}

/-- What stands far before a run does not matter to it. -/
theorem IsRun.of_append (h : IsRun (near ++ front) run rest) (hfront : front ≠ []) :
    IsRun front run rest := by
  refine ⟨h.ne_nil, h.parts, fun l hl => h.before l ?_, h.after⟩
  rwa [List.getLast?_append_of_ne_nil _ hfront]

theorem IsRun.append (h : IsRun front run rest)
    (hnear : front = [] → ∀ l ∈ near.getLast?, isPart l.kind = false) :
    IsRun (near ++ front) run rest := by
  refine ⟨h.ne_nil, h.parts, fun l hl => ?_, h.after⟩
  rcases eq_or_ne front [] with rfl | hfront
  · rw [List.append_nil] at hl
    exact hnear rfl l hl
  · rw [List.getLast?_append_of_ne_nil _ hfront] at hl
    exact h.before l hl

/-- Every run of the scan becomes what it becomes by itself, between what stands before it and what
comes after it. -/
theorem joinRuns_around (before : List Kind) (h : IsRun front run rest) :
    ∃ us vs, joinRuns before (front ++ (run ++ rest)) =
      us ++ (joined ((front.map (·.kind)).reverse ++ before) run (rest.head?.map (·.kind)) ++
        vs) := by
  induction before, front using runs_induction with
  | nil before =>
    rw [List.nil_append, joinRuns_run h.ne_nil h.parts h.after]
    exact ⟨[], _, rfl⟩
  | run before near front hne hnear hnext ih =>
    have hfront : front ≠ [] := by
      rintro rfl
      rw [List.append_nil] at h
      have hlast := h.before _ (List.getLast?_eq_getLast_of_ne_nil hne)
      rw [hnear _ (List.getLast_mem hne)] at hlast
      cases hlast
    have hnext' : ∀ l ∈ (front ++ (run ++ rest)).head?, isPart l.kind = false := by
      rwa [List.head?_append_of_ne_nil _ hfront]
    obtain ⟨us, vs, heq⟩ := ih (h.of_append hfront)
    rw [List.append_assoc, joinRuns_run hne hnear hnext', heq, List.map_append, List.reverse_append,
      List.append_assoc, ← List.append_assoc (joined _ _ _)]
    exact ⟨_, vs, rfl⟩
  | other before l front hl ih =>
    have hrun : IsRun front run rest := by
      rcases eq_or_ne front [] with rfl | hfront
      · exact ⟨h.ne_nil, h.parts, by simp, h.after⟩
      · have hcons : IsRun ([l] ++ front) run rest := h
        exact hcons.of_append hfront
    obtain ⟨us, vs, heq⟩ := ih hrun
    rw [List.cons_append, joinRuns_other _ hl, heq, List.map_cons, List.reverse_cons,
      List.append_assoc]
    exact ⟨l :: us, vs, rfl⟩

/-- A lexeme that is left when runs have been joined is no part of one, or a run became it. -/
theorem exists_run_of_mem (h : l ∈ joinRuns before ls) :
    (l ∈ ls ∧ isPart l.kind = false) ∨
      ∃ front run rest, ls = front ++ (run ++ rest) ∧ IsRun front run rest ∧
        l ∈ joined ((front.map (·.kind)).reverse ++ before) run (rest.head?.map (·.kind)) := by
  induction before, ls using runs_induction with
  | nil before =>
    rw [joinRuns] at h
    cases h
  | run before near rest hne hnear hrest ih =>
    rw [joinRuns_run hne hnear hrest] at h
    rcases List.mem_append.mp h with h | h
    · exact .inr ⟨[], near, rest, rfl, ⟨hne, hnear, by simp, hrest⟩, h⟩
    · obtain ⟨hl, hpart⟩ | ⟨front, run, after, rfl, hrun, hmem⟩ := ih h
      · exact .inl ⟨List.mem_append_right _ hl, hpart⟩
      · refine .inr ⟨near ++ front, run, after, (List.append_assoc _ _ _).symm, ?_, ?_⟩
        · -- two runs do not follow one another
          refine hrun.append fun hfront => ?_
          obtain ⟨m, ms, rfl⟩ := List.exists_cons_of_ne_nil hrun.ne_nil
          rw [hfront] at hrest
          have hpart := hrun.parts m List.mem_cons_self
          rw [hrest m rfl] at hpart
          cases hpart
        · rw [List.map_append, List.reverse_append, List.append_assoc]
          exact hmem
  | other before m ls hm ih =>
    rw [joinRuns_other _ hm] at h
    rcases List.mem_cons.mp h with rfl | h
    · exact .inl ⟨List.mem_cons_self, hm⟩
    · obtain ⟨hl, hpart⟩ | ⟨front, run, rest, rfl, hrun, hmem⟩ := ih h
      · exact .inl ⟨List.mem_cons_of_mem m hl, hpart⟩
      · refine .inr ⟨m :: front, run, rest, rfl, ?_, ?_⟩
        · have hcons : IsRun ([m] ++ front) run rest := by
            refine hrun.append fun _ l hl => ?_
            obtain rfl : m = l := by simpa using hl
            exact hm
          exact hcons
        · rw [List.map_cons, List.reverse_cons, List.append_assoc]
          exact hmem

/-- Words, numbers and stars that follow one another are within a run. -/
theorem exists_run_around (us vs : List Lexeme) (hne : run ≠ [])
    (hrun : ∀ l ∈ run, isPart l.kind = true) :
    ∃ front left right rest, us = front ++ left ∧ vs = right ++ rest ∧
      IsRun front (left ++ (run ++ right)) rest := by
  refine ⟨us.rdropWhile (isPart ·.kind), us.rtakeWhile (isPart ·.kind),
    vs.takeWhile (isPart ·.kind), vs.dropWhile (isPart ·.kind),
    List.rdropWhile_append_rtakeWhile.symm, List.takeWhile_append_dropWhile.symm, ?_, ?_, ?_, ?_⟩
  · simp [hne]
  · intro l hl
    rcases List.mem_append.mp hl with hl | hl
    · exact List.mem_rtakeWhile_imp (p := fun l : Lexeme => isPart l.kind) hl
    · rcases List.mem_append.mp hl with hl | hl
      · exact hrun l hl
      · exact List.all_eq_true.mp List.all_takeWhile l hl
  · intro l hl
    obtain ⟨hfront, rfl⟩ := List.mem_getLast?_eq_getLast hl
    exact Bool.eq_false_iff.mpr (List.rdropWhile_last_not _ _ hfront)
  · intro l hl
    have hnot := List.head?_dropWhile_not (isPart ·.kind) vs
    rwa [show (vs.dropWhile (isPart ·.kind)).head? = some l from hl] at hnot

/-! ## Field patterns -/

/-- Whether a lexeme is a star. -/
def isStar (l : Lexeme) : Bool := l.kind == .multiply

theorem isStar_iff {l : Lexeme} : isStar l = true ↔ l.kind = .multiply := beq_iff_eq

/-- What is written like a field pattern between `front` and `rest`: stars, then words and numbers,
then stars, at least one of both, with trivia, a delimiter or nothing on either side. -/
structure Field (front left core right rest : List Lexeme) : Prop where
  starsBefore : ∀ l ∈ left, l.kind = .multiply
  names : ∀ l ∈ core, IsName l
  starsAfter : ∀ l ∈ right, l.kind = .multiply
  named : core ≠ []
  starred : 1 ≤ left.length + right.length
  before : ∀ l ∈ front.getLast?, l.isTrivia = true ∨
    l.kind ∈ [Kind.comma, .lparen, .lbracket, .pipe, .equals, .notEquals]
  after : ∀ l ∈ rest.head?, l.isTrivia = true ∨
    l.kind ∈ [Kind.comma, .rparen, .rbracket, .pipe]

/-- There are stars in front, and they multiply what stands before them: the nearest lexeme that is
no trivia ends an operand. -/
def Multiplies (front left : List Lexeme) : Prop :=
  left ≠ [] ∧ ∃ l ∈ (solid front).getLast?, endsOperand l.kind = true

variable {left core right : List Lexeme}

/-- A run is between its stars what is left without the stars at its ends. -/
theorem starsAtEnds_eq (run : List Lexeme) :
    starsAtEnds (run.map (·.kind)) = (run.any isStar &&
      !((run.dropWhile isStar).rdropWhile isStar).isEmpty &&
      !((run.dropWhile isStar).rdropWhile isStar).any isStar) := by
  have hcore :
      (((run.map (·.kind)).dropWhile (· == .multiply)).reverse.dropWhile (· == .multiply)) =
      ((run.dropWhile isStar).rdropWhile isStar).reverse.map (·.kind) := by
    rw [List.rdropWhile, List.reverse_reverse, List.dropWhile_map, ← List.map_reverse,
      List.dropWhile_map]
    rfl
  have hcontains (ls : List Lexeme) :
      (ls.map (·.kind)).contains Kind.multiply = ls.any isStar := by
    rw [List.contains_eq_any_beq, List.any_map]
    congr 1
    funext l
    exact Bool.beq_comm
  rw [starsAtEnds, hcore, hcontains, hcontains, List.any_reverse]
  simp

/-- Stars in front of something else are dropped up to there. -/
theorem dropWhile_stars {stars ls : List Lexeme} (hstars : ∀ l ∈ stars, l.kind = .multiply)
    (hls : ∀ l ∈ ls.head?, l.kind ≠ .multiply) : (stars ++ ls).dropWhile isStar = ls := by
  rw [List.dropWhile_append_of_pos fun l hl => isStar_iff.mpr (hstars l hl)]
  cases ls with
  | nil => rfl
  | cons l ls => exact List.dropWhile_cons_of_neg fun hl => hls l rfl (isStar_iff.mp hl)

theorem rdropWhile_stars {stars ls : List Lexeme} (hstars : ∀ l ∈ stars, l.kind = .multiply)
    (hls : ∀ l ∈ ls.getLast?, l.kind ≠ .multiply) : (ls ++ stars).rdropWhile isStar = ls := by
  rw [List.rdropWhile, List.reverse_append, dropWhile_stars, List.reverse_reverse]
  · exact fun l hl => hstars l (List.mem_reverse.mp hl)
  · rwa [List.head?_reverse]

/-- Stars stand at the ends of a run when it is stars, then something without stars, then stars. -/
theorem starsAtEnds_iff : starsAtEnds (run.map (·.kind)) = true ↔
    ∃ left core right, run = left ++ (core ++ right) ∧ (∀ l ∈ left, l.kind = .multiply) ∧
      (∀ l ∈ core, l.kind ≠ .multiply) ∧ (∀ l ∈ right, l.kind = .multiply) ∧ core ≠ [] ∧
      1 ≤ left.length + right.length := by
  have hany (ls : List Lexeme) : ls.any isStar = false ↔ ∀ l ∈ ls, l.kind ≠ .multiply := by
    simp [isStar]
  rw [starsAtEnds_eq, Bool.and_eq_true, Bool.and_eq_true, Bool.not_eq_true', Bool.not_eq_true',
    hany, List.isEmpty_eq_false_iff]
  constructor
  · rintro ⟨⟨hstar, hne⟩, hcore⟩
    refine ⟨run.takeWhile isStar, (run.dropWhile isStar).rdropWhile isStar,
      (run.dropWhile isStar).rtakeWhile isStar, ?_, ?_, hcore, ?_, hne, ?_⟩
    · rw [List.rdropWhile_append_rtakeWhile, List.takeWhile_append_dropWhile]
    · exact fun l hl => isStar_iff.mp (List.all_eq_true.mp List.all_takeWhile l hl)
    · exact fun l hl => isStar_iff.mp (List.mem_rtakeWhile_imp hl)
    · -- without stars at its ends the run would be what is between them
      by_contra hnone
      have hleft : run.takeWhile isStar = [] := List.length_eq_zero_iff.mp (by omega)
      have hright : (run.dropWhile isStar).rtakeWhile isStar = [] :=
        List.length_eq_zero_iff.mp (by omega)
      have hwhole : (run.dropWhile isStar).rdropWhile isStar = run := by
        rw [← List.append_nil ((run.dropWhile isStar).rdropWhile isStar), ← hright,
          List.rdropWhile_append_rtakeWhile, ← List.nil_append (run.dropWhile isStar), ← hleft,
          List.takeWhile_append_dropWhile]
      rw [hwhole, ← hany, hstar] at hcore
      cases hcore
  · rintro ⟨left, core, right, rfl, hleft, hcore, hright, hne, hstars⟩
    have hrest : ((left ++ (core ++ right)).dropWhile isStar).rdropWhile isStar = core := by
      rw [dropWhile_stars hleft, rdropWhile_stars hright]
      · exact fun l hl => hcore l (List.mem_of_mem_getLast? hl)
      · rw [List.head?_append_of_ne_nil _ hne]
        exact fun l hl => hcore l (List.mem_of_mem_head? hl)
    rw [hrest]
    refine ⟨⟨?_, hne⟩, hcore⟩
    have hends : ∃ l, l ∈ left ++ right := by
      refine List.exists_mem_of_length_pos ?_
      rw [List.length_append]
      exact hstars
    obtain ⟨l, hl⟩ := hends
    refine List.any_eq_true.mpr ⟨l, ?_, isStar_iff.mpr ?_⟩
    · rcases List.mem_append.mp hl with hl | hl <;> simp [hl]
    · rcases List.mem_append.mp hl with hl | hl
      · exact hleft l hl
      · exact hright l hl

/-- A star between two other parts of a run is not at its ends. -/
theorem not_starsAtEnds {us vs stars : List Lexeme} {a b s : Lexeme} (ha : a.kind ≠ .multiply)
    (hb : b.kind ≠ .multiply) (hs : s ∈ stars) (hkind : s.kind = .multiply) :
    starsAtEnds ((us ++ (a :: (stars ++ b :: vs))).map (·.kind)) = false := by
  have hdrop {ls ms : List Lexeme} {l : Lexeme} (hl : l.kind ≠ .multiply) :
      (ls ++ l :: ms).dropWhile isStar = ls.dropWhile isStar ++ l :: ms := by
    rw [List.dropWhile_append, List.dropWhile_cons_of_neg fun h => hl (isStar_iff.mp h)]
    split
    · next h => rw [List.isEmpty_iff.mp h, List.nil_append]
    · rfl
  have hrest : s ∈ ((us ++ (a :: (stars ++ b :: vs))).dropWhile isStar).rdropWhile isStar := by
    have hrev (xs : List Lexeme) : (xs ++ (a :: (stars ++ b :: vs))).reverse =
        vs.reverse ++ b :: (stars.reverse ++ (a :: xs.reverse)) := by
      simp
    rw [hdrop ha, List.rdropWhile, hrev, hdrop hb]
    simp [hs]
  have hany : (((us ++ (a :: (stars ++ b :: vs))).dropWhile isStar).rdropWhile isStar).any isStar =
      true := List.any_eq_true.mpr ⟨s, hrest, isStar_iff.mpr hkind⟩
  rw [starsAtEnds_eq, hany, Bool.not_true, Bool.and_false]

theorem opensBefore_iff {k : Kind} : opensBefore k = true ↔ k.isTrivia = true ∨
    k ∈ [Kind.comma, .lparen, .lbracket, .pipe, .equals, .notEquals] := by
  cases k <;> simp [opensBefore, Kind.isTrivia]

theorem opensAfter_iff {k : Kind} : opensAfter k = true ↔ k.isTrivia = true ∨
    k ∈ [Kind.comma, .rparen, .rbracket, .pipe] := by
  cases k <;> simp [opensAfter, Kind.isTrivia]

/-- The nearest lexeme in front that is no trivia, by its kind. -/
theorem find?_solid (front : List Lexeme) :
    ((front.map (·.kind)).reverse.find? (!·.isTrivia)) = (solid front).getLast?.map (·.kind) := by
  rw [← List.head?_filter, List.filter_reverse, List.filter_map, List.head?_reverse,
    List.getLast?_map]
  rfl

/-- A run is a field pattern exactly when it is written like one and does not multiply. -/
theorem isPattern_iff (hrun : ∀ l ∈ run, isPart l.kind = true) :
    isPattern (front.map (·.kind)).reverse (run.map (·.kind)) (rest.head?.map (·.kind)) = true ↔
      ∃ left core right, run = left ++ (core ++ right) ∧ Field front left core right rest ∧
        ¬Multiplies front left := by
  have hbefore : ((front.map (·.kind)).reverse.head?.all opensBefore) = true ↔
      ∀ l ∈ front.getLast?, l.isTrivia = true ∨
        l.kind ∈ [Kind.comma, .lparen, .lbracket, .pipe, .equals, .notEquals] := by
    rw [List.head?_reverse, List.getLast?_map]
    cases front.getLast? with
    | none => simp
    | some l => simpa [Lexeme.isTrivia] using opensBefore_iff (k := l.kind)
  have hafter : ((rest.head?.map (·.kind)).all opensAfter) = true ↔
      ∀ l ∈ rest.head?, l.isTrivia = true ∨ l.kind ∈ [Kind.comma, .rparen, .rbracket, .pipe] := by
    cases rest.head? with
    | none => simp
    | some l => simpa [Lexeme.isTrivia] using opensAfter_iff (k := l.kind)
  have hmultiplies {left core right : List Lexeme} (hleft : ∀ l ∈ left, l.kind = .multiply)
      (hcore : ∀ l ∈ core, l.kind ≠ .multiply) (hne : core ≠ []) :
      (((left ++ (core ++ right)).map (·.kind)).head? == some .multiply &&
        ((front.map (·.kind)).reverse.find? (!·.isTrivia)).any endsOperand) = true ↔
      Multiplies front left := by
    have hhead : ((left ++ (core ++ right)).map (·.kind)).head? = some .multiply ↔ left ≠ [] := by
      cases left with
      | nil =>
        obtain ⟨c, core, rfl⟩ := List.exists_cons_of_ne_nil hne
        simpa using hcore c List.mem_cons_self
      | cons l left => simpa using hleft l List.mem_cons_self
    rw [find?_solid, Bool.and_eq_true, beq_iff_eq, hhead, Multiplies]
    cases (solid front).getLast? <;> simp
  rw [isPattern, Bool.and_eq_true, Bool.and_eq_true, Bool.and_eq_true, hbefore, hafter,
    Bool.not_eq_true', starsAtEnds_iff]
  constructor
  · rintro ⟨⟨⟨⟨left, core, right, rfl, hleft, hcore, hright, hne, hstars⟩, hopen⟩, hclose⟩, hnot⟩
    refine ⟨left, core, right, rfl, ⟨hleft, fun l hl => ?_, hright, hne, hstars, hopen, hclose⟩,
      fun hproduct => ?_⟩
    · exact (isPart_iff.mp (hrun l (by simp [hl]))).resolve_right (hcore l hl)
    · rw [(hmultiplies hleft hcore hne).mpr hproduct] at hnot
      cases hnot
  · rintro ⟨left, core, right, rfl, hfield, hproduct⟩
    have hcore : ∀ l ∈ core, l.kind ≠ .multiply := fun l hl => (hfield.names l hl).ne_multiply
    refine ⟨⟨⟨⟨left, core, right, rfl, hfield.starsBefore, hcore, hfield.starsAfter, hfield.named,
      hfield.starred⟩, hfield.before⟩, hfield.after⟩, ?_⟩
    rw [Bool.eq_false_iff, Ne, hmultiplies hfield.starsBefore hcore hfield.named]
    exact hproduct

/-- What is written like a field pattern is a run. -/
theorem Field.isRun (h : Field front left core right rest) :
    IsRun front (left ++ (core ++ right)) rest := by
  have hopen : ∀ k ∈ [Kind.comma, .lparen, .lbracket, .pipe, .equals, .notEquals],
      isPart k = false := by decide
  have hclose : ∀ k ∈ [Kind.comma, .rparen, .rbracket, .pipe], isPart k = false := by decide
  have htrivia {l : Lexeme} (hl : l.isTrivia = true) : isPart l.kind = false := by
    by_contra hpart
    rw [Lexeme.isTrivia, isTrivia_of_isPart (Bool.not_eq_false _ ▸ hpart)] at hl
    cases hl
  refine ⟨?_, fun l hl => isPart_iff.mpr ?_, fun l hl => ?_, fun l hl => ?_⟩
  · simp [h.named]
  · rcases List.mem_append.mp hl with hl | hl
    · exact .inr (h.starsBefore l hl)
    · rcases List.mem_append.mp hl with hl | hl
      · exact .inl (h.names l hl)
      · exact .inr (h.starsAfter l hl)
  · exact (h.before l hl).elim htrivia (hopen l.kind)
  · exact (h.after l hl).elim htrivia (hclose l.kind)

/-! ## The lexemes of a text -/

/-- Field patterns apart, what is left when runs have been joined was there before, in order. -/
theorem filter_joinRuns (before : List Kind) (ls : List Lexeme) :
    ((joinRuns before ls).filter (·.kind != .wildcardField)).Sublist ls := by
  induction before, ls using runs_induction with
  | nil before =>
    rw [joinRuns]
    exact .slnil
  | run before run rest hne hrun hrest ih =>
    rw [joinRuns_run hne hrun hrest, List.filter_append]
    refine .append ?_ ih
    rw [joined]
    split
    · exact List.nil_sublist _
    · exact List.filter_sublist
  | other before l ls hl ih =>
    rw [joinRuns_other ls hl, ← List.singleton_append, List.filter_append]
    exact List.filter_sublist.append ih

end Wildcard

/-- The lexemes in front of a stretch of the scan end where it starts. -/
theorem Scan.start_eq {cs : List Char} {front run rest : List Lexeme}
    (h : Scan.lexemes cs = front ++ (run ++ rest)) (hne : run ≠ []) :
    run.head?.elim 0 (·.start) = Text.width (texts front) := by
  have hadjoin := lexemes_adjoin cs
  rw [h] at hadjoin
  obtain ⟨place, hfront, hrest⟩ := adjoin_append_iff.mp hadjoin
  obtain ⟨l, run, rfl⟩ := List.exists_cons_of_ne_nil hne
  rw [List.head?_cons, Option.elim_some, hrest.1, hfront.stop_eq, Nat.zero_add]

/-- Stars of the scan read as so many stars. -/
theorem Scan.texts_stars {cs : List Char} {stars : List Lexeme}
    (h : ∀ l ∈ stars, l ∈ Scan.lexemes cs ∧ l.kind = .multiply) :
    texts stars = List.replicate stars.length '*' := by
  induction stars with
  | nil => rfl
  | cons l stars ih =>
    obtain ⟨⟨hl, hkind⟩, hstars⟩ := List.forall_mem_cons.mp h
    rw [texts_cons, text_of_star hl hkind, ih hstars, List.length_cons, List.replicate_succ]
    rfl

section Texts

open Wildcard

variable {text : String} {front left core right run rest : List Lexeme} {l : Lexeme}

/-- What becomes of a run of the scan is found among the lexemes of the text. -/
theorem mem_lex_of_mem_joined (hraw : Scan.lexemes text.toList = front ++ (run ++ rest))
    (h : IsRun front run rest)
    (hl : l ∈ joined (front.map (·.kind)).reverse run (rest.head?.map (·.kind))) :
    l ∈ lex text := by
  obtain ⟨us, vs, heq⟩ := joinRuns_around [] h
  rw [List.append_nil] at heq
  rw [lex, hraw, heq]
  exact List.mem_append_right us (List.mem_append_left vs hl)

/-- A field pattern of a text has become one from a stretch of the scan that is written like it. -/
theorem exists_field_of_mem (h : l ∈ lex text) (hkind : l.kind = .wildcardField) :
    ∃ front left core right rest,
      Scan.lexemes text.toList = front ++ ((left ++ (core ++ right)) ++ rest) ∧
      Field front left core right rest ∧ ¬Multiplies front left ∧
      l = join (left ++ (core ++ right)) (Text.width (texts front)) := by
  obtain ⟨hraw, -⟩ | ⟨front, run, rest, hraw, hrun, hmem⟩ := exists_run_of_mem h
  · exact absurd hkind (Scan.ne_wildcardField_of_mem hraw)
  · rw [List.append_nil, joined] at hmem
    split at hmem
    · next hpattern =>
      obtain ⟨left, core, right, rfl, hfield, hproduct⟩ := (isPattern_iff hrun.parts).mp hpattern
      rw [Scan.start_eq hraw hrun.ne_nil, List.mem_singleton] at hmem
      exact ⟨front, left, core, right, rest, hraw, hfield, hproduct, hmem⟩
    · -- the parts of a run are no field patterns
      have hpart := hrun.parts l hmem
      rw [hkind] at hpart
      cases hpart

/-- A stretch that is written like a field pattern reads as stars around something without them. -/
theorem Wildcard.Field.reads (h : Field front left core right rest)
    (hraw : Scan.lexemes text.toList = front ++ ((left ++ (core ++ right)) ++ rest)) :
    texts (left ++ (core ++ right)) = List.replicate left.length '*' ++ texts core ++
      List.replicate right.length '*' ∧ '*' ∉ texts core := by
  have hmem {l : Lexeme} (hl : l ∈ left ++ (core ++ right)) : l ∈ Scan.lexemes text.toList := by
    rw [hraw]
    exact List.mem_append_right _ (List.mem_append_left _ hl)
  have hleft := Scan.texts_stars fun l (hl : l ∈ left) =>
    ⟨hmem (List.mem_append_left _ hl), h.starsBefore l hl⟩
  have hright := Scan.texts_stars fun l (hl : l ∈ right) =>
    ⟨hmem (List.mem_append_right _ (List.mem_append_right _ hl)), h.starsAfter l hl⟩
  refine ⟨by rw [texts_append, texts_append, hleft, hright, List.append_assoc], fun hstar => ?_⟩
  obtain ⟨l, hl, hstar⟩ := List.mem_flatMap.mp hstar
  have hlraw := hmem (List.mem_append_right _ (List.mem_append_left right hl))
  exact (h.names l hl).star_not_mem hlraw hstar

/-- A stretch that is written like a field pattern and multiplies nothing becomes one. -/
theorem Wildcard.Field.join_mem_lex (h : Field front left core right rest)
    (hraw : Scan.lexemes text.toList = front ++ ((left ++ (core ++ right)) ++ rest))
    (hproduct : ¬Multiplies front left) :
    join (left ++ (core ++ right)) (Text.width (texts front)) ∈ lex text := by
  have hpattern := (isPattern_iff h.isRun.parts).mpr ⟨left, core, right, rfl, h, hproduct⟩
  refine mem_lex_of_mem_joined hraw h.isRun ?_
  rw [joined, if_pos hpattern, Scan.start_eq hraw h.isRun.ne_nil]
  exact List.mem_singleton_self _

/-- A star between two words or numbers is left as it is. -/
theorem star_mem_lex {a b s : Lexeme} {stars : List Lexeme}
    (hraw : Scan.lexemes text.toList = front ++ ((a :: (stars ++ [b])) ++ rest)) (ha : IsName a)
    (hb : IsName b) (hstars : ∀ l ∈ stars, l.kind = .multiply) (hs : s ∈ stars) : s ∈ lex text := by
  have hparts : ∀ l ∈ a :: (stars ++ [b]), isPart l.kind = true := by
    refine List.forall_mem_cons.mpr ⟨ha.isPart, fun l hl => isPart_iff.mpr ?_⟩
    rcases List.mem_append.mp hl with hl | hl
    · exact .inr (hstars l hl)
    · rw [List.mem_singleton.mp hl]
      exact .inl hb
  obtain ⟨far, near, next, last, rfl, rfl, hrun⟩ :=
    exists_run_around front rest (List.cons_ne_nil a _) hparts
  have hends : starsAtEnds ((near ++ ((a :: (stars ++ [b])) ++ next)).map (·.kind)) = false := by
    have heq : near ++ ((a :: (stars ++ [b])) ++ next) = near ++ (a :: (stars ++ b :: next)) := by
      simp
    rw [heq]
    exact not_starsAtEnds ha.ne_multiply hb.ne_multiply hs (hstars s hs)
  have hsplit : Scan.lexemes text.toList =
      far ++ ((near ++ ((a :: (stars ++ [b])) ++ next)) ++ last) := by
    rw [hraw]
    simp
  refine mem_lex_of_mem_joined hsplit hrun ?_
  rw [joined, isPattern, hends]
  simp [hs]

/-- **Field patterns are recognised exactly at word boundaries.** A field pattern among the lexemes
of a text stands for a stretch of what the scan gave, which is written like one and multiplies
nothing: it reads as so many stars, then words and numbers without a star, then so many stars. All
other lexemes are those of the scan, in order. Conversely every such stretch is one lexeme of the
text. A star between two words or numbers, by itself or among others, is left as it is. -/
theorem lex_wildcards (text : String) :
    (∀ w ∈ lex text, w.kind = .wildcardField → ∃ front left core right rest,
      Scan.lexemes text.toList = front ++ ((left ++ (core ++ right)) ++ rest) ∧
      Field front left core right rest ∧ ¬Multiplies front left ∧
      w.start = Text.width (texts front) ∧
      w.text.toList = List.replicate left.length '*' ++ texts core ++
        List.replicate right.length '*' ∧
      '*' ∉ texts core) ∧
    ((lex text).filter (·.kind != .wildcardField)).Sublist (Scan.lexemes text.toList) ∧
    (∀ front left core right rest,
      Scan.lexemes text.toList = front ++ ((left ++ (core ++ right)) ++ rest) →
      Field front left core right rest → ¬Multiplies front left →
      join (left ++ (core ++ right)) (Text.width (texts front)) ∈ lex text) ∧
    (∀ front a stars b rest,
      Scan.lexemes text.toList = front ++ ((a :: (stars ++ [b])) ++ rest) →
      IsName a → IsName b → (∀ s ∈ stars, s.kind = .multiply) → ∀ s ∈ stars, s ∈ lex text) := by
  refine ⟨fun w hw hkind => ?_, filter_joinRuns [] _, ?_, ?_⟩
  · obtain ⟨front, left, core, right, rest, hraw, hfield, hproduct, rfl⟩ :=
      exists_field_of_mem hw hkind
    obtain ⟨hreads, hcore⟩ := hfield.reads hraw
    refine ⟨front, left, core, right, rest, hraw, hfield, hproduct, rfl, ?_, hcore⟩
    rw [join_texts, hreads]
  · intro front left core right rest hraw hfield hproduct
    exact hfield.join_mem_lex hraw hproduct
  · intro front a stars b rest hraw ha hb hstars s hs
    exact star_mem_lex hraw ha hb hstars hs

/-- In `host* b*c` the first star belongs to a field pattern and the second one does not. -/
theorem lex_wildcards_sample :
    (⟨.wildcardField, 0, "host*"⟩ : Lexeme) ∈ lex "host* b*c" ∧
      (⟨.multiply, 7, "*"⟩ : Lexeme) ∈ lex "host* b*c" := by
  obtain ⟨-, -, hfields, hstars⟩ := lex_wildcards "host* b*c"
  have hraw : Scan.lexemes "host* b*c".toList = [⟨.identifier, 0, "host"⟩, ⟨.multiply, 4, "*"⟩,
      ⟨.whitespace, 5, " "⟩, ⟨.identifier, 6, "b"⟩, ⟨.multiply, 7, "*"⟩,
      ⟨.identifier, 8, "c"⟩] := by
    decide +kernel
  constructor
  · exact hfields [] [] [⟨.identifier, 0, "host"⟩] [⟨.multiply, 4, "*"⟩] _ hraw
      ⟨by decide, by simp [IsName, Kind.isWord], by decide, by decide, by decide, by decide,
        by decide⟩ fun h => h.1 rfl
  · exact hstars [⟨.identifier, 0, "host"⟩, ⟨.multiply, 4, "*"⟩, ⟨.whitespace, 5, " "⟩]
      ⟨.identifier, 6, "b"⟩ [⟨.multiply, 7, "*"⟩] ⟨.identifier, 8, "c"⟩ [] hraw (.inl rfl)
      (.inl rfl) (by decide) _ List.mem_cons_self

/-- A star in front multiplies behind an operand, and otherwise does not. -/
example : (lex "a *b (*b").map (·.text) = ["a", " ", "*", "b", " ", "(", "*b"] := by
  decide +kernel

end Texts

end SplQuery

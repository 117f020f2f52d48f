import SplQuery.Proofs.Lexeme.Freestanding
import SplQuery.Proofs.Lexeme.Longest
import SplQuery.Proofs.Lexeme.Partition
import SplQuery.Proofs.Steps.State

/-!
# Cutting a text at a pipe

What comes before a pipe is cut in the same way when the text ends there, and what comes after it is
cut in the same way when the text begins with the pipe.

* `Scan.pieces_of_append` — the pieces at the beginning and at the end of a text, by themselves.
* `Wildcard.joinRuns_split`, `Wildcard.joinRuns_after_pipe` — field patterns on both sides.
* `lex_before_pipe`, `lex_from_pipe` — the lexemes of the two texts.
-/

namespace SplQuery

open Rule

/-! ## The scan of a shorter text -/

namespace Scan

/-- A scan that ends where it stands gives the match that it has. -/
theorem answer_of_longest {live : List Rule} {best : Option (Nat × Kind)} {count n : Nat}
    {s : List Char} {kind? : Option Kind} (h : longest live best count s = (kind?, n))
    (hn : n ≤ count) : longest.answer best count = (kind?, n) := by
  induction s generalizing live best count with
  | nil => exact h
  | cons c s ih =>
    by_cases hlive : advance live c = []
    · rwa [longest_of_advance_eq_nil _ _ hlive] at h
    · rw [longest_cons _ _ hlive] at h
      have hnext := ih h (Nat.le_succ_of_le hn)
      -- a match at the next character, or an answer without a match there, is too long
      cases hone : kindOf? live [c] with
      | some k =>
        rw [hone] at hnext
        cases hnext
        exact absurd hn (Nat.not_succ_le_self count)
      | none =>
        rw [hone, Option.map_none, Option.none_or] at hnext
        cases best with
        | some b => exact hnext
        | none =>
          cases hnext
          exact absurd hn (Nat.not_succ_le_self count)

/-- What a scan finds it also finds where the text ends behind it. -/
theorem longest_prefix {live : List Rule} {best : Option (Nat × Kind)} {count n : Nat}
    {w s : List Char} {kind? : Option Kind} (h : longest live best count (w ++ s) = (kind?, n))
    (hn : n ≤ count + w.length) : longest live best count w = (kind?, n) := by
  induction w generalizing live best count with
  | nil => exact answer_of_longest h hn
  | cons c w ih =>
    rw [List.cons_append] at h
    by_cases hlive : advance live c = []
    · rwa [longest_of_advance_eq_nil _ _ hlive] at h ⊢
    · rw [longest_cons _ _ hlive] at h ⊢
      rw [List.length_cons] at hn
      exact ih h (by omega)

/-- The first piece of a text is that of what the text begins with, if it lies within it. -/
theorem firstPiece_prefix {c : Char} {w s : List Char}
    (h : (firstPiece c (w ++ s)).2 ≤ w.length) : firstPiece c w = firstPiece c (w ++ s) := by
  rcases hfound : longest Rule.all none 0 (c :: (w ++ s)) with ⟨kind?, n⟩
  have hfirst : firstPiece c (w ++ s) = (kind?, n - 1) := by rw [firstPiece, hfound]
  rw [hfirst] at h ⊢
  have hlength : n ≤ 0 + (c :: w).length := by
    rw [List.length_cons]
    omega
  rw [firstPiece, longest_prefix (w := c :: w) hfound hlength]

/-- Some of the pieces of a text, from its beginning on, are those of a text themselves, and so are
the others. -/
theorem pieces_of_append {cs : List Char} {ps qs : List Piece} (h : pieces cs = ps ++ qs) :
    pieces (ps.flatMap (·.text)) = ps ∧ pieces (qs.flatMap (·.text)) = qs := by
  have hcs : cs = ps.flatMap (·.text) ++ qs.flatMap (·.text) := by
    rw [← List.flatMap_append, ← h, pieces_texts]
  induction ps generalizing cs with
  | nil =>
    rw [List.nil_append] at h
    refine ⟨by rw [List.flatMap_nil, pieces], ?_⟩
    rw [← h, pieces_texts]
  | cons p ps ih =>
    cases cs with
    | nil =>
      rw [pieces] at h
      cases h
    | cons c cs =>
      rcases hfirst : firstPiece c cs with ⟨kind?, extra⟩
      rw [pieces, hfirst, List.cons_append] at h
      obtain ⟨rfl, hrest⟩ := List.cons.inj h
      have htexts : cs.drop extra = ps.flatMap (·.text) ++ qs.flatMap (·.text) := by
        rw [← List.flatMap_append, ← hrest, pieces_texts]
      obtain ⟨hps, hqs⟩ := ih hrest htexts
      refine ⟨?_, hqs⟩
      rw [List.flatMap_cons, List.cons_append, pieces]
      have hsplit : cs = cs.take extra ++ ps.flatMap (·.text) ++ qs.flatMap (·.text) := by
        rw [List.append_assoc, ← htexts, List.take_append_drop]
      by_cases hlong : extra ≤ cs.length
      · have hlength : (cs.take extra).length = extra := List.length_take_of_le hlong
        have hsame : firstPiece c (cs.take extra ++ ps.flatMap (·.text)) = (kind?, extra) := by
          rw [← hfirst]
          conv_rhs => rw [hsplit]
          refine firstPiece_prefix ?_
          rw [← hsplit, hfirst, List.length_append, hlength]
          exact Nat.le_add_right _ _
        rw [hsame]
        simp only [List.take_left' hlength, List.drop_left' hlength, hps]
      · -- the first piece is the whole text, and there are no others
        have hshort : cs.length ≤ extra := Nat.le_of_not_le hlong
        rw [List.drop_eq_nil_of_le hshort, pieces] at hrest
        obtain ⟨rfl, rfl⟩ := List.append_eq_nil_iff.mp hrest.symm
        rw [List.flatMap_nil, List.append_nil, List.take_of_length_le hshort, hfirst]
        simp only [List.take_of_length_le hshort, List.drop_eq_nil_of_le hshort, pieces]

/-- The kind of a piece is that which the rules give to its text. -/
theorem longest_kind {live : List Rule} {best : Option (Nat × Kind)} {count n : Nat}
    {s : List Char} {k : Kind} (h : longest live best count s = (some k, n)) :
    best = some (n, k) ∨ ∃ w u, s = w ++ u ∧ n = count + w.length ∧ kindOf? live w = some k := by
  induction s generalizing live best count with
  | nil =>
    cases best with
    | none => cases h
    | some b =>
      cases h
      exact .inl rfl
  | cons c s ih =>
    by_cases hlive : advance live c = []
    · rw [longest_of_advance_eq_nil _ _ hlive] at h
      cases best with
      | none => cases h
      | some b =>
        cases h
        exact .inl rfl
    · rw [longest_cons _ _ hlive] at h
      obtain hbest | ⟨w, u, rfl, rfl, hk⟩ := ih h
      · cases hone : kindOf? live [c] with
        | none =>
          rw [hone, Option.map_none, Option.none_or] at hbest
          exact .inl hbest
        | some l =>
          rw [hone] at hbest
          cases hbest
          exact .inr ⟨[c], s, rfl, rfl, hone⟩
      · rw [kindOf?_advance] at hk
        exact .inr ⟨c :: w, u, rfl, by rw [List.length_cons]; omega, hk⟩

theorem kindOf?_of_mem_pieces {cs : List Char} {k : Kind} {w : List Char}
    (h : (⟨some k, w⟩ : Piece) ∈ pieces cs) : kindOf? Rule.all w = some k := by
  induction cs using pieces.induct with
  | case1 =>
    rw [pieces] at h
    cases h
  | case2 c cs kind? extra hfirst ih =>
    rw [pieces, hfirst] at h
    rcases List.mem_cons.mp h with heq | h
    · obtain ⟨rfl, rfl⟩ := Piece.mk.inj heq
      rcases hfound : longest Rule.all none 0 (c :: cs) with ⟨found, n⟩
      rw [firstPiece, hfound] at hfirst
      obtain ⟨rfl, rfl⟩ := Prod.mk.inj hfirst
      obtain hnone | ⟨w, u, hw, rfl, hk⟩ := longest_kind hfound
      · cases hnone
      · cases w with
        | nil =>
          rw [kindOf?_nil] at hk
          cases hk
        | cons d w =>
          obtain ⟨rfl, hcs⟩ := List.cons.inj hw
          have hlength : 0 + (c :: w).length - 1 = w.length := by
            rw [List.length_cons]
            omega
          have htake : cs.take w.length = w := hcs ▸ List.take_left
          rwa [hlength, htake]
    · exact ih h

/-! ## Garbage -/

theorem addPiece_none_of_ne {l : Kind} {v text : List Char} {gs : List (Kind × List Char)}
    (hl : l ≠ .garbage) :
    addPiece ⟨none, text⟩ ((l, v) :: gs) = (.garbage, text) :: (l, v) :: gs := by
  unfold addPiece
  split
  · next h => cases h
  · next h => exact absurd (Prod.mk.inj (List.cons.inj h).1).1 hl
  · rfl

/-- What is no garbage is one piece, and garbage is joined on both sides of it. -/
theorem foldr_addPiece_of_append {ps : List Piece} {es fs : List (Kind × List Char)} {k : Kind}
    {w : List Char} (hk : k ≠ .garbage) (h : ps.foldr addPiece [] = es ++ (k, w) :: fs) :
    ∃ qs rs, ps = qs ++ ⟨some k, w⟩ :: rs ∧ qs.foldr addPiece [] = es ∧
      rs.foldr addPiece [] = fs := by
  induction ps generalizing es with
  | nil => exact absurd h.symm (by simp)
  | cons p ps ih =>
    obtain ⟨kind?, text⟩ := p
    rw [List.foldr_cons] at h
    cases kind? with
    | some l =>
      change (l, text) :: ps.foldr addPiece [] = _ at h
      cases es with
      | nil =>
        obtain ⟨hp, hfs⟩ := List.cons.inj h
        obtain ⟨rfl, rfl⟩ := Prod.mk.inj hp
        exact ⟨[], ps, rfl, rfl, hfs⟩
      | cons e es =>
        obtain ⟨rfl, hes⟩ := List.cons.inj h
        obtain ⟨qs, rs, rfl, hqs, hrs⟩ := ih hes
        exact ⟨⟨some l, text⟩ :: qs, rs, rfl, by rw [List.foldr_cons, hqs]; rfl, hrs⟩
    | none =>
      -- garbage in front is joined with what follows in the same way
      obtain ⟨gs, hgs, hadd⟩ : ∃ gs, ps.foldr addPiece [] = gs ++ (k, w) :: fs ∧
          addPiece ⟨none, text⟩ gs = es := by
        cases hps : ps.foldr addPiece [] with
        | nil =>
          rw [hps] at h
          cases es with
          | nil => exact absurd (Prod.mk.inj (List.cons.inj h).1).1.symm hk
          | cons e es => exact absurd (List.cons.inj h).2.symm (by simp)
        | cons g gs =>
          obtain ⟨l, v⟩ := g
          rw [hps] at h
          by_cases hl : l = .garbage
          · subst hl
            cases es with
            | nil => exact absurd (Prod.mk.inj (List.cons.inj h).1).1.symm hk
            | cons e es =>
              obtain ⟨rfl, hes⟩ := List.cons.inj h
              exact ⟨(.garbage, v) :: es, by rw [hes]; rfl, rfl⟩
          · rw [addPiece_none_of_ne hl] at h
            cases es with
            | nil => exact absurd (Prod.mk.inj (List.cons.inj h).1).1.symm hk
            | cons e es =>
              obtain ⟨rfl, hes⟩ := List.cons.inj h
              refine ⟨es, hes, ?_⟩
              cases es with
              | nil => rfl
              | cons e es =>
                obtain ⟨rfl, -⟩ := List.cons.inj hes
                exact addPiece_none_of_ne hl
      obtain ⟨qs, rs, rfl, hqs, hrs⟩ := ih hgs
      exact ⟨⟨none, text⟩ :: qs, rs, rfl, by rw [List.foldr_cons, hqs, hadd], hrs⟩
/-! ## Places -/

/-- Lexemes up to a place and after it, from those of all that was cut. -/
theorem placeAll_split {start : Nat} {es : List (Kind × List Char)} {us vs : List Lexeme}
    {l : Lexeme} (h : placeAll start es = us ++ l :: vs) :
    ∃ fs w gs, es = fs ++ (l.kind, w) :: gs ∧ us = placeAll start fs ∧
      l :: vs = placeAll (start + Text.width (fs.flatMap (·.2))) ((l.kind, w) :: gs) := by
  induction es generalizing start us with
  | nil => exact absurd h.symm (by simp [placeAll])
  | cons e es ih =>
    obtain ⟨kind, text⟩ := e
    rw [placeAll] at h
    cases us with
    | nil =>
      obtain ⟨rfl, rfl⟩ := List.cons.inj h
      exact ⟨[], text, es, rfl, rfl, rfl⟩
    | cons u us =>
      obtain ⟨rfl, hrest⟩ := List.cons.inj h
      obtain ⟨fs, w, gs, rfl, rfl, hvs⟩ := ih hrest
      refine ⟨(kind, text) :: fs, w, gs, rfl, rfl, ?_⟩
      rw [List.flatMap_cons, Text.width_append, ← Nat.add_assoc]
      exact hvs

/-- What is no garbage is a piece. -/
theorem pieces_of_mem_lexemes {cs : List Char} {l : Lexeme} (h : l ∈ lexemes cs)
    (hkind : l.kind ≠ .garbage) :
    ∃ ps qs, pieces cs = ps ++ ⟨some l.kind, l.text.toList⟩ :: qs ∧
      l.start = Text.width (ps.flatMap (·.text)) := by
  obtain ⟨us, vs, hsplit⟩ := List.append_of_mem h
  obtain ⟨fs, w, gs, hes, -, hl⟩ := placeAll_split hsplit
  obtain ⟨ps, qs, hpieces, hps, -⟩ := foldr_addPiece_of_append hkind hes
  obtain ⟨hl, -⟩ := List.cons.inj hl
  have htext : l.text.toList = w := by rw [hl, String.toList_ofList]
  have hstart : l.start = Text.width (ps.flatMap (·.text)) := by
    rw [hl, ← foldr_addPiece_texts, hps, Nat.zero_add]
  exact ⟨ps, qs, htext ▸ hpieces, hstart⟩

end Scan

namespace Lexeme

/-- The lexeme at the beginning of a text. -/
def unplaced (l : Lexeme) : Lexeme := ⟨l.kind, 0, l.text⟩

theorem map_entry_of_unplaced {ls ms : List Lexeme} (h : ls.map unplaced = ms.map unplaced) :
    ls.map entry = ms.map entry := by
  have hentry : entry = entry ∘ unplaced := rfl
  rw [hentry, ← List.map_map, h, List.map_map]

/-- The text that lexemes make up. -/
def textOf (ls : List Lexeme) : String := String.join (ls.map (·.text))

theorem toList_textOf (ls : List Lexeme) : (textOf ls).toList = texts ls := by
  induction ls with
  | nil => rfl
  | cons l ls ih => rw [textOf, List.map_cons, String.join_cons, String.toList_append, texts_cons,
      ← ih, textOf]

end Lexeme

theorem Scan.unplaced_placeAll (start : Nat) (es : List (Kind × List Char)) :
    (placeAll start es).map Lexeme.unplaced = es.map fun e => ⟨e.1, 0, String.ofList e.2⟩ := by
  induction es generalizing start with
  | nil => rfl
  | cons e es ih =>
    obtain ⟨kind, text⟩ := e
    rw [placeAll, List.map_cons, ih, List.map_cons]
    rfl

/-! ## Field patterns -/

namespace Wildcard

open Lexeme

/-- What a run becomes. -/
def joined (before : List Kind) (run : List Lexeme) (after : Option Kind) : List Lexeme :=
  if isPattern before (run.map (·.kind)) after then [join run (run.head?.elim 0 (·.start))] else run

/-- Lexemes are runs with other lexemes between them. -/
theorem runs_induction {motive : List Kind → List Lexeme → Prop} (nil : ∀ before, motive before [])
    (run : ∀ before run rest, run ≠ [] → (∀ l ∈ run, isPart l.kind = true) →
      (∀ l ∈ rest.head?, isPart l.kind = false) →
      motive ((run.map (·.kind)).reverse ++ before) rest → motive before (run ++ rest))
    (other : ∀ before l ls, isPart l.kind = false → motive (l.kind :: before) ls →
      motive before (l :: ls))
    (before : List Kind) (ls : List Lexeme) : motive before ls := by
  induction before, ls using joinRuns.induct with
  | case1 before => exact nil before
  | case2 before l ls hpart here rest kinds ih =>
    have hsplit : l :: ls = here ++ rest := by
      rw [List.cons_append, List.takeWhile_append_dropWhile]
    rw [hsplit]
    refine run before here rest (List.cons_ne_nil _ _) ?_ ?_ ih
    · exact List.forall_mem_cons.mpr
        ⟨hpart, fun m hm => List.all_eq_true.mp List.all_takeWhile m hm⟩
    · intro m hm
      have hnot := List.head?_dropWhile_not (isPart ·.kind) ls
      rwa [show (ls.dropWhile (isPart ·.kind)).head? = some m from hm] at hnot
  | case3 before l ls hpart ih => exact other before l ls (Bool.eq_false_iff.mpr hpart) ih

theorem joinRuns_run {before : List Kind} {run rest : List Lexeme} (hne : run ≠ [])
    (hrun : ∀ l ∈ run, isPart l.kind = true) (hrest : ∀ l ∈ rest.head?, isPart l.kind = false) :
    joinRuns before (run ++ rest) = joined before run (rest.head?.map (·.kind)) ++
      joinRuns ((run.map (·.kind)).reverse ++ before) rest := by
  obtain ⟨l, ls, rfl⟩ := List.exists_cons_of_ne_nil hne
  obtain ⟨hl, hls⟩ := List.forall_mem_cons.mp hrun
  have htake : (ls ++ rest).takeWhile (isPart ·.kind) = ls := by
    rw [List.takeWhile_append_of_pos hls]
    cases rest with
    | nil => exact List.append_nil ls
    | cons m rest => rw [List.takeWhile_cons_of_neg (by simp [hrest m rfl]), List.append_nil]
  have hdrop : (ls ++ rest).dropWhile (isPart ·.kind) = rest := by
    have hboth := List.takeWhile_append_dropWhile (p := (isPart ·.kind)) (l := ls ++ rest)
    rw [htake] at hboth
    exact List.append_cancel_left hboth
  rw [List.cons_append, joinRuns, if_pos hl]
  simp only [htake, hdrop]
  rfl

theorem joinRuns_other {before : List Kind} {l : Lexeme} (ls : List Lexeme)
    (h : isPart l.kind = false) :
    joinRuns before (l :: ls) = l :: joinRuns (l.kind :: before) ls := by
  rw [joinRuns, if_neg (Bool.eq_false_iff.mp h)]

/-! ### What stands before a run -/

/-- Kinds, nearest first, before which a run becomes the same: the nearest one opens a field pattern
in both or in neither, and the nearest one that is no trivia is the same. -/
def SameContext (before before' : List Kind) : Prop :=
  before.head?.all opensBefore = before'.head?.all opensBefore ∧
    before.find? (!·.isTrivia) = before'.find? (!·.isTrivia)

section SameContext

variable {before before' : List Kind}

theorem SameContext.append (h : SameContext before before') (near : List Kind) :
    SameContext (near ++ before) (near ++ before') := by
  refine ⟨?_, by rw [List.find?_append, List.find?_append, h.2]⟩
  cases near with
  | nil => exact h.1
  | cons k near => rfl

theorem joined_congr (h : SameContext before before') (run : List Lexeme) (after : Option Kind) :
    joined before run after = joined before' run after := by
  rw [joined, joined, isPattern, isPattern, h.1, h.2]

/-- What stands before lexemes matters to them no further than to a run. -/
theorem joinRuns_congr (h : SameContext before before') (ls : List Lexeme) :
    joinRuns before ls = joinRuns before' ls := by
  induction before, ls using runs_induction generalizing before' with
  | nil before => rw [joinRuns, joinRuns]
  | run before run rest hne hrun hrest ih =>
    rw [joinRuns_run hne hrun hrest, joinRuns_run hne hrun hrest, joined_congr h, ih (h.append _)]
  | other before l ls hl ih =>
    rw [joinRuns_other ls hl, joinRuns_other ls hl]
    exact congrArg (l :: ·) (ih (h.append [l.kind]))

end SameContext

/-! ### On both sides of a pipe -/

/-- What stands before a pipe does not matter to what comes after it. -/
theorem joinRuns_after_pipe (near far : List Kind) (ls : List Lexeme) :
    joinRuns (near ++ Kind.pipe :: far) ls = joinRuns (near ++ [Kind.pipe]) ls := by
  have hpipe : SameContext (Kind.pipe :: far) [Kind.pipe] := ⟨rfl, rfl⟩
  exact joinRuns_congr (hpipe.append near) ls

/-- The end of a run is the end of a text or of what stands before a pipe. -/
theorem joined_before_pipe (before : List Kind) (run : List Lexeme) :
    joined before run (some .pipe) = joined before run none := rfl

theorem kind_of_mem_joined {before : List Kind} {run : List Lexeme} {after : Option Kind}
    (hrun : ∀ l ∈ run, isPart l.kind = true) : ∀ l ∈ joined before run after, l.kind ≠ .pipe := by
  rw [joined]
  split
  · exact List.forall_mem_singleton.mpr (by decide : Kind.wildcardField ≠ .pipe)
  · intro l hl hpipe
    have hpart := hrun l hl
    rw [hpipe] at hpart
    cases hpart

/-- On both sides of a pipe field patterns are found by themselves. -/
theorem joinRuns_split {before : List Kind} {ls xs ys : List Lexeme} {p : Lexeme}
    (hp : p.kind = .pipe) (h : joinRuns before ls = xs ++ p :: ys) :
    ∃ us vs, ls = us ++ p :: vs ∧ joinRuns before us = xs ∧ joinRuns [Kind.pipe] vs = ys := by
  induction before, ls using runs_induction generalizing xs with
  | nil before =>
    rw [joinRuns] at h
    exact absurd h.symm (by simp)
  | run before run rest hne hrun hrest ih =>
    rw [joinRuns_run hne hrun hrest] at h
    -- the pipe is not in what the run becomes
    obtain ⟨xs, rfl, hxs⟩ : ∃ xs', xs = joined before run (rest.head?.map (·.kind)) ++ xs' ∧
        joinRuns ((run.map (·.kind)).reverse ++ before) rest = xs' ++ p :: ys := by
      obtain ⟨zs, hzs, hys⟩ | ⟨zs, hzs, hys⟩ := List.append_eq_append_iff.mp h
      · exact ⟨zs, hzs, hys⟩
      · cases zs with
        | nil => exact ⟨[], by rw [hzs, List.append_nil, List.append_nil], hys.symm⟩
        | cons z zs =>
          obtain ⟨rfl, -⟩ := List.cons.inj hys
          have hmem : p ∈ joined before run (rest.head?.map (·.kind)) := by
            rw [hzs]
            exact List.mem_append_right _ List.mem_cons_self
          exact absurd hp (kind_of_mem_joined hrun p hmem)
    obtain ⟨us, vs, rfl, hus, hvs⟩ := ih hxs
    refine ⟨run ++ us, vs, (List.append_assoc _ _ _).symm, ?_, hvs⟩
    cases us with
    | nil =>
      rw [joinRuns_run hne hrun (fun l hl => by cases hl), hus, List.nil_append, List.head?_cons,
        Option.map_some, hp, joined_before_pipe]
      rfl
    | cons u us =>
      have hnext : ∀ l ∈ (u :: us).head?, isPart l.kind = false := hrest
      rw [joinRuns_run hne hrun hnext, hus]
      rfl
  | other before l ls hl ih =>
    rw [joinRuns_other ls hl] at h
    cases xs with
    | nil =>
      obtain ⟨rfl, hys⟩ := List.cons.inj h
      refine ⟨[], ls, rfl, by rw [joinRuns], ?_⟩
      rw [← hys, hp]
      exact (joinRuns_after_pipe [] before ls).symm
    | cons x xs =>
      obtain ⟨rfl, hrest⟩ := List.cons.inj h
      obtain ⟨us, vs, rfl, hus, hvs⟩ := ih hrest
      exact ⟨l :: us, vs, rfl, by rw [joinRuns_other us hl, hus], hvs⟩

/-! ### Places -/

theorem unplaced_joined (before : List Kind) (run : List Lexeme) (after : Option Kind) :
    (joined before run after).map unplaced = joined before (run.map unplaced) after := by
  have hkinds : (run.map unplaced).map (·.kind) = run.map (·.kind) := by
    rw [List.map_map]
    rfl
  have htexts : (run.map unplaced).map (·.text) = run.map (·.text) := by
    rw [List.map_map]
    rfl
  rw [joined, joined, hkinds]
  split
  · rw [List.map_singleton, join, join, htexts]
    cases run <;> rfl
  · rfl

/-- Places do not matter to the joining. -/
theorem unplaced_joinRuns (before : List Kind) (ls : List Lexeme) :
    (joinRuns before ls).map unplaced = joinRuns before (ls.map unplaced) := by
  induction before, ls using runs_induction with
  | nil before => rw [List.map_nil, joinRuns, List.map_nil]
  | run before run rest hne hrun hrest ih =>
    have hparts : ∀ l ∈ run.map unplaced, isPart l.kind = true := List.forall_mem_map.mpr hrun
    have hother : ∀ l ∈ (rest.map unplaced).head?, isPart l.kind = false := by
      rw [List.head?_map]
      intro l hl
      obtain ⟨m, hm, rfl⟩ := Option.map_eq_some_iff.mp hl
      exact hrest m hm
    rw [joinRuns_run hne hrun hrest, List.map_append, List.map_append, ih, unplaced_joined,
      joinRuns_run (by simpa using hne) hparts hother, List.head?_map, Option.map_map, List.map_map]
    rfl
  | other before l ls hl ih =>
    rw [joinRuns_other ls hl, List.map_cons, List.map_cons, ih,
      joinRuns_other (l := l.unplaced) _ hl]
    rfl

end Wildcard

/-! ## Texts -/

section Texts

open Scan Lexeme

variable {text : String} {xs ys : List Lexeme} {p : Lexeme}

/-- A pipe is written in one way. -/
theorem eq_of_kindOf?_pipe {w : List Char} (h : kindOf? Rule.all w = some .pipe) : w = ['|'] := by
  obtain ⟨r, hr, hadmits⟩ := exists_of_kindOf? h
  have hrules : Rule.all.filter (·.kind == .pipe) = [⟨.text "|", .pipe⟩] := rfl
  rw [hrules, List.mem_singleton] at hr
  rw [hr, Form.admits_text_iff] at hadmits
  exact hadmits

/-- A pipe is found among the pieces of a text. -/
theorem pieces_at_pipe (h : lex text = xs ++ p :: ys) (hp : p.kind = .pipe) :
    ∃ ps qs us vs n, pieces text.toList = ps ++ ⟨some .pipe, ['|']⟩ :: qs ∧
      placeAll 0 (ps.foldr addPiece []) = us ∧ Wildcard.joinRuns [] us = xs ∧
      p :: vs = placeAll n ((Kind.pipe, ['|']) :: qs.foldr addPiece []) ∧
      Wildcard.joinRuns [Kind.pipe] vs = ys := by
  obtain ⟨us, vs, hsplit, hus, hvs⟩ := Wildcard.joinRuns_split hp h
  obtain ⟨es, w, fs, hes, husPlaced, hvsPlaced⟩ := placeAll_split hsplit
  rw [hp] at hes hvsPlaced
  obtain ⟨ps, qs, hpieces, hps, hqs⟩ := foldr_addPiece_of_append (by decide) hes
  have hmem : (⟨some .pipe, w⟩ : Piece) ∈ pieces text.toList := by
    rw [hpieces]
    exact List.mem_append_right _ List.mem_cons_self
  obtain rfl : w = ['|'] := eq_of_kindOf?_pipe (kindOf?_of_mem_pieces hmem)
  exact ⟨ps, qs, us, vs, _, hpieces, by rw [hps, husPlaced], hus, by rw [hqs]; exact hvsPlaced, hvs⟩

/-- What comes before a pipe is cut in the same way when the text ends there. -/
theorem lex_before_pipe (h : lex text = xs ++ p :: ys) (hp : p.kind = .pipe) :
    lex (textOf xs) = xs := by
  obtain ⟨ps, qs, us, vs, n, hpieces, hus, hxs, -, -⟩ := pieces_at_pipe h hp
  obtain ⟨hps, -⟩ := pieces_of_append hpieces
  have htext : (textOf xs).toList = ps.flatMap (·.text) := by
    rw [toList_textOf, ← hxs, Wildcard.joinRuns_texts, ← hus, placeAll_texts, foldr_addPiece_texts]
  rw [lex, lexemes, htext, hps, hus, hxs]

/-- What comes after a pipe is cut in the same way when the text begins with the pipe. -/
theorem lex_from_pipe (h : lex text = xs ++ p :: ys) (hp : p.kind = .pipe) :
    (lex ("|" ++ textOf ys)).map entry = (p :: ys).map entry := by
  obtain ⟨ps, qs, us, vs, n, hpieces, -, -, hvs, hys⟩ := pieces_at_pipe h hp
  obtain ⟨-, hqs⟩ := pieces_of_append hpieces
  obtain ⟨hpEq, hvsEq⟩ := List.cons.inj hvs
  have htext : ("|" ++ textOf ys).toList =
      (⟨some .pipe, ['|']⟩ :: qs : List Piece).flatMap (·.text) := by
    rw [String.toList_append, toList_textOf, ← hys, Wildcard.joinRuns_texts, hvsEq, placeAll_texts,
      foldr_addPiece_texts, List.flatMap_cons]
    rfl
  have hlex : lex ("|" ++ textOf ys) = ⟨.pipe, 0, "|"⟩ ::
      Wildcard.joinRuns [Kind.pipe] (placeAll 1 (qs.foldr addPiece [])) := by
    rw [lex, lexemes, htext, hqs]
    exact Wildcard.joinRuns_other _ rfl
  have hrest : (Wildcard.joinRuns [Kind.pipe] (placeAll 1 (qs.foldr addPiece []))).map entry =
      ys.map entry := by
    refine map_entry_of_unplaced ?_
    rw [← hys, hvsEq, Wildcard.unplaced_joinRuns, Wildcard.unplaced_joinRuns, unplaced_placeAll,
      unplaced_placeAll]
  rw [hlex, List.map_cons, List.map_cons, hrest, hpEq]
  rfl

end Texts

end SplQuery

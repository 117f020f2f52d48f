import SplQuery.Proofs.Lexeme.Bounded
import SplQuery.Proofs.Lexeme.Pipes
import SplQuery.Proofs.Lexeme.Spaced
import SplQuery.Proofs.Lexeme.Tokens
import SplQuery.Proofs.Trivia.Transparent

/-!
# Stray characters

A character that no rule describes, put into white space, is one lexeme of garbage, and nothing
else changes: the scan finds the same pieces before the white space and after it, and the same
field patterns are joined.

* `Scan.pieces_before_blank` — the pieces before white space, whatever comes after it.
* `lex_stray` — the lexemes of a text with a stray character.
* `garbage_adds_one_error` — its tokens, errors and diagnostics.
-/

namespace SplQuery

open Rule Lexeme

namespace Scan

/-! ## The first piece -/

/-- A match that the scan finds is the longest: no longer stretch has a kind. -/
theorem longest_maximal {live : List Rule} {best : Option (Nat × Kind)} {count n : Nat}
    {s : List Char} {k : Kind} (h : longest live best count s = (some k, n)) :
    ∀ t u, t ≠ [] → s = t ++ u → n < count + t.length → kindOf? live t = none := by
  induction s generalizing live best count with
  | nil =>
    intro t u ht hs
    exact absurd (List.append_eq_nil_iff.mp hs.symm).1 ht
  | cons c s ih =>
    intro t u ht hs hn
    obtain ⟨d, t, rfl⟩ := List.exists_cons_of_ne_nil ht
    obtain ⟨rfl, hrest⟩ := List.cons.inj hs
    by_cases hlive : advance live c = []
    · rw [← kindOf?_advance, hlive]
      rfl
    · rw [longest_cons _ _ hlive] at h
      cases t with
      | nil =>
        cases hone : kindOf? live [c] with
        | none => rfl
        | some j =>
          -- a match of one character would not have been given up for a shorter one
          rw [hone] at h
          rw [List.length_singleton] at hn
          obtain hbest | ⟨w, -, -, hlength, -⟩ := longest_kind h
          · cases hbest
            exact absurd hn (Nat.lt_irrefl _)
          · omega
      | cons e t =>
        rw [← kindOf?_advance]
        rw [List.length_cons] at hn
        exact ih h (e :: t) u (List.cons_ne_nil e t) hrest (by omega)

/-- The scan that finds nothing has had no match. -/
theorem of_longest_none {live : List Rule} {best : Option (Nat × Kind)} {count n : Nat}
    {s : List Char} (h : longest live best count s = (none, n)) : best = none ∧ count ≤ n := by
  induction s generalizing live best count with
  | nil =>
    cases best with
    | none =>
      cases h
      exact ⟨rfl, Nat.le_refl _⟩
    | some b => cases h
  | cons c s ih =>
    by_cases hlive : advance live c = []
    · rw [longest_of_advance_eq_nil _ _ hlive] at h
      cases best with
      | none =>
        cases h
        exact ⟨rfl, Nat.le_refl _⟩
      | some b => cases h
    · rw [longest_cons _ _ hlive] at h
      obtain ⟨hbest, hn⟩ := ih h
      exact ⟨(Option.or_eq_none_iff.mp hbest).2, Nat.le_of_succ_le hn⟩

/-- The scan that finds nothing does not look past the character at which the last rule fails. -/
theorem longest_none_congr {live : List Rule} {best : Option (Nat × Kind)} {count : Nat}
    {w s : List Char} {d : Char}
    (h : longest live best count (w ++ d :: s) = (none, count + w.length)) (r : List Char) :
    longest live best count (w ++ d :: r) = (none, count + w.length) := by
  induction w generalizing live best count with
  | nil =>
    rw [List.nil_append] at h ⊢
    by_cases hlive : advance live d = []
    · rwa [longest_of_advance_eq_nil _ _ hlive] at h ⊢
    · rw [longest_cons _ _ hlive] at h
      exact absurd (of_longest_none h).2 (Nat.not_succ_le_self count)
  | cons c w ih =>
    rw [List.cons_append] at h ⊢
    by_cases hlive : advance live c = []
    · rwa [longest_of_advance_eq_nil _ _ hlive] at h ⊢
    · rw [longest_cons _ _ hlive] at h ⊢
      have hlength : count + (c :: w).length = count + 1 + w.length := by
        rw [List.length_cons]
        omega
      rw [hlength] at h ⊢
      exact ih h

/-- What the first piece of a text is. -/
theorem pieces_eq_cons {cs : List Char} {p : Piece} {ps : List Piece} (h : pieces cs = p :: ps) :
    ∃ s n, cs = p.text ++ s ∧ ps = pieces s ∧ p.text ≠ [] ∧
      longest Rule.all none 0 cs = (p.kind?, n) ∧ (s ≠ [] → p.text.length = max 1 n) := by
  cases cs with
  | nil =>
    rw [pieces_nil] at h
    cases h
  | cons c cs =>
    rcases hfound : longest Rule.all none 0 (c :: cs) with ⟨kind?, n⟩
    rw [pieces, firstPiece, hfound] at h
    obtain ⟨rfl, rfl⟩ := List.cons.inj h
    refine ⟨cs.drop (n - 1), n, ?_, rfl, List.cons_ne_nil _ _, rfl, fun hs => ?_⟩
    · rw [List.cons_append, List.take_append_drop]
    · have hlong : n - 1 < cs.length := by
        rwa [ne_eq, List.drop_eq_nil_iff, Nat.not_le] at hs
      rw [List.length_cons, List.length_take]
      omega

/-- The first piece of a text is the longest stretch that has a kind. -/
theorem pieces_maximal {w t v : List Char} {k : Kind} {ps : List Piece}
    (h : pieces (w ++ (t ++ v)) = ⟨some k, w⟩ :: ps) (ht : t ≠ []) :
    kindOf? Rule.all (w ++ t) = none := by
  obtain ⟨s, n, hs, -, hne, hfound, hlength⟩ := pieces_eq_cons h
  obtain rfl := List.append_cancel_left hs
  have hlength : w.length = max 1 n := hlength (List.append_ne_nil_of_left_ne_nil ht v)
  refine longest_maximal hfound (w ++ t) v (List.append_ne_nil_of_left_ne_nil hne t) ?_ ?_
  · rw [List.append_assoc]
  · have hpos := List.length_pos_iff.mpr ht
    rw [List.length_append, hlength]
    omega

/-- What the scan finds at the beginning of a text is its first piece. -/
theorem pieces_of_longest {w s : List Char} {kind? : Option Kind} {n : Nat}
    (h : longest Rule.all none 0 (w ++ s) = (kind?, n)) (hlength : w.length = max 1 n) :
    pieces (w ++ s) = ⟨kind?, w⟩ :: pieces s := by
  cases w with
  | nil =>
    rw [List.length_nil] at hlength
    omega
  | cons c w =>
    rw [List.cons_append] at h ⊢
    have hextra : w.length = n - 1 := by
      rw [List.length_cons] at hlength
      omega
    rw [pieces, firstPiece, h]
    simp only [List.take_left' hextra, List.drop_left' hextra]

/-! ## What comes after white space does not matter -/

/-- The first piece of a text in which white space comes after it does not depend on what follows
that. -/
theorem pieces_head_congr {p : Piece} {ps : List Piece} {u r : List Char} {b : Char}
    (hb : b ∈ blanks) (h : pieces (p.text ++ (u ++ b :: r)) = p :: ps) (r' : List Char) :
    pieces (p.text ++ (u ++ b :: r')) = p :: pieces (u ++ b :: r') := by
  obtain ⟨s, n, hs, -, hne, hfound, hlength⟩ := pieces_eq_cons h
  obtain rfl := List.append_cancel_left hs
  have hlength : p.text.length = max 1 n :=
    hlength (List.append_ne_nil_of_right_ne_nil u (List.cons_ne_nil b r))
  have hp : p ∈ pieces (p.text ++ (u ++ b :: r)) := by
    rw [h]
    exact List.mem_cons_self
  obtain ⟨kind?, w⟩ := p
  cases kind? with
  | some k =>
    have hk : kindOf? Rule.all w = some k := kindOf?_of_mem_pieces hp
    have hmax {t v : List Char} (hsplit : u ++ b :: r = t ++ v) (ht : t ≠ []) :
        kindOf? Rule.all (w ++ t) = none := by
      rw [hsplit] at h
      exact pieces_maximal h ht
    have hgrown : kindOf? Rule.all (w ++ (u ++ [b])) = none :=
      hmax (List.append_cons u b r) (by simp)
    refine pieces_append hne hk fun t v ht hsplit => ?_
    -- a longer stretch ends before the white space or holds its first character
    obtain ⟨x, rfl, hx⟩ | ⟨x, rfl, -⟩ := List.append_eq_append_iff.mp hsplit
    · cases x with
      | nil =>
        rw [List.append_nil]
        exact hmax rfl (by simpa using ht)
      | cons c x =>
        obtain ⟨rfl, -⟩ := List.cons.inj hx
        exact kindOf?_past_blank hb hk hgrown x
    · exact hmax (List.append_assoc t x _) ht
  | none =>
    obtain ⟨d, z, z', hz, hz'⟩ : ∃ d z z', u ++ b :: r = d :: z ∧ u ++ b :: r' = d :: z' := by
      cases u with
      | nil => exact ⟨b, r, r', rfl, rfl⟩
      | cons d u => exact ⟨d, u ++ b :: r, u ++ b :: r', rfl, rfl⟩
    refine pieces_of_longest ?_ hlength
    rw [hz] at hfound
    rw [hz']
    cases n with
    | zero =>
      -- no rule describes anything that begins like this
      obtain ⟨c, w, rfl⟩ := List.exists_cons_of_ne_nil hne
      exact longest_none_congr (w := []) hfound _
    | succ n =>
      have hn : 0 + w.length = n + 1 := by
        rw [Nat.zero_add]
        exact hlength.trans (Nat.max_eq_right (Nat.le_add_left 1 n))
      rw [← hn] at hfound ⊢
      exact longest_none_congr hfound z'

/-- The pieces before white space are the same whatever comes after its first character. -/
theorem pieces_before_blank {ps qs : List Piece} {r : List Char} {b : Char} (hb : b ∈ blanks)
    (h : pieces (ps.flatMap (·.text) ++ b :: r) = ps ++ qs) (r' : List Char) :
    pieces (ps.flatMap (·.text) ++ b :: r') = ps ++ pieces (b :: r') := by
  induction ps with
  | nil => rfl
  | cons p ps ih =>
    rw [List.flatMap_cons, List.append_assoc, List.cons_append] at h ⊢
    obtain ⟨s, -, hs, hps, -⟩ := pieces_eq_cons h
    obtain rfl := List.append_cancel_left hs
    rw [pieces_head_congr hb h r', ih hps.symm]

theorem pieces_before_white {ps qs : List Piece} {v r : List Char} (hne : v ≠ [])
    (hv : ∀ c ∈ v, c ∈ blanks) (h : pieces (ps.flatMap (·.text) ++ (v ++ r)) = ps ++ qs)
    (r' : List Char) :
    pieces (ps.flatMap (·.text) ++ (v ++ r')) = ps ++ pieces (v ++ r') := by
  obtain ⟨b, v, rfl⟩ := List.exists_cons_of_ne_nil hne
  exact pieces_before_blank (hv b List.mem_cons_self) h (v ++ r')

/-- What begins with a dollar sign has no kind. -/
theorem pieces_dollar (s : List Char) : pieces ('$' :: s) = ⟨none, ['$']⟩ :: pieces s := by
  have hdead : advance Rule.all '$' = [] := rfl
  have hfound : longest Rule.all none 0 ('$' :: s) = (none, 0) :=
    longest_of_advance_eq_nil _ _ hdead
  exact pieces_of_longest (w := ['$']) hfound rfl

/-- A dollar sign between blanks, in white space, cuts the white space and nothing else. -/
theorem pieces_stray {ps qs : List Piece} {w₁ w₂ : List Char}
    (h : pieces (ps.flatMap (·.text) ++ (w₁ ++ ' ' :: w₂ ++ qs.flatMap (·.text))) =
      ps ++ ⟨some .whitespace, w₁ ++ ' ' :: w₂⟩ :: qs) :
    pieces (ps.flatMap (·.text) ++ (w₁ ++ [' ', '$', ' '] ++ w₂ ++ qs.flatMap (·.text))) =
      ps ++ ⟨some .whitespace, w₁ ++ [' ']⟩ :: ⟨none, ['$']⟩ :: ⟨some .whitespace, ' ' :: w₂⟩ ::
        qs := by
  generalize hQ : qs.flatMap (·.text) = rest at h ⊢
  obtain ⟨-, hwhite⟩ := pieces_of_append h
  rw [List.flatMap_cons, hQ] at hwhite
  obtain ⟨s, -, hs, hqs, -⟩ := pieces_eq_cons hwhite
  obtain rfl := List.append_cancel_left hs
  have hkind : kindOf? Rule.all (w₁ ++ ' ' :: w₂) = some .whitespace :=
    kindOf?_of_mem_pieces (h ▸ List.mem_append_right _ List.mem_cons_self)
  have hblanks := blanks_of_whitespace hkind
  have hw₁ : ∀ c ∈ w₁ ++ [' '], c ∈ blanks := fun c hc => hblanks c (by
    simp only [List.mem_append, List.mem_cons, List.not_mem_nil, or_false] at hc ⊢
    tauto)
  have hw₂ : ∀ c ∈ ' ' :: w₂, c ∈ blanks := fun c hc => hblanks c (List.mem_append_right _ hc)
  have hrest : ∀ c ∈ rest.head?, c ∉ blanks := by
    intro c hc hblank
    obtain ⟨rest, rfl⟩ := List.head?_eq_some_iff.mp hc
    have hnone := pieces_maximal (t := [c]) hwhite (List.cons_ne_nil c [])
    rw [kindOf?_white (by simp)] at hnone
    · cases hnone
    · exact List.forall_mem_append.mpr ⟨hblanks, List.forall_mem_singleton.mpr hblank⟩
  have hold : w₁ ++ ' ' :: w₂ ++ rest = (w₁ ++ [' ']) ++ (w₂ ++ rest) := by simp
  have hnew : w₁ ++ [' ', '$', ' '] ++ w₂ ++ rest =
      (w₁ ++ [' ']) ++ '$' :: (' ' :: w₂ ++ rest) := by simp
  rw [hold] at h
  rw [hnew, pieces_before_white (by simp) hw₁ h, pieces_white (by simp) hw₁ (by simp; decide),
    pieces_dollar, pieces_white (List.cons_ne_nil _ _) hw₂ hrest, ← hqs]

/-! ## Garbage between white space -/

/-- What is no garbage parts what comes before it from what comes after it. -/
theorem foldr_addPiece_append (ps : List Piece) {k : Kind} (hk : k ≠ .garbage) (w : List Char)
    (es : List (Kind × List Char)) :
    ps.foldr addPiece ((k, w) :: es) = ps.foldr addPiece [] ++ (k, w) :: es := by
  induction ps with
  | nil => rfl
  | cons p ps ih =>
    rw [List.foldr_cons, List.foldr_cons, ih]
    obtain ⟨kind?, text⟩ := p
    cases kind? with
    | some l => rfl
    | none =>
      rcases ps.foldr addPiece [] with _ | ⟨⟨l, v⟩, fs⟩
      · exact addPiece_none_of_ne hk
      · by_cases hl : l = .garbage
        · subst hl
          rfl
        · rw [List.cons_append, addPiece_none_of_ne hl, addPiece_none_of_ne hl]
          rfl

end Scan

namespace Wildcard

/-- The lexemes before what ends a field pattern, and those after it, are joined by themselves. -/
theorem joinRuns_append {before : List Kind} {p : Lexeme} (us vs : List Lexeme)
    (hpart : isPart p.kind = false) (hafter : opensAfter p.kind = true) :
    joinRuns before (us ++ p :: vs) =
      joinRuns before us ++ p :: joinRuns (p.kind :: ((us.map (·.kind)).reverse ++ before)) vs := by
  induction before, us using runs_induction with
  | nil before =>
    rw [List.nil_append, joinRuns_other vs hpart, joinRuns]
    rfl
  | run before run rest hne hrun hrest ih =>
    have hnext : ∀ l ∈ (rest ++ p :: vs).head?, isPart l.kind = false := by
      cases rest with
      | nil =>
        rintro l ⟨⟩
        exact hpart
      | cons l rest => exact hrest
    have hjoined : joined before run ((rest ++ p :: vs).head?.map (·.kind)) =
        joined before run (rest.head?.map (·.kind)) := by
      cases rest with
      | nil =>
        rw [List.nil_append, List.head?_cons, Option.map_some, List.head?_nil, Option.map_none,
          joined, joined, isPattern, isPattern, Option.all_some, hafter, Option.all_none]
      | cons l rest => rfl
    rw [List.append_assoc, joinRuns_run hne hrun hnext, hjoined, joinRuns_run hne hrun hrest, ih,
      List.append_assoc, List.map_append, List.reverse_append, List.append_assoc]
  | other before l us hl ih =>
    rw [List.cons_append, joinRuns_other _ hl, joinRuns_other _ hl, ih, List.map_cons,
      List.reverse_cons, List.append_assoc]
    rfl

/-- What is no field pattern has not been joined. -/
theorem mem_of_mem_joinRuns {before : List Kind} {ls : List Lexeme} {l : Lexeme}
    (h : l ∈ joinRuns before ls) (hl : l.kind ≠ .wildcardField) : l ∈ ls := by
  induction before, ls using runs_induction with
  | nil before =>
    rw [joinRuns] at h
    exact h
  | run before run rest hne hrun hrest ih =>
    rw [joinRuns_run hne hrun hrest, List.mem_append, joined] at h
    rw [List.mem_append]
    refine h.imp (fun h => ?_) ih
    split at h
    · rw [List.mem_singleton] at h
      exact absurd (congrArg Lexeme.kind h) hl
    · exact h
  | other before m ls hm ih =>
    rw [joinRuns_other ls hm] at h
    exact List.mem_cons.mpr ((List.mem_cons.mp h).imp_right ih)

end Wildcard

/-! ## The lexemes -/

namespace Scan

/-- The lexemes of kinds and texts, all at the beginning. -/
def unplaced (es : List (Kind × List Char)) : List Lexeme :=
  es.map fun e => ⟨e.1, 0, String.ofList e.2⟩

end Scan

/-- Places do not matter to the lexemes of a text. -/
theorem unplaced_lex (text : String) {es : List (Kind × List Char)}
    (h : (Scan.pieces text.toList).foldr Scan.addPiece [] = es) :
    (lex text).map Lexeme.unplaced = Wildcard.joinRuns [] (Scan.unplaced es) := by
  rw [lex, Wildcard.unplaced_joinRuns, Scan.lexemes, Scan.unplaced_placeAll, h, Scan.unplaced]

/-- A lexeme that is no garbage and no field pattern is a piece. -/
theorem pieces_of_mem_lex {text : String} {l : Lexeme} (h : l ∈ lex text)
    (hgarbage : l.kind ≠ .garbage) (hpattern : l.kind ≠ .wildcardField) :
    ∃ ps qs, Scan.pieces text.toList = ps ++ ⟨some l.kind, l.text.toList⟩ :: qs ∧
      l.start = Text.width (ps.flatMap (·.text)) :=
  Scan.pieces_of_mem_lexemes (Wildcard.mem_of_mem_joinRuns h hpattern) hgarbage

/-- A place within a part of a text cuts that part. -/
theorem Text.split_within {front part rest before after : List Char} {c : Char}
    (h : front ++ (part ++ rest) = before ++ c :: after) (hfront : width front ≤ width before)
    (hpart : width before < width front + width part) :
    ∃ w₁ w₂, part = w₁ ++ c :: w₂ ∧ before = front ++ w₁ ∧ after = w₂ ++ rest := by
  have hc : 0 < c.utf8Size := c.utf8Size_pos
  obtain ⟨x, rfl, hx⟩ | ⟨x, rfl, hx⟩ := List.append_eq_append_iff.mp h
  · rw [width_append] at hpart
    obtain ⟨y, rfl, hy⟩ | ⟨y, rfl, hy⟩ := List.append_eq_append_iff.mp hx
    · rw [width_append] at hpart
      omega
    · cases y with
      | nil =>
        rw [List.append_nil] at hpart
        exact absurd hpart (Nat.lt_irrefl _)
      | cons d y =>
        obtain ⟨rfl, rfl⟩ := List.cons.inj hy
        exact ⟨x, y, rfl, rfl, rfl⟩
  · cases x with
    | nil =>
      rw [List.nil_append] at hx
      cases part with
      | nil =>
        rw [List.append_nil, width] at hpart
        exact absurd hpart (Nat.lt_irrefl _)
      | cons d part =>
        obtain ⟨rfl, rfl⟩ := List.cons.inj hx
        exact ⟨[], part, rfl, by simp, rfl⟩
    | cons d x =>
      obtain ⟨rfl, -⟩ := List.cons.inj hx
      rw [width_append, width] at hfront
      omega

section Stray

variable {before after : String} {l : Lexeme}

/-- The pieces of the two texts. -/
theorem pieces_of_white (hl : l ∈ lex (before ++ " " ++ after)) (hkind : l.kind = .whitespace)
    (hstart : l.start ≤ before.utf8ByteSize) (hstop : before.utf8ByteSize < l.stop) :
    ∃ ps qs w₁ w₂,
      Scan.pieces (before ++ " " ++ after).toList =
        ps ++ ⟨some .whitespace, w₁ ++ ' ' :: w₂⟩ :: qs ∧
      Scan.pieces (before ++ " $ " ++ after).toList =
        ps ++ ⟨some .whitespace, w₁ ++ [' ']⟩ :: ⟨none, ['$']⟩ :: ⟨some .whitespace, ' ' :: w₂⟩ ::
          qs := by
  obtain ⟨ps, qs, hpieces, hplace⟩ := pieces_of_mem_lex hl (by rw [hkind]; decide)
    (by rw [hkind]; decide)
  have htext : (before ++ " " ++ after).toList = before.toList ++ ' ' :: after.toList := by simp
  have hparts : ps.flatMap (·.text) ++ (l.text.toList ++ qs.flatMap (·.text)) =
      before.toList ++ ' ' :: after.toList := by
    have htexts := Scan.pieces_texts (before ++ " " ++ after).toList
    rwa [hpieces, List.flatMap_append, List.flatMap_cons, htext] at htexts
  rw [Lexeme.stop, Text.utf8ByteSize_eq_width, Text.utf8ByteSize_eq_width l.text, hplace] at hstop
  rw [hplace, Text.utf8ByteSize_eq_width] at hstart
  obtain ⟨w₁, w₂, hw, hbefore, hafter⟩ := Text.split_within hparts hstart hstop
  rw [hw, hkind] at hpieces
  refine ⟨ps, qs, w₁, w₂, hpieces, ?_⟩
  have hnew : (before ++ " $ " ++ after).toList =
      ps.flatMap (·.text) ++ (w₁ ++ [' ', '$', ' '] ++ w₂ ++ qs.flatMap (·.text)) := by
    simp [hbefore, hafter]
  have hold : (before ++ " " ++ after).toList =
      ps.flatMap (·.text) ++ (w₁ ++ ' ' :: w₂ ++ qs.flatMap (·.text)) := by
    simp [hbefore, hafter]
  rw [hold] at hpieces
  rw [hnew]
  exact Scan.pieces_stray hpieces

/-- Trivia in white space is trivia to what comes after it. -/
theorem sameContext_stray (far : List Kind) :
    Wildcard.SameContext (.whitespace :: .garbage :: .whitespace :: far) (.whitespace :: far) :=
  ⟨rfl, rfl⟩

/-- The lexemes of the two texts are the same before the white space and after it. -/
theorem lex_stray (hl : l ∈ lex (before ++ " " ++ after)) (hkind : l.kind = .whitespace)
    (hstart : l.start ≤ before.utf8ByteSize) (hstop : before.utf8ByteSize < l.stop) :
    ∃ xs ys w w₁ w₂, (lex (before ++ " " ++ after)).map entry = xs ++ (.whitespace, w) :: ys ∧
      (lex (before ++ " $ " ++ after)).map entry =
        xs ++ (.whitespace, w₁) :: (.garbage, "$") :: (.whitespace, w₂) :: ys := by
  obtain ⟨ps, qs, w₁, w₂, hold, hnew⟩ := pieces_of_white hl hkind hstart hstop
  have hentries (text : String) : (lex text).map entry = ((lex text).map unplaced).map entry := by
    rw [List.map_map]
    rfl
  generalize hA : ps.foldr Scan.addPiece [] = es
  generalize hB : qs.foldr Scan.addPiece [] = fs
  have holdEntries : (Scan.pieces (before ++ " " ++ after).toList).foldr Scan.addPiece [] =
      es ++ (.whitespace, w₁ ++ ' ' :: w₂) :: fs := by
    rw [hold, List.foldr_append, List.foldr_cons, hB, ← hA]
    exact Scan.foldr_addPiece_append ps (by decide) _ fs
  have hnewEntries : (Scan.pieces (before ++ " $ " ++ after).toList).foldr Scan.addPiece [] =
      es ++ (.whitespace, w₁ ++ [' ']) :: (.garbage, ['$']) :: (.whitespace, ' ' :: w₂) :: fs := by
    rw [hnew, List.foldr_append, List.foldr_cons, List.foldr_cons, List.foldr_cons, hB, ← hA]
    exact Scan.foldr_addPiece_append ps (by decide) _ _
  have hpart : Wildcard.isPart .whitespace = false := rfl
  have hgarbage : Wildcard.isPart .garbage = false := rfl
  rw [hentries, hentries, unplaced_lex _ holdEntries, unplaced_lex _ hnewEntries]
  simp only [Scan.unplaced, List.map_append, List.map_cons]
  rw [Wildcard.joinRuns_append _ _ hpart rfl, Wildcard.joinRuns_append _ _ hpart rfl,
    Wildcard.joinRuns_other _ hgarbage, Wildcard.joinRuns_other _ hpart,
    Wildcard.joinRuns_congr (sameContext_stray _)]
  simp only [List.map_append, List.map_cons]
  exact ⟨_, _, _, _, _, rfl, rfl⟩

end Stray

/-! ## Up to trivia -/

namespace Lexeme

/-- Apart from trivia, only kinds and texts matter. -/
theorem profile_congr {ls ms : List Lexeme} (h : ls.map entry = ms.map entry) (apart : Bool) :
    profile apart ls = profile apart ms := by
  induction ls generalizing ms apart with
  | nil =>
    rw [List.map_nil, eq_comm, List.map_eq_nil_iff] at h
    rw [h]
  | cons l ls ih =>
    obtain ⟨m, ms, rfl, hm, hms⟩ := List.map_eq_cons_iff.mp h.symm
    have hkind : m.isTrivia = l.isTrivia := congrArg (·.1.isTrivia) hm
    rw [profile, profile, hkind, hm, ih hms.symm, ih hms.symm]

/-- Behind trivia nothing matters that stands before it. -/
theorem profile_append {us vs : List Lexeme} {l : Lexeme} (h : l.isTrivia = true) (apart : Bool) :
    profile apart (us ++ l :: vs) = profile apart us ++ profile true vs := by
  induction us generalizing apart with
  | nil => exact profile_of_trivia h
  | cons u us ih =>
    rw [List.cons_append, profile, profile, ih, ih]
    split
    · rfl
    · rfl

end Lexeme

section Stray

variable {before after : String} {l : Lexeme}

/-- The two texts differ in trivia only. -/
theorem sameButTrivia_stray (hl : l ∈ lex (before ++ " " ++ after)) (hkind : l.kind = .whitespace)
    (hstart : l.start ≤ before.utf8ByteSize) (hstop : before.utf8ByteSize < l.stop) :
    SameButTrivia (lex (before ++ " " ++ after)) (lex (before ++ " $ " ++ after)) := by
  obtain ⟨xs, ys, w, w₁, w₂, hold, hnew⟩ := lex_stray hl hkind hstart hstop
  obtain ⟨us, ls, hus, hxs, hls⟩ := List.map_eq_append_iff.mp hold
  obtain ⟨us', ms, hus', hxs', hms⟩ := List.map_eq_append_iff.mp hnew
  obtain ⟨t, vs, rfl, ht, hvs⟩ := List.map_eq_cons_iff.mp hls
  obtain ⟨t₁, ms, rfl, ht₁, hms⟩ := List.map_eq_cons_iff.mp hms
  obtain ⟨g, ms, rfl, hg, hms⟩ := List.map_eq_cons_iff.mp hms
  obtain ⟨t₂, vs', rfl, ht₂, hvs'⟩ := List.map_eq_cons_iff.mp hms
  have htrivia {m : Lexeme} {k : Kind} {w : String} (h : m.entry = (k, w))
      (hk : k.isTrivia = true) : m.isTrivia = true := (congrArg (·.1.isTrivia) h).trans hk
  rw [SameButTrivia, hus, hus', profile_append (htrivia ht rfl), profile_append (htrivia ht₁ rfl),
    profile_of_trivia (htrivia hg rfl), profile_of_trivia (htrivia ht₂ rfl),
    profile_congr (hxs.trans hxs'.symm), profile_congr (hvs.trans hvs'.symm)]

theorem tokens_entries (text : String) : (tokenize text).tokens.map (fun t => (t.kind, t.text)) =
    ((lex text).map entry).filter (!·.1.isTrivia) := by
  rw [tokenize, TokenStream.ofLexemes, List.map_map, List.filter_map]
  rfl

theorem errors_entries (text : String) : (tokenize text).errors.map (·.text) =
    (((lex text).map entry).filter (·.1 == .garbage)).map (·.2) := by
  rw [tokenize, TokenStream.ofLexemes, List.map_map, List.filter_map, List.map_map]
  rfl

/-- Garbage only adds errors. If in white space of a text a blank is replaced by a dollar sign
between two blanks, then the tokens keep their kinds and texts, there is one lexical error more,
whose text is the dollar sign, and at any limit the parser gives as many diagnostics as before, with
the same kinds, messages and hints. -/
theorem garbage_adds_one_error (hl : l ∈ lex (before ++ " " ++ after))
    (hkind : l.kind = .whitespace) (hstart : l.start ≤ before.utf8ByteSize)
    (hstop : before.utf8ByteSize < l.stop) :
    (tokenize (before ++ " $ " ++ after)).tokens.map (fun t => (t.kind, t.text)) =
        (tokenize (before ++ " " ++ after)).tokens.map (fun t => (t.kind, t.text)) ∧
      (∃ es fs, (tokenize (before ++ " " ++ after)).errors.map (·.text) = es ++ fs ∧
        (tokenize (before ++ " $ " ++ after)).errors.map (·.text) = es ++ "$" :: fs) ∧
      ∀ limit, List.Forall₂ (fun d e => d.kind = e.kind ∧ d.message = e.message ∧ d.hints = e.hints)
        (parseTree (before ++ " " ++ after) limit).diagnostics
        (parseTree (before ++ " $ " ++ after) limit).diagnostics := by
  have hsame := sameButTrivia_stray hl hkind hstart hstop
  obtain ⟨xs, ys, w, w₁, w₂, hold, hnew⟩ := lex_stray hl hkind hstart hstop
  refine ⟨?_, ?_, fun limit => ?_⟩
  · rw [tokens_entries, tokens_entries, hold, hnew]
    simp [Kind.isTrivia]
  · refine ⟨(xs.filter (·.1 == .garbage)).map (·.2), (ys.filter (·.1 == .garbage)).map (·.2),
      ?_, ?_⟩
    · rw [errors_entries, hold]
      simp
    · rw [errors_entries, hnew]
      simp
  · obtain ⟨_, htwin⟩ := Parse.twin_texts _ _ limit hsame
    refine List.forall₂_reverse_iff.mpr (htwin.notes.reports.imp fun d e hde => ?_)
    exact ⟨hde.kind, hde.message, hde.hints⟩

end Stray

/-- Between a field pattern and a pipe, where other garbage stands and a condition is missing. -/
theorem garbage_adds_one_error_sample :
    (⟨.whitespace, 10, " \t"⟩ : Lexeme) ∈ lex ("index=~ *a" ++ " " ++ "\t| where") ∧
      (tokenize ("index=~ *a" ++ " $ " ++ "\t| where")).tokens.map (fun t => (t.kind, t.text)) =
        (tokenize ("index=~ *a" ++ " " ++ "\t| where")).tokens.map (fun t => (t.kind, t.text)) ∧
      (∃ es fs, (tokenize ("index=~ *a" ++ " " ++ "\t| where")).errors.map (·.text) = es ++ fs ∧
        (tokenize ("index=~ *a" ++ " $ " ++ "\t| where")).errors.map (·.text) = es ++ "$" :: fs) ∧
      ∀ limit, List.Forall₂ (fun d e => d.kind = e.kind ∧ d.message = e.message ∧ d.hints = e.hints)
        (parseTree ("index=~ *a" ++ " " ++ "\t| where") limit).diagnostics
        (parseTree ("index=~ *a" ++ " $ " ++ "\t| where") limit).diagnostics := by
  have hmem : (⟨.whitespace, 10, " \t"⟩ : Lexeme) ∈ lex ("index=~ *a" ++ " " ++ "\t| where") := by
    decide +kernel
  exact ⟨hmem, garbage_adds_one_error hmem rfl (by decide) (by decide)⟩

end SplQuery

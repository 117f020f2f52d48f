import SplQuery.Lexeme.Wildcard
import SplQuery.Text.Span

/-!
# Lexemes partition a text

Cutting a text into lexemes loses nothing and moves nothing: the texts of the lexemes, one after
another, are the text (`lex_texts`), and every lexeme starts where the one before it stops
(`lex_adjoin`).
-/

namespace SplQuery

namespace Text

/-- The bytes of a string are those of its characters. -/
theorem utf8ByteSize_ofList (cs : List Char) : (String.ofList cs).utf8ByteSize = width cs := by
  induction cs with
  | nil => rfl
  | cons c cs ih =>
    rw [String.ofList_cons, String.utf8ByteSize_append, String.utf8ByteSize_singleton, ih]
    rfl

theorem utf8ByteSize_eq_width (s : String) : s.utf8ByteSize = width s.toList := by
  rw [← utf8ByteSize_ofList, String.ofList_toList]

end Text

namespace Lexeme

/-- The lexemes stand one after another without a gap, from `start` to `stop`. -/
def Adjoin : Nat → List Lexeme → Nat → Prop
  | start, [], stop => start = stop
  | start, l :: ls, stop => l.start = start ∧ Adjoin l.stop ls stop

/-- The characters of lexemes, one after another. -/
def texts (ls : List Lexeme) : List Char := ls.flatMap (·.text.toList)

theorem texts_nil : texts [] = [] := rfl

theorem texts_cons (l : Lexeme) (ls : List Lexeme) : texts (l :: ls) = l.text.toList ++ texts ls :=
  rfl

theorem texts_append (ks ls : List Lexeme) : texts (ks ++ ls) = texts ks ++ texts ls :=
  List.flatMap_append

theorem start_le_stop (l : Lexeme) : l.start ≤ l.stop := Nat.le_add_right _ _

theorem Adjoin.start_le_stop {ls : List Lexeme} {start stop : Nat} (h : Adjoin start ls stop) :
    start ≤ stop := by
  induction ls generalizing start with
  | nil => exact Nat.le_of_eq h
  | cons l ls ih =>
    obtain ⟨rfl, hls⟩ := h
    exact Nat.le_trans l.start_le_stop (ih hls)

/-- Where lexemes adjoin, so do those of a part and those of the rest. -/
theorem adjoin_append_iff {ks ls : List Lexeme} {start stop : Nat} :
    Adjoin start (ks ++ ls) stop ↔ ∃ place, Adjoin start ks place ∧ Adjoin place ls stop := by
  induction ks generalizing start with
  | nil =>
    constructor
    · intro h
      exact ⟨start, rfl, h⟩
    · rintro ⟨place, rfl, h⟩
      exact h
  | cons k ks ih =>
    constructor
    · rintro ⟨hk, h⟩
      obtain ⟨place, hks, hls⟩ := ih.mp h
      exact ⟨place, ⟨hk, hks⟩, hls⟩
    · rintro ⟨place, ⟨hk, hks⟩, hls⟩
      exact ⟨hk, ih.mpr ⟨place, hks, hls⟩⟩

theorem Adjoin.start_le {ls : List Lexeme} {start stop : Nat} (h : Adjoin start ls stop) :
    ∀ l ∈ ls, start ≤ l.start ∧ l.stop ≤ stop := by
  induction ls generalizing start with
  | nil => exact List.forall_mem_nil _
  | cons l ls ih =>
    obtain ⟨rfl, hls⟩ := h
    refine List.forall_mem_cons.mpr ⟨⟨Nat.le_refl _, hls.start_le_stop⟩, fun m hm => ?_⟩
    exact ⟨Nat.le_trans l.start_le_stop (ih hls m hm).1, (ih hls m hm).2⟩

/-- Lexemes that adjoin take as many bytes as their texts. -/
theorem Adjoin.stop_eq {ls : List Lexeme} {start stop : Nat} (h : Adjoin start ls stop) :
    stop = start + Text.width (texts ls) := by
  induction ls generalizing start with
  | nil => exact h.symm
  | cons l ls ih =>
    obtain ⟨rfl, hls⟩ := h
    rw [ih hls, texts_cons, Text.width_append, ← Nat.add_assoc, Lexeme.stop,
      Text.utf8ByteSize_eq_width]

/-- The lexemes that are no trivia. -/
def solid (ls : List Lexeme) : List Lexeme := ls.filter (!·.isTrivia)

section Solid

variable {l : Lexeme} {ls : List Lexeme}

theorem solid_append (ls ms : List Lexeme) : solid (ls ++ ms) = solid ls ++ solid ms :=
  List.filter_append _ _

theorem solid_cons (h : l.isTrivia = false) (ls : List Lexeme) : solid (l :: ls) = l :: solid ls :=
  List.filter_cons_of_pos (by rw [h]; rfl)

theorem solid_cons_of_trivia (h : l.isTrivia = true) (ls : List Lexeme) :
    solid (l :: ls) = solid ls :=
  List.filter_cons_of_neg (by rw [h]; exact Bool.false_ne_true)

theorem solid_eq_nil (h : ∀ l ∈ ls, l.isTrivia = true) : solid ls = [] := by
  refine List.filter_eq_nil_iff.mpr fun l hl => ?_
  rw [h l hl]
  exact Bool.false_ne_true

theorem solid_takeWhile (ls : List Lexeme) : solid (ls.takeWhile isTrivia) = [] :=
  solid_eq_nil fun _ hl => List.all_eq_true.mp List.all_takeWhile _ hl

end Solid

end Lexeme

namespace Scan

/-! ## The scan -/

/-- The pieces of a text make up the text. -/
theorem pieces_texts (cs : List Char) : (pieces cs).flatMap (·.text) = cs := by
  induction cs using pieces.induct with
  | case1 => simp [pieces]
  | case2 c cs kind? extra h ih =>
    rw [pieces, h]
    simp only [List.flatMap_cons, ih, List.cons_append, List.take_append_drop]

theorem addPiece_texts (p : Piece) (rest : List (Kind × List Char)) :
    (addPiece p rest).flatMap (·.2) = p.text ++ rest.flatMap (·.2) := by
  unfold addPiece
  split <;> simp

theorem foldr_addPiece_texts (ps : List Piece) :
    (ps.foldr addPiece []).flatMap (·.2) = ps.flatMap (·.text) := by
  induction ps with
  | nil => rfl
  | cons p ps ih => rw [List.foldr_cons, addPiece_texts, ih, List.flatMap_cons]

theorem placeAll_texts (start : Nat) (ks : List (Kind × List Char)) :
    Lexeme.texts (placeAll start ks) = ks.flatMap (·.2) := by
  induction ks generalizing start with
  | nil => rfl
  | cons k ks ih =>
    obtain ⟨kind, text⟩ := k
    rw [placeAll, Lexeme.texts_cons, ih, List.flatMap_cons, String.toList_ofList]

theorem placeAll_adjoin (start : Nat) (ks : List (Kind × List Char)) :
    Lexeme.Adjoin start (placeAll start ks) (start + Text.width (ks.flatMap (·.2))) := by
  induction ks generalizing start with
  | nil => rfl
  | cons k ks ih =>
    obtain ⟨kind, text⟩ := k
    refine ⟨rfl, ?_⟩
    rw [List.flatMap_cons, Text.width_append, ← Nat.add_assoc]
    rw [Lexeme.stop, Text.utf8ByteSize_ofList]
    exact ih _

theorem lexemes_texts (cs : List Char) : Lexeme.texts (lexemes cs) = cs := by
  rw [lexemes, placeAll_texts, foldr_addPiece_texts, pieces_texts]

theorem lexemes_adjoin (cs : List Char) : Lexeme.Adjoin 0 (lexemes cs) (Text.width cs) := by
  have h := placeAll_adjoin 0 ((pieces cs).foldr addPiece [])
  rwa [foldr_addPiece_texts, pieces_texts, Nat.zero_add] at h

end Scan

namespace Wildcard

/-! ## Field patterns -/

theorem join_texts (run : List Lexeme) (start : Nat) :
    (join run start).text.toList = Lexeme.texts run := by
  induction run with
  | nil => rfl
  | cons l ls ih =>
    have ih : (String.join (ls.map (·.text))).toList = Lexeme.texts ls := ih
    rw [join, List.map_cons, String.join_cons, String.toList_append, ih]
    rfl

/-- A joined run stands where the run stood. -/
theorem join_adjoin {run : List Lexeme} {start stop : Nat} (h : Lexeme.Adjoin start run stop) :
    Lexeme.Adjoin start [join run start] stop := by
  refine ⟨rfl, ?_⟩
  change start + (join run start).text.utf8ByteSize = stop
  rw [Text.utf8ByteSize_eq_width, join_texts]
  induction run generalizing start with
  | nil => exact h
  | cons l ls ih =>
    obtain ⟨rfl, hls⟩ := h
    have ih := ih hls
    rw [Lexeme.texts_cons, Text.width_append, ← Text.utf8ByteSize_eq_width, ← Nat.add_assoc]
    exact ih

theorem joinRuns_texts (before : List Kind) (ls : List Lexeme) :
    Lexeme.texts (joinRuns before ls) = Lexeme.texts ls := by
  induction before, ls using joinRuns.induct with
  | case1 before => rw [joinRuns]
  | case2 before l ls hpart run rest kinds ih =>
    have hsplit : run ++ rest = l :: ls := by
      rw [List.cons_append, List.takeWhile_append_dropWhile]
    rw [joinRuns, if_pos hpart, Lexeme.texts_append, ih, ← hsplit, Lexeme.texts_append]
    congr 1
    split
    · rw [Lexeme.texts_cons, join_texts, Lexeme.texts_nil, List.append_nil]
    · rfl
  | case3 before l ls hpart ih =>
    rw [joinRuns, if_neg hpart, Lexeme.texts_cons, ih, Lexeme.texts_cons]

theorem joinRuns_adjoin (before : List Kind) (ls : List Lexeme) (stop : Nat) :
    ∀ start, Lexeme.Adjoin start ls stop → Lexeme.Adjoin start (joinRuns before ls) stop := by
  induction before, ls using joinRuns.induct with
  | case1 before =>
    intro start h
    rw [joinRuns]
    exact h
  | case2 before l ls hpart run rest kinds ih =>
    intro start h
    have hsplit : l :: ls = run ++ rest := by
      rw [List.cons_append, List.takeWhile_append_dropWhile]
    rw [hsplit] at h
    obtain ⟨place, hrun, hrest⟩ := Lexeme.adjoin_append_iff.mp h
    have hstart : l.start = start := hrun.1
    rw [joinRuns, if_pos hpart]
    refine Lexeme.adjoin_append_iff.mpr ⟨place, ?_, ih place hrest⟩
    split
    · rw [hstart]
      exact join_adjoin hrun
    · exact hrun
  | case3 before l ls hpart ih =>
    intro start h
    obtain ⟨hl, hls⟩ := h
    rw [joinRuns, if_neg hpart]
    exact ⟨hl, ih _ hls⟩

end Wildcard

/-- The lexemes of a text make up the text. -/
theorem lex_texts (text : String) : Lexeme.texts (lex text) = text.toList := by
  rw [lex, Wildcard.joinRuns_texts, Scan.lexemes_texts]

/-- The lexemes of a text stand one after another, from its first byte to its last. -/
theorem lex_adjoin (text : String) : Lexeme.Adjoin 0 (lex text) text.utf8ByteSize := by
  rw [Text.utf8ByteSize_eq_width]
  exact Wildcard.joinRuns_adjoin [] _ _ _ (Scan.lexemes_adjoin _)

/-! ## No empty lexemes -/

namespace Scan

theorem pieces_ne_nil (cs : List Char) : ∀ p ∈ pieces cs, p.text ≠ [] := by
  induction cs using pieces.induct with
  | case1 =>
    rw [pieces]
    exact List.forall_mem_nil _
  | case2 c cs kind? extra h ih =>
    rw [pieces, h]
    exact List.forall_mem_cons.mpr ⟨List.cons_ne_nil _ _, ih⟩

theorem addPiece_ne_nil {p : Piece} {rest : List (Kind × List Char)} (hp : p.text ≠ [])
    (hrest : ∀ r ∈ rest, r.2 ≠ []) : ∀ r ∈ addPiece p rest, r.2 ≠ [] := by
  unfold addPiece
  split
  · exact List.forall_mem_cons.mpr ⟨hp, hrest⟩
  · exact List.forall_mem_cons.mpr
      ⟨List.append_ne_nil_of_left_ne_nil hp _, fun r hr => hrest r (List.mem_cons_of_mem _ hr)⟩
  · exact List.forall_mem_cons.mpr ⟨hp, hrest⟩

theorem foldr_addPiece_ne_nil {ps : List Piece} (h : ∀ p ∈ ps, p.text ≠ []) :
    ∀ r ∈ ps.foldr addPiece [], r.2 ≠ [] := by
  induction ps with
  | nil => exact List.forall_mem_nil _
  | cons p ps ih =>
    obtain ⟨hp, hps⟩ := List.forall_mem_cons.mp h
    exact addPiece_ne_nil hp (ih hps)

theorem placeAll_ne_nil {ks : List (Kind × List Char)} (h : ∀ k ∈ ks, k.2 ≠ []) (start : Nat) :
    ∀ l ∈ placeAll start ks, l.text.toList ≠ [] := by
  induction ks generalizing start with
  | nil => exact List.forall_mem_nil _
  | cons k ks ih =>
    obtain ⟨kind, text⟩ := k
    obtain ⟨hk, hks⟩ := List.forall_mem_cons.mp h
    refine List.forall_mem_cons.mpr ⟨?_, ih hks _⟩
    rw [String.toList_ofList]
    exact hk

end Scan

theorem Wildcard.joinRuns_ne_nil {before : List Kind} {ls : List Lexeme}
    (h : ∀ l ∈ ls, l.text.toList ≠ []) : ∀ l ∈ joinRuns before ls, l.text.toList ≠ [] := by
  induction before, ls using joinRuns.induct with
  | case1 before =>
    rw [joinRuns]
    exact List.forall_mem_nil _
  | case2 before l ls hpart run rest kinds ih =>
    have hsplit : l :: ls = run ++ rest := by
      rw [List.cons_append, List.takeWhile_append_dropWhile]
    rw [hsplit] at h
    rw [joinRuns, if_pos hpart]
    refine List.forall_mem_append.mpr ⟨?_, ih fun r hr => h r (List.mem_append_right _ hr)⟩
    split
    · refine List.forall_mem_singleton.mpr ?_
      rw [join_texts]
      exact List.append_ne_nil_of_left_ne_nil (h l (List.mem_append_left _ List.mem_cons_self)) _
    · exact fun r hr => h r (List.mem_append_left _ hr)
  | case3 before l ls hpart ih =>
    obtain ⟨hl, hls⟩ := List.forall_mem_cons.mp h
    rw [joinRuns, if_neg hpart]
    exact List.forall_mem_cons.mpr ⟨hl, ih hls⟩

/-- No lexeme of a text is empty. -/
theorem lex_ne_nil (text : String) : ∀ l ∈ lex text, l.text.toList ≠ [] :=
  Wildcard.joinRuns_ne_nil (Scan.placeAll_ne_nil
    (Scan.foldr_addPiece_ne_nil (Scan.pieces_ne_nil _)) 0)

theorem Lexeme.start_lt_stop {l : Lexeme} (h : l.text.toList ≠ []) : l.start < l.stop := by
  have hpos : 0 < l.text.utf8ByteSize := by
    rw [Text.utf8ByteSize_eq_width]
    obtain ⟨c, cs, hcs⟩ := List.exists_cons_of_ne_nil h
    rw [hcs]
    exact Nat.lt_of_lt_of_le c.utf8Size_pos (Nat.le_add_right _ _)
  exact Nat.lt_add_of_pos_right hpos

/-- Of two lexemes the earlier one starts before the other. -/
theorem Lexeme.Adjoin.pairwise {ls : List Lexeme} {start stop : Nat} (h : Adjoin start ls stop)
    (hne : ∀ l ∈ ls, l.text.toList ≠ []) : ls.Pairwise fun l m => l.start < m.start := by
  induction ls generalizing start with
  | nil => exact .nil
  | cons l ls ih =>
    obtain ⟨rfl, hls⟩ := h
    obtain ⟨hl, hne⟩ := List.forall_mem_cons.mp hne
    exact .cons (fun m hm => Nat.lt_of_lt_of_le (start_lt_stop hl) (hls.start_le m hm).1)
      (ih hls hne)

end SplQuery

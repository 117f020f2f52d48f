import Mathlib.Data.List.Chain
import SplQuery.Lexeme.Token
import SplQuery.Proofs.Lexeme.Pipes

/-!
# Tokens and errors of a partition

The lexemes of a text partition it, and garbage never follows garbage: the scan joins what no rule
describes, and the joining of field patterns neither makes garbage nor brings it together. Every
lexeme is a token, an error or without a meaning.

* `Kind.Parted` — kinds of which no two neighbours are garbage.
* `lex_parted` — the kinds of the lexemes of a text.
* `lex_partition` — the lexemes of a text, its tokens and its errors.
-/

namespace SplQuery

open Lexeme

/-! ## Garbage stands apart -/

namespace Kind

/-- Kinds of which no two neighbours are garbage. -/
def Parted (ks : List Kind) : Prop := ks.IsChain fun a b => ¬(a = .garbage ∧ b = .garbage)

theorem parted_nil : Parted [] := .nil

theorem Parted.tail {k : Kind} {ks : List Kind} (h : Parted (k :: ks)) : Parted ks :=
  List.isChain_of_isChain_cons h

/-- A kind that is not garbage may stand before any other. -/
theorem Parted.cons {k : Kind} {ks : List Kind} (hk : k ≠ .garbage) (h : Parted ks) :
    Parted (k :: ks) := by
  cases ks with
  | nil => exact .singleton k
  | cons j ks => exact .cons_cons (fun hboth => hk hboth.1) h

/-- Kinds that are not garbage may stand between any others. -/
theorem Parted.between {k : Kind} {js ks : List Kind} (hne : js ≠ []) (hjs : ∀ j ∈ js, j ≠ .garbage)
    (h : Parted ks) : Parted (k :: (js ++ ks)) := by
  have hrest : Parted (js ++ ks) := by
    clear hne
    induction js with
    | nil => exact h
    | cons j js ih =>
      obtain ⟨hj, hjs⟩ := List.forall_mem_cons.mp hjs
      exact .cons hj (ih hjs)
  obtain ⟨j, js, rfl⟩ := List.exists_cons_of_ne_nil hne
  exact .cons_cons (fun hboth => hjs j List.mem_cons_self hboth.2) hrest

end Kind

namespace Rule

/-- No rule gives the kind of garbage. -/
theorem ne_garbage_of_kindOf? {w : List Char} {k : Kind} (h : kindOf? Rule.all w = some k) :
    k ≠ .garbage := by
  rintro rfl
  obtain ⟨r, hr, -⟩ := exists_of_kindOf? h
  have hrules : Rule.all.filter (·.kind == .garbage) = [] := rfl
  rw [hrules] at hr
  cases hr

end Rule

namespace Scan

open Kind

theorem addPiece_parted {p : Piece} {es : List (Kind × List Char)}
    (hp : ∀ k ∈ p.kind?, k ≠ .garbage) (h : Parted (es.map (·.1))) :
    Parted ((addPiece p es).map (·.1)) := by
  obtain ⟨kind?, text⟩ := p
  cases kind? with
  | some k => exact .cons (hp k rfl) h
  | none =>
    rcases es with _ | ⟨⟨l, v⟩, es⟩
    · exact .singleton Kind.garbage
    · by_cases hl : l = .garbage
      · subst hl
        exact h
      · rw [addPiece_none_of_ne hl]
        exact .cons_cons (fun hboth => hl hboth.2) h

theorem foldr_addPiece_parted {ps : List Piece} (h : ∀ p ∈ ps, ∀ k ∈ p.kind?, k ≠ .garbage) :
    Parted ((ps.foldr addPiece []).map (·.1)) := by
  induction ps with
  | nil => exact parted_nil
  | cons p ps ih =>
    obtain ⟨hp, hps⟩ := List.forall_mem_cons.mp h
    exact addPiece_parted hp (ih hps)

/-- The kinds of pieces come from the rules. -/
theorem kind_of_mem_pieces (cs : List Char) : ∀ p ∈ pieces cs, ∀ k ∈ p.kind?, k ≠ .garbage := by
  intro p hp k hk
  obtain ⟨kind?, w⟩ := p
  obtain rfl : kind? = some k := hk
  exact Rule.ne_garbage_of_kindOf? (kindOf?_of_mem_pieces hp)

theorem placeAll_kinds (start : Nat) (es : List (Kind × List Char)) :
    (placeAll start es).map (·.kind) = es.map (·.1) := by
  induction es generalizing start with
  | nil => rfl
  | cons e es ih =>
    obtain ⟨kind, text⟩ := e
    rw [placeAll, List.map_cons, ih, List.map_cons]

theorem lexemes_parted (cs : List Char) : Parted ((lexemes cs).map (·.kind)) := by
  rw [lexemes, placeAll_kinds]
  exact foldr_addPiece_parted (kind_of_mem_pieces cs)

end Scan

namespace Wildcard

open Kind

theorem ne_garbage_of_isPart {k : Kind} (h : isPart k = true) : k ≠ .garbage := by
  rintro rfl
  cases h

theorem joined_ne_garbage {before : List Kind} {run : List Lexeme} {after : Option Kind}
    (hrun : ∀ l ∈ run, isPart l.kind = true) :
    ∀ l ∈ joined before run after, l.kind ≠ .garbage := by
  rw [joined]
  split
  · exact List.forall_mem_singleton.mpr (by decide : Kind.wildcardField ≠ .garbage)
  · exact fun l hl => ne_garbage_of_isPart (hrun l hl)

theorem joined_ne_nil {before : List Kind} {run : List Lexeme} {after : Option Kind}
    (hne : run ≠ []) : joined before run after ≠ [] := by
  rw [joined]
  split
  · exact List.cons_ne_nil _ _
  · exact hne

/-- Behind any lexeme, the joining of field patterns keeps garbage apart. -/
theorem joinRuns_parted (before : List Kind) (ls : List Lexeme) :
    ∀ k, Parted (k :: ls.map (·.kind)) → Parted (k :: (joinRuns before ls).map (·.kind)) := by
  induction before, ls using runs_induction with
  | nil before =>
    intro k h
    rw [joinRuns]
    exact h
  | run before run rest hne hrun hrest ih =>
    intro k h
    -- the last part of the run is no garbage, nor is anything that the run becomes
    have hlast : Parted (.multiply :: rest.map (·.kind)) := by
      rw [List.map_append] at h
      exact .cons (by decide) (List.isChain_append.mp h.tail).2.1
    rw [joinRuns_run hne hrun hrest, List.map_append]
    refine .between ?_ ?_ (ih .multiply hlast).tail
    · simpa using joined_ne_nil hne
    · exact List.forall_mem_map.mpr (joined_ne_garbage hrun)
  | other before l ls hl ih =>
    intro k h
    rw [joinRuns_other ls hl]
    exact .cons_cons (List.isChain_cons_cons.mp h).1 (ih l.kind h.tail)

end Wildcard

/-- No two lexemes of garbage follow one another. -/
theorem lex_parted (text : String) : Kind.Parted ((lex text).map (·.kind)) :=
  (Wildcard.joinRuns_parted [] (Scan.lexemes text.toList) .pipe
    (.cons (by decide) (Scan.lexemes_parted text.toList))).tail

/-! ## Lexemes in their text -/

namespace Lexeme

/-- The text of the lexeme stands in the text at its place, from one character to another. -/
def StandsIn (l : Lexeme) (cs : List Char) : Prop :=
  ∃ before after, cs = before ++ l.text.toList ++ after ∧ Text.width before = l.start

/-- Lexemes that adjoin stand in what they make up, behind what comes before them. -/
theorem Adjoin.standsIn {ls : List Lexeme} {stop : Nat} (front : List Char)
    (h : Adjoin (Text.width front) ls stop) : ∀ l ∈ ls, l.StandsIn (front ++ texts ls) := by
  induction ls generalizing front with
  | nil => exact List.forall_mem_nil _
  | cons l ls ih =>
    obtain ⟨hl, hls⟩ := h
    have hstop : l.stop = Text.width (front ++ l.text.toList) := by
      rw [Text.width_append, ← hl, ← Text.utf8ByteSize_eq_width, Lexeme.stop]
    rw [hstop] at hls
    refine List.forall_mem_cons.mpr ⟨⟨front, texts ls, ?_, hl.symm⟩, ?_⟩
    · rw [texts_cons, List.append_assoc]
    · rw [texts_cons, ← List.append_assoc]
      exact ih _ hls

end Lexeme

theorem lex_standsIn (text : String) : ∀ l ∈ lex text, l.StandsIn text.toList := by
  have h := (lex_adjoin text).standsIn []
  rwa [List.nil_append, lex_texts] at h

/-! ## Names of kinds -/

theorem CommandWord.mem_all (w : CommandWord) : w ∈ CommandWord.all := by
  cases w <;> decide

theorem ClauseWord.mem_all (w : ClauseWord) : w ∈ ClauseWord.all := by
  cases w <;> decide

theorem Shape.mem_all (s : Shape) : s ∈ Shape.all := by
  cases s <;> decide

theorem Kind.mem_all (k : Kind) : k ∈ Kind.all := by
  unfold Kind.all
  cases k with
  | command w => simp [CommandWord.mem_all]
  | clause w => simp [ClauseWord.mem_all]
  | _ => simp

/-- The name of a kind is not that of a shape. -/
theorem Kind.name_ne_name (k : Kind) (s : Shape) : k.name ≠ s.name := by
  have hlists : ∀ k ∈ Kind.all, ∀ s ∈ Shape.all, k.name ≠ s.name := by decide +kernel
  exact hlists k k.mem_all s s.mem_all

/-! ## Tokens and errors -/

theorem Location.span_ofSpan (text : List Char) (s : Span) : (ofSpan text s).span = s :=
  LineIndex.span_location _ s

/-- The lexemes of a text partition it: they adjoin from its first byte to its last, none is empty,
each stands from one character of the text to another, and none has the name of a tree node, nor of
what recovery skips. No two that follow one another are garbage. Each that is garbage is an error
with its span and text, each that is not trivia is a token with its kind, span and text, in the
order of the text, and there are no others. -/
theorem lex_partition (text : String) :
    Adjoin 0 (lex text) text.utf8ByteSize ∧
      (∀ l ∈ lex text, l.start < l.stop ∧ l.StandsIn text.toList ∧
        ∀ s : Shape, l.kind.name ≠ s.name) ∧
      (lex text).IsChain (fun a b => ¬(a.kind = .garbage ∧ b.kind = .garbage)) ∧
      (tokenize text).errors.map (fun e => (e.location.span, e.text)) =
        ((lex text).filter (·.kind == .garbage)).map (fun l => (l.span, l.text)) ∧
      (tokenize text).tokens.map (fun t => (t.kind, t.location.span, t.text)) =
        ((lex text).filter (!·.isTrivia)).map (fun l => (l.kind, l.span, l.text)) := by
  refine ⟨lex_adjoin text, fun l hl => ?_, (List.isChain_map _).mp (lex_parted text), ?_, ?_⟩
  · exact ⟨start_lt_stop (lex_ne_nil text l hl), lex_standsIn text l hl, l.kind.name_ne_name⟩
  · simp [tokenize, TokenStream.ofLexemes, Function.comp_def]
  · simp [tokenize, TokenStream.ofLexemes, Function.comp_def]

end SplQuery

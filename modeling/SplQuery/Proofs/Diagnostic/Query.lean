import Mathlib.Data.List.Perm.Subperm
import SplQuery.Proofs.Diagnostic.Filtered
import SplQuery.Proofs.Diagnostic.Spots
import SplQuery.Proofs.Extent.Values
import SplQuery.Proofs.Parse
import SplQuery.Query.Parse

/-!
# Diagnostics are well placed

Every diagnostic of a text lies within it and starts with a token or at the end. The parse makes one
diagnostic at most for each place where a token is next, going from left to right, and so no more of
them than there are tokens, and one. The error that is made of a diagnostic names the token at which
it starts. Garbage is no token, and so no lexical error starts where a diagnostic of the parse does.

* `Lexeme.find_stop_eq` — the first lexeme that ends behind the start of another one.
* `ParsedQuery.WellPlaced` — where a diagnostic of a query may stand.
* `parseQuery_places` — the places of the diagnostics of a parse.
* `parseQuery_shown` — what is shown of all that is wrong with a text.
-/

namespace SplQuery

open Lexeme State

/-! ## Finding tokens -/

namespace Lexeme

variable {ls : List Lexeme} {start stop place : Nat}

/-- The first lexeme that ends behind the start of another one is that one. -/
theorem find_stop_eq (h : Adjoin start ls stop) (hfilled : ∀ l ∈ ls, l.start < l.stop) {l : Lexeme}
    (hmem : l ∈ ls) (hl : l.isTrivia = false) :
    (solid ls).find? (fun m => l.start < m.stop) = some l := by
  induction ls generalizing start with
  | nil => cases hmem
  | cons m ls ih =>
    obtain ⟨hm, hls⟩ := List.forall_mem_cons.mp hfilled
    rcases List.mem_cons.mp hmem with rfl | hmem
    · rw [solid_cons hl, List.find?_cons_of_pos (by simpa using hm)]
    · have hbefore : m.stop ≤ l.start := (h.2.start_le l hmem).1
      cases htrivia : m.isTrivia with
      | true =>
        rw [solid_cons_of_trivia htrivia]
        exact ih h.2 hls hmem
      | false =>
        rw [solid_cons htrivia, List.find?_cons_of_neg (by simpa using hbefore)]
        exact ih h.2 hls hmem

/-- No lexeme ends behind the end. -/
theorem find_stop_eq_none (h : Adjoin start ls stop) :
    (solid ls).find? (fun m => stop < m.stop) = none := by
  refine List.find?_eq_none.mpr fun m hm => ?_
  have hle : m.stop ≤ stop := (h.start_le m (List.mem_of_mem_filter hm)).2
  simpa using hle

end Lexeme

/-! ## Whole queries -/

/-- The stretches of the tokens of a query. -/
def ParsedQuery.spans (q : ParsedQuery) : List Span := q.tokens.map (·.location.span)

/-- Where a diagnostic of a query of so many bytes stands: within the text, from the start of a
token on, which is the token of the error that is made of it, or at the end, where there is none. -/
structure ParsedQuery.WellPlaced (q : ParsedQuery) (stop : Nat) (d : Diagnostic) : Prop where
  ordered : d.span.start ≤ d.span.stop
  within : d.span.stop ≤ stop
  start : (∃ t ∈ q.tokens, t.start = d.span.start) ∨ d.span.start = stop
  token : ∀ t, (ParseError.ofDiagnostic q.text q.tokens d).token = some t ↔
    t ∈ q.tokens ∧ t.start = d.span.start
  none : (ParseError.ofDiagnostic q.text q.tokens d).token = none ↔ d.span.start = stop

section Queries

variable {text : String} {limit : Nat} {d : Diagnostic}

theorem spans_parseQuery (text : String) (limit : Nat) :
    (parseQuery text limit).spans = (solid (lex text)).map Lexeme.span := by
  simp [ParsedQuery.spans, parseQuery, TokenStream.ofLexemes, Function.comp_def, solid]

/-- Before anything is read nothing is noted. -/
theorem Parse.start_placed (text : String) (limit : Nat) :
    (start (lex text) text.utf8ByteSize).Placed (parseQuery text limit).spans
      text.utf8ByteSize := by
  have hadjoin : Adjoin 0 (start (lex text) text.utf8ByteSize).rest
      (start (lex text) text.utf8ByteSize).stop := lex_adjoin text
  refine ⟨rfl, (span_start hadjoin).symm ▸ hadjoin, fun l hl htrivia => ?_, nofun,
    [], .nil, .nil, rfl, nofun⟩
  rw [spans_parseQuery]
  exact List.mem_map_of_mem (List.mem_filter.mpr ⟨hl, by rw [htrivia]; rfl⟩)

/-- The diagnostics of a text were made at places from left to right. -/
theorem exists_places (text : String) (limit : Nat) :
    ∃ places : List Nat, places.Pairwise (· < ·) ∧
      List.Forall₂ (Diagnostic.MadeAt (parseQuery text limit).spans text.utf8ByteSize) places
        (parseQuery text limit).diagnostics := by
  have hplaced : State.Placed (parseQuery text limit).spans text.utf8ByteSize
      (Parse.finalState (lex text) text.utf8ByteSize limit) :=
    Parse.finalState_law (placed_law _ _) _ _ limit (Parse.start_placed text limit)
  obtain ⟨places, hpairwise, hmade, -⟩ := hplaced.reports
  exact ⟨places.reverse, List.pairwise_reverse.mpr hpairwise, List.forall₂_reverse_iff.mpr hmade⟩

/-- A stretch that may be spoken of is that of a token, or it is at the end. -/
theorem lexeme_of_spot {s : Span}
    (h : Spot (parseQuery text limit).spans text.utf8ByteSize s) :
    (∃ l ∈ lex text, l.isTrivia = false ∧ l.span = s) ∨ s = .emptyAt text.utf8ByteSize := by
  refine h.imp_left fun hs => ?_
  rw [spans_parseQuery] at hs
  obtain ⟨l, hl, rfl⟩ := List.mem_map.mp hs
  obtain ⟨hl, htrivia⟩ := List.mem_filter.mp hl
  exact ⟨l, hl, by simpa using htrivia, rfl⟩

theorem bounds_of_spot {s : Span} (h : Spot (parseQuery text limit).spans text.utf8ByteSize s) :
    s.start ≤ s.stop ∧ s.stop ≤ text.utf8ByteSize := by
  rcases lexeme_of_spot h with ⟨l, hl, -, rfl⟩ | rfl
  · exact ⟨l.start_le_stop, ((lex_adjoin text).start_le l hl).2⟩
  · exact ⟨Nat.le_refl _, Nat.le_refl _⟩

/-- A diagnostic starts with a stretch that may be spoken of. -/
theorem Diagnostic.MadeAt.spot {spans : List Span} {stop place : Nat}
    (h : d.MadeAt spans stop place) :
    ∃ s, Spot spans stop s ∧ d.span.start = s.start ∧ s.start ≤ place := by
  obtain ⟨here, hhere, rfl, -, ⟨hstart, -⟩ | ⟨opener, -, -, hopener, hstart, hle⟩⟩ := h
  · exact ⟨here, hhere, hstart, Nat.le_refl _⟩
  · exact ⟨opener, hopener, hstart, hle⟩

theorem Lexeme.start_token (text : List Char) (l : Lexeme) : (l.token text).start = l.start := by
  rw [Token.start, token, Location.span_ofSpan]
  rfl

theorem tokens_parseQuery (text : String) (limit : Nat) :
    (parseQuery text limit).tokens = tokens text.toList (lex text) := rfl

/-- The token of an error is the first one that ends behind its start. -/
theorem token_ofDiagnostic (text : String) (limit : Nat) (d : Diagnostic) :
    (ParseError.ofDiagnostic (parseQuery text limit).text (parseQuery text limit).tokens d).token =
      ((solid (lex text)).find? fun l => d.span.start < l.stop).map (token text.toList) := by
  change List.find? _ (List.map _ (solid (lex text))) = _
  rw [List.find?_map]
  rfl

theorem filled_lex (text : String) : ∀ l ∈ lex text, l.start < l.stop :=
  fun l hl => start_lt_stop (lex_ne_nil text l hl)

/-- A token of a text is one of its lexemes, which starts before the end. -/
theorem lexeme_of_token {t : Token} (ht : t ∈ (parseQuery text limit).tokens) :
    ∃ l ∈ lex text, l.isTrivia = false ∧ token text.toList l = t ∧ l.start = t.start ∧
      l.start < text.utf8ByteSize := by
  rw [tokens_parseQuery] at ht
  obtain ⟨l, hl, rfl⟩ := List.mem_map.mp ht
  obtain ⟨hl, htrivia⟩ := List.mem_filter.mp hl
  refine ⟨l, hl, by simpa using htrivia, rfl, (start_token text.toList l).symm, ?_⟩
  exact Nat.lt_of_lt_of_le (filled_lex text l hl) ((lex_adjoin text).start_le l hl).2

theorem wellPlaced_of_madeAt {place : Nat}
    (h : d.MadeAt (parseQuery text limit).spans text.utf8ByteSize place) :
    (parseQuery text limit).WellPlaced text.utf8ByteSize d := by
  obtain ⟨s, hs, hstart, hle⟩ := h.spot
  obtain ⟨here, hhere, rfl, hstop, -⟩ := h
  have hbounds := bounds_of_spot hhere
  have hordered : d.span.start ≤ d.span.stop := by omega
  have hwithin : d.span.stop ≤ text.utf8ByteSize := by omega
  have hfind {l : Lexeme} (hl : l ∈ lex text) (htrivia : l.isTrivia = false)
      (hplace : l.start = d.span.start) : (ParseError.ofDiagnostic (parseQuery text limit).text
        (parseQuery text limit).tokens d).token = some (token text.toList l) := by
    rw [token_ofDiagnostic, ← hplace, find_stop_eq (lex_adjoin text) (filled_lex text) hl htrivia]
    rfl
  rcases lexeme_of_spot hs with ⟨l, hl, htrivia, rfl⟩ | rfl
  · -- the diagnostic starts with a token
    have hmem : token text.toList l ∈ (parseQuery text limit).tokens := by
      rw [tokens_parseQuery]
      exact List.mem_map_of_mem (List.mem_filter.mpr ⟨hl, by rw [htrivia]; rfl⟩)
    have hsome := hfind hl htrivia hstart.symm
    refine ⟨hordered, hwithin, .inl ⟨_, hmem, (start_token text.toList l).trans hstart.symm⟩,
      fun t => ⟨fun ht => ?_, fun ⟨ht, hplace⟩ => ?_⟩, ?_⟩
    · obtain rfl : token text.toList l = t := Option.some.inj (hsome.symm.trans ht)
      exact ⟨hmem, (start_token text.toList l).trans hstart.symm⟩
    · obtain ⟨m, hm, hsolid, rfl, hmstart, -⟩ := lexeme_of_token ht
      exact hfind hm hsolid (hmstart.trans hplace)
    · have hlt := Nat.lt_of_lt_of_le (filled_lex text l hl) ((lex_adjoin text).start_le l hl).2
      rw [hsome, hstart]
      exact ⟨nofun, fun heq => absurd heq (Nat.ne_of_lt hlt)⟩
  · -- the diagnostic is at the end
    have hstart : d.span.start = text.utf8ByteSize := hstart
    have hnone : (ParseError.ofDiagnostic (parseQuery text limit).text
        (parseQuery text limit).tokens d).token = none := by
      rw [token_ofDiagnostic, hstart, find_stop_eq_none (lex_adjoin text)]
      rfl
    refine ⟨hordered, hwithin, .inr hstart, fun t => ?_, fun _ => hstart, fun _ => hnone⟩
    rw [hnone, hstart]
    refine ⟨nofun, fun ⟨ht, hplace⟩ => ?_⟩
    obtain ⟨m, -, -, -, hmstart, hlt⟩ := lexeme_of_token ht
    exact absurd (hmstart.trans hplace) (Nat.ne_of_lt hlt)

theorem exists_of_forall₂ {α β : Type} {R : α → β → Prop} {as : List α} {bs : List β}
    (h : List.Forall₂ R as bs) : ∀ a ∈ as, ∃ b ∈ bs, R a b := by
  induction h with
  | nil => exact List.forall_mem_nil _
  | cons hab _ ih =>
    refine List.forall_mem_cons.mpr ⟨⟨_, List.mem_cons_self, hab⟩, fun a ha => ?_⟩
    exact (ih a ha).imp fun _ hb => ⟨List.mem_cons_of_mem _ hb.1, hb.2⟩

/-- There are no more places from left to right than there are tokens, and the end. -/
theorem length_places {places : List Nat} {ds : List Diagnostic}
    (hpairwise : places.Pairwise (· < ·))
    (hmade : List.Forall₂ (Diagnostic.MadeAt (parseQuery text limit).spans text.utf8ByteSize)
      places ds) : ds.length ≤ (parseQuery text limit).tokens.length + 1 := by
  have hsubset :
      places ⊆ (parseQuery text limit).spans.map Span.start ++ [text.utf8ByteSize] := by
    intro place hplace
    obtain ⟨d, -, here, hhere, rfl, -⟩ := exists_of_forall₂ hmade place hplace
    refine List.mem_append.mpr (hhere.imp (fun hspan => List.mem_map_of_mem hspan) fun hend => ?_)
    rw [hend]
    exact List.mem_singleton_self _
  have hnodup : places.Nodup := hpairwise.imp Nat.ne_of_lt
  calc ds.length
      = places.length := hmade.length_eq.symm
    _ ≤ ((parseQuery text limit).spans.map Span.start ++ [text.utf8ByteSize]).length :=
        (List.Nodup.subperm hnodup hsubset).length_le
    _ = (parseQuery text limit).tokens.length + 1 := by
        rw [List.length_append, List.length_map, ParsedQuery.spans, List.length_map,
          List.length_singleton]

end Queries

/-- **Diagnostics are well placed and do not cascade**, whatever the text and however few levels
there may be. Each of them lies within the text and starts with a token or at the end, and so does
the error that is made of it. They were made at places from left to right, one at most where each
token was next and one at the end, so that there are no more of them than tokens, and one. -/
theorem parseQuery_places (text : String) (limit : Nat) :
    (∀ d ∈ (parseQuery text limit).diagnostics,
      (parseQuery text limit).WellPlaced text.utf8ByteSize d) ∧
    (∃ places : List Nat, places.Pairwise (· < ·) ∧
      List.Forall₂ (Diagnostic.MadeAt (parseQuery text limit).spans text.utf8ByteSize) places
        (parseQuery text limit).diagnostics) ∧
    (parseQuery text limit).diagnostics.length ≤ (parseQuery text limit).tokens.length + 1 := by
  obtain ⟨places, hpairwise, hmade⟩ := exists_places text limit
  refine ⟨fun d hd => ?_, ⟨places, hpairwise, hmade⟩, length_places hpairwise hmade⟩
  obtain ⟨place, -, hplace⟩ := exists_of_forall₂ hmade.flip d hd
  exact wellPlaced_of_madeAt hplace

/-! ## What is shown of a query -/

section Shown

variable {text : String} {limit : Nat} {d : Diagnostic}

/-- The lexical errors start where garbage does. -/
theorem starts_lexErrors (text : String) (limit : Nat) :
    Diagnostic.starts ((parseQuery text limit).lexErrors.map ParsedQuery.lexDiagnostic) =
      ((lex text).filter (·.kind == .garbage)).map (·.start) := by
  simp [Diagnostic.starts, parseQuery, TokenStream.ofLexemes, ParsedQuery.lexDiagnostic,
    Function.comp_def, Lexeme.span]

/-- No diagnostic starts with garbage: those of a parse start with tokens or at the end. -/
theorem start_ne_of_garbage {g : Lexeme} (hg : g ∈ lex text) (hkind : g.kind = .garbage)
    (hd : d ∈ (parseQuery text limit).diagnostics) : g.start ≠ d.span.start := by
  obtain ⟨places, -, hmade⟩ := exists_places text limit
  obtain ⟨place, -, hplace⟩ := exists_of_forall₂ hmade.flip d hd
  intro heq
  rcases (wellPlaced_of_madeAt hplace).start with ⟨t, ht, hstart⟩ | hend
  · obtain ⟨l, hl, hsolid, -, hlstart, -⟩ := lexeme_of_token ht
    have hdistinct : ((lex text).map (·.start)).Nodup :=
      List.pairwise_map.mpr
        (((lex_adjoin text).pairwise (lex_ne_nil text)).imp Nat.ne_of_lt)
    have hsame : g = l :=
      List.inj_on_of_nodup_map hdistinct hg hl (heq.trans (hstart.symm.trans hlstart.symm))
    rw [← hsame, Lexeme.isTrivia, hkind] at hsolid
    cases hsolid
  · have hle := ((lex_adjoin text).start_le g hg).2
    have hlt := filled_lex text g hg
    omega

end Shown

/-- **Reports lose no error.** No lexical error of a text starts where a diagnostic of its parse
does, so that none of them hides another. What is shown of all that is wrong is as many entries as
there are errors, in ascending order of their starts: one entry for each lexical error, merged with
what is shown of the parse alone. -/
theorem parseQuery_shown (text : String) (limit : Nat) :
    (∀ e ∈ (parseQuery text limit).lexErrors, ∀ d ∈ (parseQuery text limit).diagnostics,
      e.location.span.start ≠ d.span.start) ∧
    Diagnostic.filtered (parseQuery text limit).allDiagnostics =
      ((parseQuery text limit).lexErrors.map ParsedQuery.lexDiagnostic).merge
        (Diagnostic.filtered (parseQuery text limit).diagnostics) Diagnostic.startsBy ∧
    (Diagnostic.starts (Diagnostic.filtered (parseQuery text limit).allDiagnostics)).Pairwise
      (· < ·) ∧
    (Diagnostic.filtered (parseQuery text limit).allDiagnostics).length =
      (parseQuery text limit).errorCount := by
  have hapart : ∀ e ∈ (parseQuery text limit).lexErrors, ∀ d ∈ (parseQuery text limit).diagnostics,
      e.location.span.start ≠ d.span.start := by
    intro e he d hd
    have hstart : e.location.span.start ∈ Diagnostic.starts
        ((parseQuery text limit).lexErrors.map ParsedQuery.lexDiagnostic) :=
      Diagnostic.mem_starts.mpr ⟨_, List.mem_map_of_mem he, rfl⟩
    rw [starts_lexErrors] at hstart
    obtain ⟨g, hg, hgstart⟩ := List.mem_map.mp hstart
    obtain ⟨hg, hkind⟩ := List.mem_filter.mp hg
    rw [← hgstart]
    exact start_ne_of_garbage hg (eq_of_beq hkind) hd
  have horder : (Diagnostic.starts
      ((parseQuery text limit).lexErrors.map ParsedQuery.lexDiagnostic)).Pairwise (· < ·) := by
    rw [starts_lexErrors, List.pairwise_map]
    exact ((lex_adjoin text).pairwise (lex_ne_nil text)).filter _
  have hmerge := Diagnostic.filtered_append horder
    (List.forall_mem_map.mpr hapart)
  refine ⟨hapart, hmerge, (Diagnostic.chosen_filtered _).order, ?_⟩
  calc (Diagnostic.filtered (parseQuery text limit).allDiagnostics).length
      = ((parseQuery text limit).lexErrors.map ParsedQuery.lexDiagnostic).length +
          (Diagnostic.filtered (parseQuery text limit).diagnostics).length := by
        rw [ParsedQuery.allDiagnostics, hmerge, List.length_merge]
    _ = (parseQuery text limit).errorCount := by
        rw [List.length_map, ParsedQuery.errorCount, ParsedQuery.parseErrors, List.length_map]

end SplQuery

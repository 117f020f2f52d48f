import Mathlib.Data.List.Chain
import SplQuery.Proofs.Lexeme.Bounded
import SplQuery.Proofs.Lexeme.Pipes

/-!
# Texts that are cut where their parts end

A text is cut into given parts if each of them is a lexeme, and no lexeme goes on from it into the
next one. Freestanding texts with single blanks between them are cut so. Lexemes that may be parts
of one field pattern are joined only where they touch: then no two of the pieces become one. A value
between two copies of a quote, with a backslash before every quote of that sort and every backslash
in it, is one lexeme wherever it stands, and is read back as the value.

* `Scan.EndsAt` — no lexeme goes on from a text into what comes after it.
* `Lexeme.Loose`, `lex_of_chain` — the lexemes of a text whose parts end where the next ones begin.
* `Lexeme.Spells`, `lex_spaced` — the lexemes of a spaced text.
* `Scan.pieces_quote`, `lex_quote` — a quoted value, and what is read back from it.
-/

namespace SplQuery

open Form Rule

/-! ## The pieces -/

namespace Scan

variable {w s : List Char} {k : Kind}

theorem pieces_nil : pieces [] = [] := by rw [pieces]

/-- No lexeme begins with `w` and goes on into `s`. -/
def EndsAt (w s : List Char) : Prop := ∀ c ∈ s.head?, ∀ t, kindOf? Rule.all (w ++ c :: t) = none

theorem pieces_of_endsAt (hk : kindOf? Rule.all w = some k) (h : EndsAt w s) :
    pieces (w ++ s) = ⟨some k, w⟩ :: pieces s := by
  have hw : w ≠ [] := by
    rintro rfl
    rw [kindOf?_nil] at hk
    cases hk
  refine pieces_append hw hk fun t u ht hsplit => ?_
  obtain ⟨c, t, rfl⟩ := List.exists_cons_of_ne_nil ht
  exact h c (by rw [hsplit]; rfl) t

/-- White space ends before anything else. -/
theorem endsAt_white (hne : w ≠ []) (hw : ∀ c ∈ w, c ∈ blanks) (hs : ∀ c ∈ s.head?, c ∉ blanks) :
    EndsAt w s := by
  intro c hc t
  obtain ⟨b, hb⟩ := exists_head?_of_ne_nil hne
  have hhead : (w ++ c :: t).head? = some b := by rw [List.head?_append, hb, Option.some_or]
  cases hlong : kindOf? Rule.all (w ++ c :: t) with
  | none => rfl
  | some j =>
    have hall := all_blanks_of_kindOf? hhead (hw b (List.mem_of_head? hb)) hlong
    exact absurd (hall c (by simp)) (hs c hc)

theorem pieces_white (hne : w ≠ []) (hw : ∀ c ∈ w, c ∈ blanks) (hs : ∀ c ∈ s.head?, c ∉ blanks) :
    pieces (w ++ s) = ⟨some .whitespace, w⟩ :: pieces s :=
  pieces_of_endsAt (kindOf?_white hne hw) (endsAt_white hne hw hs)

/-- A blank between two texts, as a kind and a text. -/
def gap : Kind × List Char := (.whitespace, [' '])

theorem kindOf?_gap : kindOf? Rule.all gap.2 = some gap.1 := by decide

theorem endsAt_gap (h : Freestanding w k) : EndsAt w gap.2 := by
  intro c hc t
  obtain rfl : ' ' = c := Option.some.inj hc
  exact h.ends t

theorem gap_endsAt (h : Freestanding w k) : EndsAt gap.2 w :=
  endsAt_white (List.cons_ne_nil ' ' []) (by simp [gap, blanks]) h.start

/-- A text whose parts end where the next ones begin is cut into them. -/
theorem pieces_of_chain {toks : List (Kind × List Char)}
    (hkind : ∀ t ∈ toks, kindOf? Rule.all t.2 = some t.1)
    (hchain : toks.IsChain fun a b => EndsAt a.2 b.2) :
    pieces (toks.flatMap (·.2)) = toks.map fun t => ⟨some t.1, t.2⟩ := by
  induction toks with
  | nil => exact pieces_nil
  | cons t ts ih =>
    obtain ⟨ht, hts⟩ := List.forall_mem_cons.mp hkind
    have hends : EndsAt t.2 (ts.flatMap (·.2)) := by
      rcases ts with _ | ⟨u, us⟩
      · intro c hc
        cases hc
      · obtain ⟨c, cs, hcs⟩ : ∃ c cs, u.2 = c :: cs := by
          rcases hu : u.2 with _ | ⟨c, cs⟩
          · have hkind := hts u List.mem_cons_self
            rw [hu, kindOf?_nil] at hkind
            cases hkind
          · exact ⟨c, cs, rfl⟩
        have hstop := (List.isChain_cons_cons.mp hchain).1
        rw [EndsAt, hcs] at hstop
        rw [EndsAt, List.flatMap_cons, hcs]
        exact hstop
    rw [List.flatMap_cons, pieces_of_endsAt ht hends, ih hts (List.isChain_of_isChain_cons hchain)]
    rfl

/-- Texts with blanks between them, and perhaps one behind the last, as kinds and texts. -/
def spaced (toks : List (Kind × List Char)) (trail : Bool) : List (Kind × List Char) :=
  toks.intersperse gap ++ if trail then [gap] else []

/-- A relation of neighbours holds throughout if it holds at every blank. -/
theorem spaced_isChain {R : Kind × List Char → Kind × List Char → Prop}
    {toks : List (Kind × List Char)} (h : ∀ t ∈ toks, R t gap ∧ R gap t) (trail : Bool) :
    (spaced toks trail).IsChain R := by
  induction toks with
  | nil => cases trail <;> simp [spaced]
  | cons t ts ih =>
    obtain ⟨ht, hts⟩ := List.forall_mem_cons.mp h
    rcases ts with _ | ⟨u, us⟩
    · cases trail
      · exact .singleton t
      · exact .cons_cons ht.1 (.singleton gap)
    · have hsplit : spaced (t :: u :: us) trail = t :: gap :: spaced (u :: us) trail := rfl
      obtain ⟨vs, hvs⟩ : ∃ vs, spaced (u :: us) trail = u :: vs := by
        cases us <;> exact ⟨_, rfl⟩
      have ih := ih hts
      rw [hsplit]
      rw [hvs] at ih ⊢
      exact .cons_cons ht.1 (.cons_cons (hts u List.mem_cons_self).2 ih)

theorem mem_spaced {toks : List (Kind × List Char)} {trail : Bool} {e : Kind × List Char}
    (h : e ∈ spaced toks trail) : e = gap ∨ e ∈ toks := by
  induction toks with
  | nil =>
    cases trail with
    | false => cases h
    | true => exact .inl (List.mem_singleton.mp h)
  | cons t ts ih =>
    rcases ts with _ | ⟨u, us⟩
    · have hsplit : spaced [t] trail = t :: spaced [] trail := rfl
      rw [hsplit] at h
      rcases List.mem_cons.mp h with rfl | h
      · exact .inr List.mem_cons_self
      · exact (ih h).imp_right (List.mem_cons_of_mem t)
    · have hsplit : spaced (t :: u :: us) trail = t :: gap :: spaced (u :: us) trail := rfl
      rw [hsplit] at h
      rcases List.mem_cons.mp h with rfl | h
      · exact .inr List.mem_cons_self
      · rcases List.mem_cons.mp h with rfl | h
        · exact .inl rfl
        · exact (ih h).imp_right (List.mem_cons_of_mem t)

/-- Pieces that all have a kind are what they are: nothing of them is joined. -/
theorem foldr_addPiece (ts : List (Kind × List Char)) :
    (ts.map fun t => (⟨some t.1, t.2⟩ : Piece)).foldr addPiece [] = ts := by
  induction ts with
  | nil => rfl
  | cons t ts ih =>
    rw [List.map_cons, List.foldr_cons, ih]
    rfl

theorem placeAll_entries (start : Nat) (ts : List (Kind × List Char)) :
    (placeAll start ts).map Lexeme.entry = ts.map fun t => (t.1, String.ofList t.2) := by
  induction ts generalizing start with
  | nil => rfl
  | cons t ts ih =>
    obtain ⟨kind, text⟩ := t
    rw [placeAll, List.map_cons, ih, List.map_cons]
    rfl

end Scan

/-! ## Lexemes that stand apart -/

namespace Lexeme

/-- No two lexemes that may be parts of a field pattern stand next to each other. -/
def Loose (ls : List Lexeme) : Prop :=
  ls.IsChain fun a b => Wildcard.isPart a.kind = false ∨ Wildcard.isPart b.kind = false

theorem Loose.suffix {ks ls : List Lexeme} (h : Loose ls) (hks : ks <:+ ls) : Loose ks := by
  obtain ⟨js, rfl⟩ := hks
  exact (List.isChain_append.mp h).2.1

/-- No two lexemes that are not trivia stand next to each other. -/
def Apart (ls : List Lexeme) : Prop :=
  ls.IsChain fun a b => a.isTrivia = true ∨ b.isTrivia = true

/-- Lexemes that are given ones, as kinds and texts, each apart from the others, without
garbage. -/
structure Spells (ls : List Lexeme) (toks : List (Kind × String)) : Prop where
  entries : (ls.filter (!·.isTrivia)).map entry = toks
  apart : Apart ls
  clean : ∀ l ∈ ls, l.kind ≠ .garbage

theorem Apart.suffix {ks ls : List Lexeme} (h : Apart ls) (hks : ks <:+ ls) : Apart ks := by
  obtain ⟨js, rfl⟩ := hks
  exact (List.isChain_append.mp h).2.1

end Lexeme

namespace Wildcard

open Lexeme

theorem isTrivia_of_isPart {k : Kind} (h : isPart k = true) : k.isTrivia = false := by
  cases k <;> first | rfl | cases h

/-- One lexeme by itself is no field pattern. -/
theorem isPattern_single (before : List Kind) (k : Kind) (after : Option Kind) :
    isPattern before [k] after = false := by
  have hends : starsAtEnds [k] = false := by
    by_cases hk : k = .multiply
    · subst hk
      decide
    · have hbeq : (Kind.multiply == k) = false := by simpa using Ne.symm hk
      simp only [starsAtEnds, List.contains_cons, List.contains_nil, hbeq, Bool.or_false,
        Bool.false_and]
  rw [isPattern, hends]
  rfl

/-- Where no two parts stand next to each other, nothing is joined. -/
theorem joinRuns_of_loose (before : List Kind) {ls : List Lexeme} (h : Loose ls) :
    joinRuns before ls = ls := by
  induction before, ls using joinRuns.induct with
  | case1 before => rw [joinRuns]
  | case2 before l ls hpart run rest kinds ih =>
    have hnext : ls.takeWhile (isPart ·.kind) = [] ∧ ls.dropWhile (isPart ·.kind) = ls := by
      rcases ls with _ | ⟨k, ls⟩
      · exact ⟨rfl, rfl⟩
      · have hnot : ¬isPart k.kind = true := by
          have hor := (List.isChain_cons_cons.mp h).1
          rw [hpart] at hor
          exact Bool.eq_false_iff.mp (hor.resolve_left Bool.noConfusion)
        exact ⟨List.takeWhile_cons_of_neg hnot, List.dropWhile_cons_of_neg hnot⟩
    have hrest : rest = ls := hnext.2
    have hrun : run = [l] := by
      change l :: ls.takeWhile _ = [l]
      rw [hnext.1]
    have hpattern : isPattern before (run.map (·.kind)) (rest.head?.map (·.kind)) = false := by
      rw [hrun]
      exact isPattern_single before l.kind _
    rw [joinRuns, if_pos hpart]
    change (if isPattern before (run.map (·.kind)) (rest.head?.map (·.kind)) = true then
      [join run l.start] else run) ++ joinRuns _ rest = _
    rw [hpattern, if_neg Bool.false_ne_true, ih (hrest ▸ h.suffix (List.suffix_cons l ls)), hrun,
      hrest]
    rfl
  | case3 before l ls hpart ih =>
    rw [joinRuns, if_neg hpart, ih (h.suffix (List.suffix_cons l ls))]

end Wildcard

open Scan Lexeme

/-! What is known of lexemes whose kinds and texts are given. -/

namespace Lexeme

variable {ls : List Lexeme} {toks : List (Kind × List Char)}

theorem kinds_of_entries (h : ls.map entry = toks.map fun t => (t.1, String.ofList t.2)) :
    ls.map (·.kind) = toks.map (·.1) := by
  have hfirst := congrArg (List.map (·.1)) h
  simpa only [List.map_map, Function.comp_def, Lexeme.entry] using hfirst

/-- Neighbours are related if their kinds are. -/
theorem isChain_of_entries (R : Kind → Kind → Prop)
    (h : ls.map entry = toks.map fun t => (t.1, String.ofList t.2))
    (hchain : toks.IsChain fun a b => R a.1 b.1) : ls.IsChain fun a b => R a.kind b.kind := by
  have hmap : (ls.map (·.kind)).IsChain R := by
    rw [kinds_of_entries h, List.isChain_map]
    exact hchain
  exact (List.isChain_map fun l : Lexeme => l.kind).mp hmap

theorem clean_of_entries (h : ls.map entry = toks.map fun t => (t.1, String.ofList t.2))
    (hclean : ∀ e ∈ toks, e.1 ≠ .garbage) : ∀ l ∈ ls, l.kind ≠ .garbage := by
  intro l hl
  have hmem : l.kind ∈ toks.map (·.1) := kinds_of_entries h ▸ List.mem_map_of_mem hl
  obtain ⟨e, he, hkind⟩ := List.mem_map.mp hmem
  rw [← hkind]
  exact hclean e he

theorem solid_of_entries (h : ls.map entry = toks.map fun t => (t.1, String.ofList t.2)) :
    (ls.filter (!·.isTrivia)).map entry =
      (toks.filter (!·.1.isTrivia)).map fun t => (t.1, String.ofList t.2) := by
  have hls : (ls.filter (!·.isTrivia)).map entry = (ls.map entry).filter (!·.1.isTrivia) := by
    rw [List.filter_map]
    rfl
  rw [hls, h, List.filter_map]
  rfl

end Lexeme

/-- The lexemes of a text whose parts end where the next ones begin, and of which no two neighbours
are joined, are these parts. -/
theorem lex_of_chain {text : String} {toks : List (Kind × List Char)}
    (htext : text.toList = toks.flatMap (·.2))
    (hkind : ∀ t ∈ toks, kindOf? Rule.all t.2 = some t.1)
    (hchain : toks.IsChain fun a b => EndsAt a.2 b.2)
    (hloose : toks.IsChain fun a b => Wildcard.isPart a.1 = false ∨ Wildcard.isPart b.1 = false) :
    (lex text).map entry = toks.map fun t => (t.1, String.ofList t.2) := by
  have hplaced : Scan.lexemes text.toList = placeAll 0 toks := by
    rw [Scan.lexemes, htext, pieces_of_chain hkind hchain, foldr_addPiece]
  have hentries := placeAll_entries 0 toks
  have hapart : Loose (placeAll 0 toks) :=
    isChain_of_entries (fun j k => Wildcard.isPart j = false ∨ Wildcard.isPart k = false) hentries
      hloose
  rw [lex, hplaced, Wildcard.joinRuns_of_loose [] hapart, hentries]

/-! ## Spaced texts -/

/-- Apart from the blanks there are the texts. -/
theorem spaced_filter {toks : List (Kind × List Char)} {trail : Bool}
    (h : ∀ t ∈ toks, t.1.isTrivia = false) :
    (spaced toks trail).filter (!·.1.isTrivia) = toks := by
  induction toks with
  | nil => cases trail <;> rfl
  | cons t ts ih =>
    obtain ⟨ht, hts⟩ := List.forall_mem_cons.mp h
    have hkeep : (!t.1.isTrivia) = true := by rw [ht]; rfl
    rcases ts with _ | ⟨u, us⟩
    · have hsplit : spaced [t] trail = t :: spaced [] trail := rfl
      rw [hsplit, List.filter_cons, if_pos hkeep, ih hts]
    · have hsplit : spaced (t :: u :: us) trail = t :: gap :: spaced (u :: us) trail := rfl
      rw [hsplit, List.filter_cons, if_pos hkeep, List.filter_cons_of_neg (by decide), ih hts]

/-- What lexemes spell can be seen from their kinds and texts. -/
theorem Lexeme.Spells.of_entries {ls : List Lexeme} {es : List (Kind × List Char)}
    {toks : List (Kind × List Char)}
    (h : ls.map entry = es.map fun t => (t.1, String.ofList t.2))
    (hfilter : es.filter (!·.1.isTrivia) = toks)
    (hchain : es.IsChain fun a b => a.1.isTrivia = true ∨ b.1.isTrivia = true)
    (hclean : ∀ e ∈ es, e.1 ≠ .garbage) :
    Spells ls (toks.map fun t => (t.1, String.ofList t.2)) := by
  refine ⟨?_, ?_, clean_of_entries h hclean⟩
  · rw [solid_of_entries h, hfilter]
  · exact isChain_of_entries (fun j k => j.isTrivia = true ∨ k.isTrivia = true) h hchain

/-- The characters of a spaced text. -/
theorem toList_spaced (toks : List (Kind × String)) (trail : Bool) :
    (" ".intercalate (toks.map (·.2)) ++ if trail then " " else "").toList =
      (spaced (toks.map fun t => (t.1, t.2.toList)) trail).flatMap (·.2) := by
  have htrail : (if trail then " " else "" : String).toList =
      (if trail then [gap] else []).flatMap (·.2) := by
    cases trail <;> rfl
  rw [String.toList_append, String.toList_intercalate, htrail, spaced, List.flatMap_append]
  congr 1
  induction toks with
  | nil => rfl
  | cons t ts ih =>
    rcases ts with _ | ⟨u, us⟩
    · simp
    · rw [List.map_cons, List.map_cons, List.map_cons, List.map_cons, List.intercalate_cons_cons]
      rw [List.map_cons, List.map_cons] at ih
      rw [ih]
      simp [gap]

/-- The lexemes of a text that is made of freestanding texts with single blanks between them, and
perhaps one behind the last, are those texts with blanks between them. -/
theorem lex_spaced {toks : List (Kind × String)}
    (h : ∀ t ∈ toks, Freestanding t.2.toList t.1 ∧ t.1.isTrivia = false) (trail : Bool) :
    Spells (lex (" ".intercalate (toks.map (·.2)) ++ if trail then " " else "")) toks := by
  generalize hchars : toks.map (fun t => (t.1, t.2.toList)) = chars
  have hfree : ∀ t ∈ chars, Freestanding t.2 t.1 := by
    subst hchars
    rw [List.forall_mem_map]
    exact fun t ht => (h t ht).1
  have hsolid : ∀ t ∈ chars, t.1.isTrivia = false := by
    subst hchars
    rw [List.forall_mem_map]
    exact fun t ht => (h t ht).2
  have htext : (" ".intercalate (toks.map (·.2)) ++ if trail then " " else "").toList =
      (spaced chars trail).flatMap (·.2) := by
    rw [toList_spaced, hchars]
  have hentries := lex_of_chain htext (fun t ht => ?_)
    (spaced_isChain (fun t ht => ⟨endsAt_gap (hfree t ht), gap_endsAt (hfree t ht)⟩) trail)
    (spaced_isChain (fun t _ => ⟨.inr rfl, .inl rfl⟩) trail)
  · have hback : chars.map (fun t => (t.1, String.ofList t.2)) = toks := by
      rw [← hchars, List.map_map]
      simp [Function.comp_def]
    have hspells := Spells.of_entries hentries (spaced_filter hsolid)
      (spaced_isChain (fun t _ => ⟨.inr rfl, .inl rfl⟩) trail) fun e he hgarbage => ?_
    · rwa [hback] at hspells
    rcases mem_spaced he with rfl | he
    · cases hgarbage
    · have htrivia := hsolid e he
      rw [hgarbage] at htrivia
      cases htrivia
  · rcases mem_spaced ht with rfl | ht
    · exact kindOf?_gap
    · exact (hfree t ht).kind

/-! ## Quoted values -/

section Quoted

variable {q : Char}

/-- A value between quotes is a string literal. -/
theorem kindOf?_quote (hq : q = '"' ∨ q = '\'') (cs : List Char) :
    kindOf? Rule.all (Text.quote q cs) = some .stringLiteral := by
  have hadmits : Admits (quoted q) (Text.quote q cs) := by
    refine admits_quoted_quote ?_ cs
    rcases hq with rfl | rfl <;> decide
  have hmem : (⟨quoted q, .stringLiteral⟩ : Rule) ∈ Rule.all := by
    refine List.mem_append_right _ ?_
    rcases hq with rfl | rfl <;> simp [patterns]
  cases hkind : kindOf? Rule.all (Text.quote q cs) with
  | none => exact absurd hadmits (kindOf?_eq_none_iff.mp hkind _ hmem)
  | some k =>
    -- the rule for these quotes is the only one for texts that begin with one of them
    obtain ⟨r, hr, rfl, -⟩ := exists_rule_of_kindOf? (c := q) rfl hkind
    rcases hq with rfl | rfl
    · rw [rules_of_doubleQuote, List.mem_singleton] at hr
      rw [hr]
    · rw [rules_of_singleQuote, List.mem_singleton] at hr
      rw [hr]

/-- A value between quotes is the first piece of every text that begins with it. -/
theorem Scan.pieces_quote (hq : q = '"' ∨ q = '\'') (cs s : List Char) :
    pieces (Text.quote q cs ++ s) = ⟨some .stringLiteral, Text.quote q cs⟩ :: pieces s := by
  have hkind := kindOf?_quote hq cs
  have hmem : q ∈ ['\x60', '"', '\''] := by
    rcases hq with rfl | rfl <;> decide
  refine pieces_append (List.cons_ne_nil _ _) hkind fun t u ht _ => ?_
  cases hlong : kindOf? Rule.all (Text.quote q cs ++ t) with
  | none => rfl
  | some j => exact absurd (eq_nil_of_kindOf?_quote hmem rfl hkind hlong) ht

/-- **Every value can be quoted and read back.** Between double or single quotes, with a backslash
before each backslash and each such quote in it, it is one lexeme, a string literal that covers the
text, and the value of that text is the value itself. -/
theorem lex_quote (hq : q = '"' ∨ q = '\'') (value : String) :
    lex (String.ofList (Text.quote q value.toList)) =
        [⟨.stringLiteral, 0, String.ofList (Text.quote q value.toList)⟩] ∧
      Text.unquote (String.ofList (Text.quote q value.toList)) = value := by
  refine ⟨?_, Text.unquote_quote hq value⟩
  have hpieces := Scan.pieces_quote hq value.toList []
  rw [List.append_nil, Scan.pieces_nil] at hpieces
  have hlexemes : Scan.lexemes (Text.quote q value.toList) =
      [⟨.stringLiteral, 0, String.ofList (Text.quote q value.toList)⟩] := by
    rw [Scan.lexemes, hpieces]
    rfl
  rw [lex, String.toList_ofList, hlexemes, Wildcard.joinRuns_other [] rfl, Wildcard.joinRuns]

/-- A value that ends with backslashes, and holds the quote and a line feed. -/
theorem lex_quote_sample :
    ('\'' = '"' ∨ '\'' = '\'') ∧
      lex "'it\\'s\n\\\\\\\\'" = [⟨.stringLiteral, 0, "'it\\'s\n\\\\\\\\'"⟩] ∧
      Text.unquote "'it\\'s\n\\\\\\\\'" = "it's\n\\\\" :=
  ⟨.inr rfl, lex_quote (.inr rfl) "it's\n\\\\"⟩

end Quoted

end SplQuery

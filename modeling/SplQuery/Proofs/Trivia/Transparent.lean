import SplQuery.Proofs.Parse
import SplQuery.Proofs.Twin.Basic
import SplQuery.Proofs.Twin.Grammar

/-!
# Trivia does not matter

How much trivia stands between two lexemes, and of which kind, makes no difference to a parse. Two
queries that differ in nothing else are parsed to trees that differ in trivia only, and the same is
noted at the same lexemes. Places are told by the indices of the lexemes that are no trivia.

* `Lexeme.profile` — the lexemes that are no trivia, each with whether trivia stands before it.
* `Lexeme.startOf`, `Lexeme.stopOf` — where the lexeme with an index starts and stops.
* `SamePlace` — stretches that start at the same lexeme and stop at the same lexeme.
* `Parse.trivia` — the coupling of two such parses: trees are compared without trivia, places as
  indices of lexemes.
* `parseTree_sameButTrivia` — trees and diagnostics of two texts.
-/

namespace SplQuery

/-! ## Lexemes up to trivia -/

namespace Lexeme

/-- The lexemes that are no trivia, each with whether it stands apart from the one before it.
`apart` says so of the first if there is no trivia before it. -/
def profile (apart : Bool) : List Lexeme → List (Bool × Kind × String)
  | [] => []
  | l :: ls => if l.isTrivia = true then profile true ls else (apart, l.entry) :: profile false ls

/-- The two differ only in trivia: the other lexemes are the same, and between two of them trivia
stands in both or in neither. -/
def SameButTrivia (ls ms : List Lexeme) : Prop := profile true ls = profile true ms

instance (ls ms : List Lexeme) : Decidable (SameButTrivia ls ms) :=
  inferInstanceAs (Decidable (profile true ls = profile true ms))

section Profile

variable {l : Lexeme} {ls : List Lexeme} {apart : Bool}

theorem profile_of_trivia (h : l.isTrivia = true) : profile apart (l :: ls) = profile true ls := by
  rw [profile, if_pos h]

theorem profile_of_solid (h : l.isTrivia = false) :
    profile apart (l :: ls) = (apart, l.entry) :: profile false ls := by
  rw [profile, h, if_neg Bool.false_ne_true]

/-- Past trivia nothing stands apart. -/
theorem profile_dropWhile (apart : Bool) (ls : List Lexeme) :
    profile false (ls.dropWhile isTrivia) =
      (profile apart ls).modifyHead fun e => (false, e.2) := by
  induction ls generalizing apart with
  | nil => rfl
  | cons l ls ih =>
    cases hl : l.isTrivia with
    | true => rw [List.dropWhile_cons_of_pos hl, ih true, profile_of_trivia hl]
    | false =>
      have hneg : ¬ l.isTrivia = true := by rw [hl]; exact Bool.false_ne_true
      rw [List.dropWhile_cons_of_neg hneg, profile_of_solid hl, profile_of_solid hl]
      rfl

/-- What comes first after trivia stands apart. -/
theorem profile_true_head (ls : List Lexeme) : ∀ e ∈ (profile true ls).head?, e.1 = true := by
  induction ls with
  | nil => exact fun e he => by cases he
  | cons l ls ih =>
    cases hl : l.isTrivia with
    | true =>
      rw [profile_of_trivia hl]
      exact ih
    | false =>
      rw [profile_of_solid hl]
      rintro e ⟨⟩
      rfl

/-- Whether the first lexeme is no trivia. -/
theorem any_head?_eq_profile (ls : List Lexeme) :
    ls.head?.any (!·.isTrivia) = (profile false ls).head?.any (!·.1) := by
  cases ls with
  | nil => rfl
  | cons l ls =>
    cases hl : l.isTrivia with
    | true =>
      rw [profile_of_trivia hl, List.head?_cons, Option.any_some, hl]
      have hhead := profile_true_head ls
      cases hprofile : (profile true ls).head? with
      | none => rfl
      | some e =>
        rw [Option.any_some, hhead e hprofile]
    | false =>
      rw [profile_of_solid hl, List.head?_cons, Option.any_some, hl]
      rfl

theorem length_profile (apart : Bool) (ls : List Lexeme) :
    (profile apart ls).length = (solid ls).length := by
  induction ls generalizing apart with
  | nil => rfl
  | cons l ls ih =>
    cases hl : l.isTrivia with
    | true =>
      rw [profile_of_trivia hl, ih, solid, solid, List.filter_cons_of_neg (by rw [hl]; decide)]
    | false =>
      rw [profile_of_solid hl, List.length_cons, ih, solid, solid,
        List.filter_cons_of_pos (by rw [hl]; rfl), List.length_cons]

end Profile

/-! ## Places -/

/-- Where the lexeme with an index starts, trivia not counted. After the last one comes the end. -/
def startOf (ls : List Lexeme) (stop index : Nat) : Nat := (solid ls)[index]?.elim stop (·.start)

/-- Where the lexeme with an index stops. -/
def stopOf (ls : List Lexeme) (stop index : Nat) : Nat := (solid ls)[index]?.elim stop (·.stop)

/-- The lexemes stand one after another up to the end, and none of them is empty. -/
structure Cover (ls : List Lexeme) (stop : Nat) : Prop where
  adjoin : Adjoin 0 ls stop
  ne_nil : ∀ l ∈ ls, l.text.toList ≠ []

theorem cover_lex (text : String) : Cover (lex text) text.utf8ByteSize :=
  ⟨lex_adjoin text, lex_ne_nil text⟩

theorem startOf_of_lt {ls : List Lexeme} {stop i : Nat} (h : i < (solid ls).length) :
    startOf ls stop i = ((solid ls)[i]).start := by
  rw [startOf, List.getElem?_eq_getElem h, Option.elim_some]

theorem startOf_length (ls : List Lexeme) (stop : Nat) :
    startOf ls stop (solid ls).length = stop := by
  rw [startOf, List.getElem?_eq_none (Nat.le_refl _), Option.elim_none]

theorem Cover.startOf_lt {ls : List Lexeme} {stop i j : Nat} (h : Cover ls stop) (hij : i < j)
    (hj : j ≤ (solid ls).length) : startOf ls stop i < startOf ls stop j := by
  have hi : i < (solid ls).length := by omega
  have hmem : (solid ls)[i] ∈ ls := (List.mem_filter.mp (List.getElem_mem hi)).1
  rw [startOf_of_lt hi]
  rcases Nat.lt_or_eq_of_le hj with hlt | rfl
  · have hpairwise : (solid ls).Pairwise fun l m => l.start < m.start :=
      (h.adjoin.pairwise h.ne_nil).filter _
    rw [startOf_of_lt hlt]
    exact List.pairwise_iff_getElem.mp hpairwise i j hi hlt hij
  · rw [startOf_length]
    exact Nat.lt_of_lt_of_le (start_lt_stop (h.ne_nil _ hmem)) (h.adjoin.start_le _ hmem).2

/-- A place is the start of one lexeme only. -/
theorem Cover.startOf_inj {ls : List Lexeme} {stop i j : Nat} (h : Cover ls stop)
    (hi : i ≤ (solid ls).length) (hj : j ≤ (solid ls).length) :
    startOf ls stop i = startOf ls stop j ↔ i = j := by
  refine ⟨fun heq => ?_, congrArg _⟩
  rcases Nat.lt_trichotomy i j with hlt | rfl | hlt
  · exact absurd heq (Nat.ne_of_lt (h.startOf_lt hlt hj))
  · rfl
  · exact absurd heq.symm (Nat.ne_of_lt (h.startOf_lt hlt hi))

/-- What is left of a list has its lexemes at the end of it. -/
theorem solid_suffix {ls rest : List Lexeme} (h : rest <:+ ls) :
    ∃ i, i + (solid rest).length = (solid ls).length ∧ (solid ls).drop i = solid rest := by
  obtain ⟨read, rfl⟩ := h
  refine ⟨(solid read).length, ?_, ?_⟩
  · rw [solid_append, List.length_append]
  · rw [solid_append]
    exact List.drop_left

end Lexeme

/-! ## Diagnostics -/

section Places

variable (ls ms : List Lexeme) (stop stop' : Nat)

/-- The stretches start at the same lexeme and stop at the same lexeme, or at the end. -/
def SamePlace (s t : Span) : Prop :=
  ∃ i j, i ≤ (Lexeme.solid ls).length ∧ j ≤ (Lexeme.solid ls).length ∧
    s = ⟨Lexeme.startOf ls stop i, Lexeme.stopOf ls stop j⟩ ∧
    t = ⟨Lexeme.startOf ms stop' i, Lexeme.stopOf ms stop' j⟩

/-- The diagnostics are the same but for the trivia around the lexemes that they name. -/
structure SameDiagnostic (d e : Diagnostic) : Prop where
  kind : d.kind = e.kind
  span : SamePlace ls ms stop stop' d.span e.span
  message : d.message = e.message
  related : List.Forall₂ (fun r q => SamePlace ls ms stop stop' r.span q.span ∧
    r.message = q.message) d.related e.related
  hints : d.hints = e.hints

end Places

open State Lexeme

/-! ## Notes -/

section Notes

variable {ls ms : List Lexeme} {stop stop' : Nat}

/-- The notes of two parses are the same but for the trivia around the lexemes that they name. -/
structure SameNotes (ls ms : List Lexeme) (stop stop' : Nat) (n m : Notes) : Prop where
  reports : List.Forall₂ (SameDiagnostic ls ms stop stop') n.reports m.reports
  lastReport : (n.lastReport = none ∧ m.lastReport = none) ∨
    ∃ i ≤ (solid ls).length, n.lastReport = some (startOf ls stop i) ∧
      m.lastReport = some (startOf ms stop' i)
  openers : List.Forall₂ (fun o p => o.kind = p.kind ∧ SamePlace ls ms stop stop' o.span p.span)
    n.openers m.openers
  commands : n.commands = m.commands
  stop : n.stop = stop ∧ m.stop = stop'

/-- The lexemes to come are at the end of each of the queries, and they are the same but for
trivia. -/
structure SameRest (ls ms a b : List Lexeme) : Prop where
  profile : profile false a = profile false b
  suffix : a <:+ ls
  suffix' : b <:+ ms

/-- What is ahead is the lexeme with an index. -/
theorem spanAhead_eq {rest : List Lexeme} {n : Notes} {i : Nat} (hstop : n.stop = stop)
    (hdrop : (solid ls).drop i = solid rest) (hready : ∀ l ∈ rest.head?, l.isTrivia = false) :
    n.spanAhead rest = ⟨startOf ls stop i, stopOf ls stop i⟩ := by
  have hhead : (solid ls)[i]? = rest.head? := by
    rw [← List.head?_drop, hdrop, solid]
    cases rest with
    | nil => rfl
    | cons l rest => rw [List.filter_cons_of_pos (by rw [hready l rfl]; rfl)]; rfl
  rw [Notes.spanAhead, startOf, stopOf, hhead]
  cases rest.head? with
  | none => rw [Option.elim_none, Option.elim_none, Option.elim_none, hstop]; rfl
  | some l => rfl

/-- What is ahead has the same index in both. -/
theorem SameRest.spanAhead {a b : List Lexeme} {n m : Notes} (h : SameRest ls ms a b)
    (hlength : (solid ls).length = (solid ms).length) (hn : SameNotes ls ms stop stop' n m)
    (ha : ∀ l ∈ a.head?, l.isTrivia = false) (hb : ∀ l ∈ b.head?, l.isTrivia = false) :
    ∃ i ≤ (solid ls).length, n.spanAhead a = ⟨startOf ls stop i, stopOf ls stop i⟩ ∧
      m.spanAhead b = ⟨startOf ms stop' i, stopOf ms stop' i⟩ := by
  obtain ⟨i, hi, hdrop⟩ := solid_suffix h.suffix
  obtain ⟨j, hj, hdrop'⟩ := solid_suffix h.suffix'
  have hsolid : (solid a).length = (solid b).length := by
    rw [← length_profile false, h.profile, length_profile]
  obtain rfl : j = i := by omega
  exact ⟨j, by omega, spanAhead_eq hn.stop.1 hdrop ha, spanAhead_eq hn.stop.2 hdrop' hb⟩

/-- A report is made at the same lexeme in both, or in neither. -/
theorem SameNotes.told {n m : Notes} {i : Nat} {span span' : Span} {related related' : List Related}
    (h : SameNotes ls ms stop stop' n m) (hls : Cover ls stop) (hms : Cover ms stop')
    (hlength : (solid ls).length = (solid ms).length) (hi : i ≤ (solid ls).length)
    (hspan : SamePlace ls ms stop stop' span span') (kind : DiagnosticKind) (message : String)
    (hrelated : List.Forall₂ (fun r q => SamePlace ls ms stop stop' r.span q.span ∧
      r.message = q.message) related related') :
    SameNotes ls ms stop stop' (n.told (startOf ls stop i) kind span message related)
      (m.told (startOf ms stop' i) kind span' message related') := by
  have hsame : (n.lastReport == some (startOf ls stop i)) =
      (m.lastReport == some (startOf ms stop' i)) := by
    obtain ⟨hn, hm⟩ | ⟨j, hj, hn, hm⟩ := h.lastReport
    · rw [hn, hm]
      rfl
    · rw [hn, hm, Bool.eq_iff_iff, beq_iff_eq, beq_iff_eq, Option.some_inj, Option.some_inj,
        hls.startOf_inj hj hi, hms.startOf_inj (hlength ▸ hj) (hlength ▸ hi)]
  have hhint : n.usageHint = m.usageHint := by
    rw [Notes.usageHint, Notes.usageHint, h.commands]
  rw [Notes.told, Notes.told, hsame]
  split
  · exact h
  · exact ⟨.cons ⟨rfl, hspan, rfl, hrelated, congrArg Option.toList hhint⟩ h.reports,
      .inr ⟨i, hi, rfl, rfl⟩, h.openers, h.commands, h.stop⟩

/-- What is told of the lexemes ahead is the same. -/
theorem SameNotes.toldAt {n m : Notes} {a b : List Lexeme} (h : SameNotes ls ms stop stop' n m)
    (hls : Cover ls stop) (hms : Cover ms stop')
    (hlength : (solid ls).length = (solid ms).length) (hrest : SameRest ls ms a b)
    (ha : ∀ l ∈ a.head?, l.isTrivia = false) (hb : ∀ l ∈ b.head?, l.isTrivia = false)
    (kind : DiagnosticKind) (detail : Option String) :
    SameNotes ls ms stop stop' (n.toldAt kind (n.spanAhead a) detail)
      (m.toldAt kind (m.spanAhead b) detail) := by
  obtain ⟨i, hi, hn, hm⟩ := hrest.spanAhead hlength h ha hb
  rw [hn, hm]
  exact h.told hls hms hlength hi ⟨i, i, hi, hi, rfl, rfl⟩ kind _ .nil

theorem SameNotes.closed {n m : Notes} (h : SameNotes ls ms stop stop' n m) :
    SameNotes ls ms stop stop' n.closed m.closed := by
  refine ⟨h.reports, h.lastReport, ?_, h.commands, h.stop⟩
  have hdrop := List.forall₂_drop 1 h.openers
  rwa [List.drop_one, List.drop_one] at hdrop

/-- A closer is missed at the same lexeme in both, and told of the same delimiter. -/
theorem SameNotes.unclosed {n m : Notes} {a b : List Lexeme} (h : SameNotes ls ms stop stop' n m)
    (hls : Cover ls stop) (hms : Cover ms stop')
    (hlength : (solid ls).length = (solid ms).length) (hrest : SameRest ls ms a b)
    (ha : ∀ l ∈ a.head?, l.isTrivia = false) (hb : ∀ l ∈ b.head?, l.isTrivia = false)
    (kind : DiagnosticKind) :
    SameNotes ls ms stop stop' (n.unclosed kind (n.spanAhead a))
      (m.unclosed kind (m.spanAhead b)) := by
  obtain ⟨i, hi, hn, hm⟩ := hrest.spanAhead hlength h ha hb
  have hclosed := h.closed
  have hopeners := h.openers
  rw [Notes.unclosed, Notes.unclosed, hn, hm]
  cases ho : n.openers with
  | nil =>
    rw [ho] at hopeners
    rw [List.forall₂_nil_left_iff.mp hopeners]
    exact hclosed
  | cons o os =>
    rw [ho] at hopeners
    obtain ⟨p, ps, ⟨hkind, j, k, hj, hk, hspan, hspan'⟩, -, hp⟩ :=
      List.forall₂_cons_left_iff.mp hopeners
    rw [hp, List.head?_cons, List.head?_cons, Option.elim_some, Option.elim_some, hspan, hspan',
      hkind]
    refine hclosed.told hls hms hlength hi ⟨j, i, hj, hi, rfl, rfl⟩ kind _ ?_
    exact .cons ⟨⟨j, k, hj, hk, rfl, rfl⟩, rfl⟩ .nil

/-- The limit is told in both, or in neither. -/
theorem SameNotes.tooDeep {n m : Notes} {a b : List Lexeme} (h : SameNotes ls ms stop stop' n m)
    (hls : Cover ls stop) (hms : Cover ms stop')
    (hlength : (solid ls).length = (solid ms).length) (hrest : SameRest ls ms a b)
    (ha : ∀ l ∈ a.head?, l.isTrivia = false) (hb : ∀ l ∈ b.head?, l.isTrivia = false) :
    SameNotes ls ms stop stop' (n.tooDeep (n.spanAhead a)) (m.tooDeep (m.spanAhead b)) := by
  have hany : n.reports.any (·.kind == .recursionLimitExceeded) =
      m.reports.any (·.kind == .recursionLimitExceeded) := by
    have hreports := h.reports
    generalize n.reports = ds, m.reports = es at hreports
    induction hreports with
    | nil => rfl
    | cons hd _ ih => rw [List.any_cons, List.any_cons, hd.kind, ih]
  rw [Notes.tooDeep, Notes.tooDeep, hany]
  split
  · exact h
  · exact h.toldAt hls hms hlength hrest ha hb _ none

end Notes

/-! ## Lexemes to come -/

section Rest

variable {ls ms a b : List Lexeme}

theorem SameRest.skip (h : SameRest ls ms a b) :
    SameRest ls ms (a.dropWhile isTrivia) (b.dropWhile isTrivia) := by
  refine ⟨?_, (List.dropWhile_suffix _).trans h.suffix, (List.dropWhile_suffix _).trans h.suffix'⟩
  rw [profile_dropWhile false, profile_dropWhile false, h.profile]

/-- Past trivia, the same lexeme is ahead in both. -/
theorem SameRest.ahead (h : SameRest ls ms a b) (ha : ∀ l ∈ a.head?, l.isTrivia = false)
    (hb : ∀ l ∈ b.head?, l.isTrivia = false) (depth : Nat) :
    Ahead (fun _ => SameRest ls ms) depth a b := by
  have hprofile := h.profile
  cases a with
  | nil =>
    cases b with
    | nil => exact .ended
    | cons m b =>
      rw [profile_of_solid (hb m rfl)] at hprofile
      cases hprofile
  | cons l a =>
    cases b with
    | nil =>
      rw [profile_of_solid (ha l rfl)] at hprofile
      cases hprofile
    | cons m b =>
      rw [profile_of_solid (ha l rfl), profile_of_solid (hb m rfl)] at hprofile
      obtain ⟨hentry, hrest⟩ := List.cons.inj hprofile
      exact .lexeme (Prod.mk.inj hentry).2 ⟨hrest, (List.suffix_cons l a).trans h.suffix,
        (List.suffix_cons m b).trans h.suffix'⟩

theorem bareAll_takeWhile (a : List Lexeme) :
    Tree.bareAll ((a.takeWhile isTrivia).map leaf) = [] :=
  Tree.bareAll_map_leaf fun l hl => List.all_eq_true.mp List.all_takeWhile l hl

end Rest

namespace Parse

/-- Two parses side by side of queries that differ in trivia only. -/
def trivia {ls ms : List Lexeme} {stop stop' : Nat} (hls : Cover ls stop) (hms : Cover ms stop')
    (hlength : (solid ls).length = (solid ms).length) : Coupling where
  view := Tree.bareAll
  unread _ := SameRest ls ms
  noted := SameNotes ls ms stop stop'
  view_append := Tree.bareAll_append
  view_node shape h := by
    rw [Tree.bareAll_singleton, Tree.bareAll_singleton, Tree.bare, Tree.bare, h]
  outside h := h
  skip h := h.skip
  skipped _ := by rw [bareAll_takeWhile, bareAll_takeWhile]
  ahead h ha hb := h.ahead ha hb _
  touching h _ := by rw [any_head?_eq_profile, any_head?_eq_profile, h.profile]
  blindly {_ l m _ _} _ hl hm := by
    have hl : Tree.bareAll ([l].map leaf) = [] :=
      Tree.bareAll_map_leaf (List.forall_mem_singleton.mpr hl)
    have hm : Tree.bareAll ([m].map leaf) = [] :=
      Tree.bareAll_map_leaf (List.forall_mem_singleton.mpr hm)
    exact ⟨hl.trans hm.symm, by rw [bareAll_takeWhile, bareAll_takeWhile]⟩
  told h hrest ha hb kind detail := h.toldAt hls hms hlength hrest ha hb kind detail
  opened h hrest ha hb kind := by
    obtain ⟨i, hi, hn, hm⟩ := hrest.spanAhead hlength h ha hb
    rw [hn, hm]
    exact ⟨h.reports, h.lastReport, .cons ⟨rfl, i, i, hi, hi, rfl, rfl⟩ h.openers, h.commands,
      h.stop⟩
  closed h := h.closed
  unclosed h hrest ha hb kind := h.unclosed hls hms hlength hrest ha hb kind
  tooDeep h hrest ha hb := h.tooDeep hls hms hlength hrest ha hb
  entered h word := ⟨h.reports, h.lastReport, h.openers, congrArg (word :: ·) h.commands, h.stop⟩
  left h := ⟨h.reports, h.lastReport, h.openers, congrArg List.tail h.commands, h.stop⟩

theorem tight_trivia {ls ms : List Lexeme} {stop stop' : Nat} (hls : Cover ls stop)
    (hms : Cover ms stop') (hlength : (solid ls).length = (solid ms).length) :
    (trivia hls hms hlength).Tight := by
  intro _ a h ha
  have hrest : SameRest ls ms a [] := h
  cases a with
  | nil => rfl
  | cons l a =>
    have hprofile := hrest.profile
    rw [profile_of_solid (ha l rfl)] at hprofile
    cases hprofile

/-- Both parses start in the same way, once trivia has been passed over. -/
theorem twin_start {ls ms : List Lexeme} {stop stop' : Nat} (hls : Cover ls stop)
    (hms : Cover ms stop') (hlength : (solid ls).length = (solid ms).length)
    (h : SameButTrivia ls ms) :
    Twin (trivia hls hms hlength) 0 [] [] (start ls stop).skipTrivia
      (start ms stop').skipTrivia := by
  refine ⟨⟨[], [], rfl, rfl, rfl⟩, ?_, ⟨?_, List.dropWhile_suffix _, List.dropWhile_suffix _⟩,
    ⟨.nil, .inl ⟨rfl, rfl⟩, .nil, rfl, rfl, rfl⟩⟩
  · exact (bareAll_takeWhile ls).trans (bareAll_takeWhile ms).symm
  · exact ((profile_dropWhile true ls).trans (congrArg _ h)).trans (profile_dropWhile true ms).symm

/-- Two parses of lexemes that differ in trivia only, neither of which comes to a fault, end in the
same way. -/
theorem twin_finalState {ls ms : List Lexeme} {stop stop' limit : Nat} (hls : Cover ls stop)
    (hms : Cover ms stop') (hlength : (solid ls).length = (solid ms).length)
    (h : SameButTrivia ls ms) (hfault : (finalState ls stop limit).fault = none)
    (hfault' : (finalState ms stop' limit).fault = none) :
    Twin (trivia hls hms hlength) 0 [] [] (finalState ls stop limit)
      (finalState ms stop' limit) := by
  have htight := tight_trivia hls hms hlength
  obtain ⟨hnested, hsubsearch⟩ := Grammar.couples_belowAt htight limit
  have hall : Coupled (trivia hls hms hlength) none .nothing
      (Grammar.allStages (Grammar.belowAt limit) false)
      (Grammar.allStages (Grammar.belowAt limit) false) :=
    Grammar.coupled_allStages htight (Grammar.innerKeepsFaults_belowAt limit) hnested hsubsearch
      false
  have hstages :=
    hall (fun _ _ hnone => by cases hnone) (twin_start hls hms hlength h) trivial trivial
  rw [Grammar.allStages_skipTrivia, Grammar.allStages_skipTrivia] at hstages
  exact ((hstages (fault_allStages hfault) (fault_allStages hfault')).2.asNode .pipeline
    |>.skipTrivia.drain.asNode .root).skipTrivia.drain

/-- So do the parses of two texts that differ in trivia only. -/
theorem twin_texts (text text' : String) (limit : Nat) (h : SameButTrivia (lex text) (lex text')) :
    ∃ hlength, Twin (trivia (cover_lex text) (cover_lex text') hlength) 0 [] []
      (finalState (lex text) text.utf8ByteSize limit)
      (finalState (lex text') text'.utf8ByteSize limit) := by
  have hlength : (solid (lex text)).length = (solid (lex text')).length := by
    rw [← length_profile true, h, length_profile]
  exact ⟨hlength, twin_finalState (cover_lex text) (cover_lex text') hlength h
    (finalState_sound text limit).fault (finalState_sound text' limit).fault⟩

end Parse

/-! ## Two texts -/

/-- Trivia is transparent to the grammar. If two texts have the same lexemes but for trivia, and
between two of them trivia stands in both or in neither, then their trees differ in trivia only, and
the same diagnostics are given in the same order: they have the same kinds, messages and hints, and
their stretches, and those that are related to them, start and stop at the same lexemes. -/
theorem parseTree_sameButTrivia (text text' : String) (limit : Nat)
    (h : SameButTrivia (lex text) (lex text')) :
    (parseTree text limit).tree.bare = (parseTree text' limit).tree.bare ∧
      List.Forall₂ (SameDiagnostic (lex text) (lex text') text.utf8ByteSize text'.utf8ByteSize)
        (parseTree text limit).diagnostics (parseTree text' limit).diagnostics := by
  obtain ⟨_, htwin⟩ := Parse.twin_texts text text' limit h
  refine ⟨?_, List.forall₂_reverse_iff.mpr htwin.notes.reports⟩
  obtain ⟨new, new', hnew, hnew', hbare⟩ := htwin.built
  have htree (t : String) {trees : List Tree}
      (ht : (Parse.finalState (lex t) t.utf8ByteSize limit).built = trees ++ []) :
      (parseTree t limit).tree.bare = Tree.bareAll trees.reverse := by
    obtain ⟨-, -, -, children, hbuilt⟩ := Parse.finalState_leads (lex t) t.utf8ByteSize limit
    change (Parse.finalState (lex t) t.utf8ByteSize limit).built = _ at hbuilt
    rw [List.append_nil, hbuilt] at ht
    rw [← ht, List.reverse_singleton, Tree.bareAll_singleton]
    simp only [parseTree, Parse.ofLexemes, hbuilt, List.head?_cons, Option.getD_some]
  rw [htree text hnew, htree text' hnew']
  exact hbare

/-- Other blanks make no difference, also where something is missing. -/
theorem parseTree_sameButTrivia_sample :
    SameButTrivia (lex "index=a | where") (lex " index=a   |\twhere ") ∧
      (parseTree "index=a | where" 3).tree.bare = (parseTree " index=a   |\twhere " 3).tree.bare ∧
      List.Forall₂ (SameDiagnostic (lex "index=a | where") (lex " index=a   |\twhere ")
          "index=a | where".utf8ByteSize " index=a   |\twhere ".utf8ByteSize)
        (parseTree "index=a | where" 3).diagnostics
        (parseTree " index=a   |\twhere " 3).diagnostics := by
  have h : SameButTrivia (lex "index=a | where") (lex " index=a   |\twhere ") := by
    unfold SameButTrivia
    decide +kernel
  exact ⟨h, parseTree_sameButTrivia _ _ 3 h⟩

end SplQuery

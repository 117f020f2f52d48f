import SplQuery.Proofs.Twin.Grammar

/-!
# A query that ends where another goes on

One query goes on with a pipe where the other one ends. As long as parentheses are balanced between
pipes and there are no brackets, no production reads on past that pipe, and nothing that is passed
over reaches it: what is read up to it is the same in both.

* `Lexeme.Closed` — parentheses are balanced between pipes.
* `Parse.upto` — the coupling of two such queries.
* `Grammar.allStages_upto` — the stages up to the pipe.
-/

namespace SplQuery

open State

/-! ## Balanced parentheses -/

namespace Lexeme

/-- Whether every parenthesis is closed, where so many are open before the lexemes. -/
def closes : Nat → List Lexeme → Bool
  | depth, [] => depth == 0
  | depth, l :: ls =>
    match l.kind with
    | .lparen => closes (depth + 1) ls
    | .rparen => depth != 0 && closes (depth - 1) ls
    | _ => closes depth ls

/-- Whether parentheses are balanced between pipes, where so many are open before the lexemes. -/
def Closed : Nat → List Lexeme → Prop
  | depth, [] => depth = 0
  | depth, l :: ls =>
    match l.kind with
    | .lparen => Closed (depth + 1) ls
    | .rparen => depth ≠ 0 ∧ Closed (depth - 1) ls
    | .pipe => depth = 0 ∧ Closed 0 ls
    | _ => Closed depth ls

/-- Parentheses are balanced between pipes if they are balanced in each of the stretches that are
left when the pipes are taken out. -/
theorem closed_of_splitOnP {ls : List Lexeme} {depth : Nat} {first : List Lexeme}
    {others : List (List Lexeme)} (hsplit : ls.splitOnP (·.kind == .pipe) = first :: others)
    (hfirst : closes depth first = true) (hothers : ∀ part ∈ others, closes 0 part = true) :
    Closed depth ls := by
  induction ls generalizing depth first others with
  | nil =>
    obtain ⟨rfl, rfl⟩ := List.cons.inj hsplit
    exact eq_of_beq hfirst
  | cons l ls ih =>
    rw [List.splitOnP_cons_eq_if_modifyHead] at hsplit
    by_cases hpipe : l.kind = .pipe
    · rw [if_pos (beq_iff_eq.mpr hpipe)] at hsplit
      obtain ⟨rfl, rfl⟩ := List.cons.inj hsplit
      obtain ⟨second, rest, hrest⟩ := List.exists_cons_of_ne_nil
        (List.splitOnP_ne_nil (·.kind == .pipe) ls)
      rw [hrest] at hothers
      obtain ⟨hsecond, hrests⟩ := List.forall_mem_cons.mp hothers
      have hclosed : Closed 0 ls := ih hrest hsecond hrests
      rw [Closed, hpipe]
      exact ⟨eq_of_beq hfirst, hclosed⟩
    · rw [if_neg (by simpa using hpipe)] at hsplit
      obtain ⟨second, rest, hrest⟩ := List.exists_cons_of_ne_nil
        (List.splitOnP_ne_nil (·.kind == .pipe) ls)
      rw [hrest, List.modifyHead_cons] at hsplit
      obtain ⟨rfl, rfl⟩ := List.cons.inj hsplit
      rw [closes] at hfirst
      rw [Closed]
      cases hkind : l.kind <;> rw [hkind] at hfirst <;>
        first
        | exact ih hrest hfirst hothers
        | exact absurd hkind hpipe
        | skip
      rw [Bool.and_eq_true, bne_iff_ne] at hfirst
      exact ⟨hfirst.1, ih hrest hfirst.2 hothers⟩

end Lexeme

/-! ## The coupling -/

/-- The lexemes to come are the same up to `tail`, in them are no brackets, and parentheses are
balanced between pipes if at least so many are open. -/
structure Upto (tail : List Lexeme) (depth : Nat) (a b : List Lexeme) : Prop where
  same : ∃ r, a = r ++ tail ∧ r.map Lexeme.entry = b.map Lexeme.entry
  flat : ∀ l ∈ b, l.kind ≠ .lbracket ∧ l.kind ≠ .rbracket
  closed : ∃ depth', depth ≤ depth' ∧ Lexeme.Closed depth' b

namespace Upto

variable {tail : List Lexeme} {depth : Nat} {a b : List Lexeme}

theorem outside (h : Upto tail depth a b) : Upto tail 0 a b := by
  obtain ⟨depth', -, hclosed⟩ := h.closed
  exact ⟨h.same, h.flat, depth', Nat.zero_le _, hclosed⟩

theorem isTrivia_of_entry {l m : Lexeme} (h : l.entry = m.entry) : l.isTrivia = m.isTrivia := by
  rw [Lexeme.isTrivia, (Prod.mk.inj h).1, Lexeme.isTrivia]

/-- Trivia in front is the same, and what comes after it. -/
theorem trivia_of_entries {r b : List Lexeme} (h : r.map Lexeme.entry = b.map Lexeme.entry) :
    (r.takeWhile Lexeme.isTrivia).map leaf = (b.takeWhile Lexeme.isTrivia).map leaf ∧
      (r.dropWhile Lexeme.isTrivia).map Lexeme.entry =
        (b.dropWhile Lexeme.isTrivia).map Lexeme.entry := by
  induction r generalizing b with
  | nil =>
    cases b with
    | nil => exact ⟨rfl, rfl⟩
    | cons m b => cases h
  | cons l r ih =>
    cases b with
    | nil => cases h
    | cons m b =>
      obtain ⟨hentry, hrest⟩ := List.cons.inj h
      obtain ⟨htake, hdrop⟩ := ih hrest
      cases hm : m.isTrivia with
      | true =>
        have hl : l.isTrivia = true := (isTrivia_of_entry hentry).trans hm
        rw [List.takeWhile_cons_of_pos hl, List.takeWhile_cons_of_pos hm,
          List.dropWhile_cons_of_pos hl, List.dropWhile_cons_of_pos hm, List.map_cons,
          List.map_cons, htake, Twin.leaf_eq hentry]
        exact ⟨rfl, hdrop⟩
      | false =>
        have hl : ¬ l.isTrivia = true := by
          rw [isTrivia_of_entry hentry, hm]
          exact Bool.false_ne_true
        have hm : ¬ m.isTrivia = true := by
          rw [hm]
          exact Bool.false_ne_true
        rw [List.takeWhile_cons_of_neg hl, List.takeWhile_cons_of_neg hm,
          List.dropWhile_cons_of_neg hl, List.dropWhile_cons_of_neg hm]
        exact ⟨rfl, h⟩

section Tail

variable (htail : ∀ l ∈ tail.head?, l.isTrivia = false)

include htail in
theorem trivia_append (r : List Lexeme) :
    (r ++ tail).takeWhile Lexeme.isTrivia = r.takeWhile Lexeme.isTrivia ∧
      (r ++ tail).dropWhile Lexeme.isTrivia = r.dropWhile Lexeme.isTrivia ++ tail := by
  have hnone : tail.takeWhile Lexeme.isTrivia = [] ∧ tail.dropWhile Lexeme.isTrivia = tail := by
    cases tail with
    | nil => exact ⟨rfl, rfl⟩
    | cons l tail =>
      have hl : ¬ l.isTrivia = true := Bool.eq_false_iff.mp (htail l rfl)
      exact ⟨List.takeWhile_cons_of_neg hl, List.dropWhile_cons_of_neg hl⟩
  induction r with
  | nil => exact hnone
  | cons l r ih =>
    cases hl : l.isTrivia with
    | true =>
      rw [List.cons_append, List.takeWhile_cons_of_pos hl, List.takeWhile_cons_of_pos hl,
        List.dropWhile_cons_of_pos hl, List.dropWhile_cons_of_pos hl, ih.1, ih.2]
      exact ⟨rfl, rfl⟩
    | false =>
      have hl : ¬ l.isTrivia = true := by
        rw [hl]
        exact Bool.false_ne_true
      rw [List.cons_append, List.takeWhile_cons_of_neg hl, List.takeWhile_cons_of_neg hl,
        List.dropWhile_cons_of_neg hl, List.dropWhile_cons_of_neg hl]
      exact ⟨rfl, rfl⟩

/-- Past trivia parentheses are still balanced. -/
theorem closed_dropWhile {depth : Nat} {b : List Lexeme} (h : Lexeme.Closed depth b) :
    Lexeme.Closed depth (b.dropWhile Lexeme.isTrivia) := by
  induction b with
  | nil => exact h
  | cons m b ih =>
    cases hm : m.isTrivia with
    | true =>
      rw [List.dropWhile_cons_of_pos hm]
      rw [Lexeme.Closed] at h
      refine ih ?_
      rw [Lexeme.isTrivia] at hm
      cases hkind : m.kind <;> rw [hkind] at h hm <;> first | exact h | cases hm
    | false =>
      rw [List.dropWhile_cons_of_neg (by rw [hm]; exact Bool.false_ne_true)]
      exact h

include htail in
theorem skip (h : Upto tail depth a b) :
    Upto tail depth (a.dropWhile Lexeme.isTrivia) (b.dropWhile Lexeme.isTrivia) := by
  obtain ⟨r, rfl, hentries⟩ := h.same
  obtain ⟨depth', hle, hclosed⟩ := h.closed
  refine ⟨⟨_, (trivia_append htail r).2, (trivia_of_entries hentries).2⟩, fun l hl => ?_,
    depth', hle, closed_dropWhile hclosed⟩
  exact h.flat l ((List.dropWhile_sublist _).subset hl)

include htail in
theorem skipped (h : Upto tail depth a b) :
    (a.takeWhile Lexeme.isTrivia).map leaf = (b.takeWhile Lexeme.isTrivia).map leaf := by
  obtain ⟨r, rfl, hentries⟩ := h.same
  rw [(trivia_append htail r).1, (trivia_of_entries hentries).1]

end Tail

/-- After a lexeme that is no bracket, as many delimiters are open as parentheses. -/
theorem next {l m : Lexeme} (h : Upto tail depth (l :: a) (m :: b)) (hentry : l.entry = m.entry)
    (hsame : ∃ r, a = r ++ tail ∧ r.map Lexeme.entry = b.map Lexeme.entry) :
    Upto tail (l.kind.depthAfter depth) a b := by
  obtain ⟨hm, hflat⟩ := List.forall_mem_cons.mp h.flat
  obtain ⟨depth', hle, hclosed⟩ := h.closed
  have hkind : l.kind = m.kind := (Prod.mk.inj hentry).1
  rw [Lexeme.Closed] at hclosed
  rw [hkind]
  refine ⟨hsame, hflat, ?_⟩
  cases hk : m.kind <;> rw [hk] at hclosed hm <;>
    first
    | exact ⟨depth', hle, hclosed⟩
    | exact ⟨depth' + 1, Nat.succ_le_succ hle, hclosed⟩
    | exact absurd rfl hm.1
    | exact absurd rfl hm.2
    | exact ⟨0, hclosed.1 ▸ hle, hclosed.2⟩
    | exact ⟨depth' - 1, Nat.sub_le_sub_right hle 1, hclosed.2⟩

theorem ahead (h : Upto tail depth a b) (ha : ∀ l ∈ a.head?, l.isTrivia = false)
    (htail : ∀ l ∈ tail.head?, l.kind = .pipe) : Ahead (Upto tail) depth a b := by
  obtain ⟨r, rfl, hentries⟩ := h.same
  cases b with
  | nil =>
    obtain rfl : r = [] := List.map_eq_nil_iff.mp hentries
    cases tail with
    | nil => exact .ended
    | cons l tail =>
      obtain ⟨depth', hle, hclosed⟩ := h.closed
      exact .piped (htail l rfl) (Nat.le_zero.mp (hle.trans (Nat.le_of_eq hclosed)))
  | cons m b =>
    cases r with
    | nil => cases hentries
    | cons l r =>
      obtain ⟨hentry, hrest⟩ := List.cons.inj hentries
      exact .lexeme hentry (next h hentry ⟨r, rfl, hrest⟩)

theorem touching (h : Upto tail depth a b) (hb : b ≠ []) :
    a.head?.any (!·.isTrivia) = b.head?.any (!·.isTrivia) := by
  obtain ⟨r, rfl, hentries⟩ := h.same
  obtain ⟨m, b, rfl⟩ := List.exists_cons_of_ne_nil hb
  cases r with
  | nil => cases hentries
  | cons l r =>
    change (!l.isTrivia) = !m.isTrivia
    rw [isTrivia_of_entry (List.cons.inj hentries).1]

/-- Trivia that is read is the same, and the trivia after it. -/
theorem blindly {l m : Lexeme} (htail : ∀ l ∈ tail.head?, l.isTrivia = false)
    (h : Upto tail depth (l :: a) (m :: b)) (hl : l.isTrivia = true) (hm : m.isTrivia = true) :
    [leaf l] = [leaf m] ∧
      (a.takeWhile Lexeme.isTrivia).map leaf = (b.takeWhile Lexeme.isTrivia).map leaf := by
  have hskipped := h.skipped htail
  rw [List.takeWhile_cons_of_pos hl, List.takeWhile_cons_of_pos hm, List.map_cons,
    List.map_cons] at hskipped
  obtain ⟨hleaf, hrest⟩ := List.cons.inj hskipped
  exact ⟨congrArg (fun t => [t]) hleaf, hrest⟩

theorem solid_of_pipe (htail : ∀ l ∈ tail.head?, l.kind = .pipe) :
    ∀ l ∈ tail.head?, l.isTrivia = false := by
  intro l hl
  rw [Lexeme.isTrivia, htail l hl]
  rfl

end Upto

namespace Parse

/-- The coupling that compares whole trees and nothing that is noted, given what it compares of the
lexemes to come. -/
def coupledTrees (unread : Nat → List Lexeme → List Lexeme → Prop)
    (outside : ∀ {depth : Nat} {a b : List Lexeme}, unread depth a b → unread 0 a b)
    (skip : ∀ {depth : Nat} {a b : List Lexeme}, unread depth a b →
      unread depth (a.dropWhile Lexeme.isTrivia) (b.dropWhile Lexeme.isTrivia))
    (skipped : ∀ {depth : Nat} {a b : List Lexeme}, unread depth a b →
      (a.takeWhile Lexeme.isTrivia).map leaf = (b.takeWhile Lexeme.isTrivia).map leaf)
    (ahead : ∀ {depth : Nat} {a b : List Lexeme}, unread depth a b →
      (∀ l ∈ a.head?, l.isTrivia = false) → (∀ l ∈ b.head?, l.isTrivia = false) →
      Ahead unread depth a b)
    (touching : ∀ {depth : Nat} {a b : List Lexeme}, unread depth a b → b ≠ [] →
      a.head?.any (!·.isTrivia) = b.head?.any (!·.isTrivia))
    (blindly : ∀ {depth : Nat} {l m : Lexeme} {a b : List Lexeme}, unread depth (l :: a) (m :: b) →
      l.isTrivia = true → m.isTrivia = true → [leaf l] = [leaf m] ∧
        (a.takeWhile Lexeme.isTrivia).map leaf = (b.takeWhile Lexeme.isTrivia).map leaf) :
    Coupling where
  view := id
  unread := unread
  noted _ _ := True
  view_append _ _ := rfl
  view_node shape h := congrArg (fun ts => [Tree.node shape ts]) h
  outside := outside
  skip := skip
  skipped := skipped
  ahead := ahead
  touching := touching
  blindly := blindly
  told _ _ _ _ _ _ := trivial
  opened _ _ _ _ _ := trivial
  closed _ := trivial
  unclosed _ _ _ _ _ := trivial
  tooDeep _ _ _ _ := trivial
  entered _ _ := trivial
  left _ := trivial

/-- Two parses side by side of queries of which one goes on with `tail` where the other ends. -/
def upto (tail : List Lexeme) (htail : ∀ l ∈ tail.head?, l.kind = .pipe) : Coupling :=
  coupledTrees (Upto tail) Upto.outside (Upto.skip (Upto.solid_of_pipe htail))
    (Upto.skipped (Upto.solid_of_pipe htail)) (fun h ha _ => h.ahead ha htail) Upto.touching
    (Upto.blindly (Upto.solid_of_pipe htail))

end Parse

/-! ## Stages up to the pipe -/

namespace Grammar

open SplQuery.Parser

variable {below : Option Inner} {outer outer' : List Tree}

/-- No bracket is ahead. -/
theorem couplesSubsearch_upto {tail : List Lexeme} {htail : ∀ l ∈ tail.head?, l.kind = .pipe} :
    CouplesSubsearch (Parse.upto tail htail) below := by
  intro outer outer' s t _ htwin _ ht
  obtain ⟨m, b, hrest, hkind, -⟩ := ht.1.rest_of_next? ht.2
  have hupto : Upto tail 0 s.rest t.rest := htwin.rest
  exact absurd hkind (hupto.flat m (by rw [hrest]; exact List.mem_cons_self)).1

/-- Trivia before a stage may be passed over first. -/
theorem nextStage_skipTrivia (nested : Bool) (s : State) :
    nextStage below nested s.skipTrivia = nextStage below nested s := by
  change nextStageAt below nested (current s.skipTrivia).1 (current s.skipTrivia).2 = _
  rw [current_skipTrivia]
  rfl

/-- Outside brackets, stages are read while there is something ahead. -/
theorem nextStage_answer {s : State} {k : Kind} (h : s.next? = some k) :
    (nextStage below false s).1 = true := by
  change (nextStageAt below false (current s).1 (current s).2).1 = true
  rw [current_eq, h]
  cases k <;> rfl

/-- The rounds in which stages are read. -/
def stageRounds (below : Option Inner) (nested : Bool) : Nat → State → State :=
  fun fuel s => (loopFrom (roundOf (nextStage below nested)) fuel () s).2

theorem stageRounds_of_end {s : State} {fuel : Nat} (h : s.next? = none) :
    stageRounds below false (fuel + 1) s = s.skipTrivia.look := by
  have hround : roundOf (nextStage below false) () s = (.done (), s.skipTrivia.look) := by
    change (if (nextStageAt below false (current s).1 (current s).2).1 = true then
        ForInStep.yield () else .done (),
      (nextStageAt below false (current s).1 (current s).2).2) = _
    rw [current_eq, h]
    rfl
  rw [stageRounds, loopFrom_done hround]

theorem stageRounds_of_next {s : State} {k : Kind} {fuel : Nat} (h : s.next? = some k) :
    stageRounds below false (fuel + 1) s =
      stageRounds below false fuel (nextStage below false s).2 := by
  have hround : roundOf (nextStage below false) () s =
      (.yield (), (nextStage below false s).2) := by
    change (if (nextStage below false s).1 = true then ForInStep.yield () else .done (), _) = _
    rw [nextStage_answer h]
    rfl
  rw [stageRounds, loopFrom_yield hround]
  rfl

/-- A pipe is read, and the stage after it. -/
theorem nextStage_of_pipe {s : State} (h : s.next? = some .pipe) :
    (nextStage below false s).2 = (stage below s.skipTrivia.look.bump).2 := by
  change (nextStageAt below false (current s).1 (current s).2).2 = _
  rw [current_eq, h]
  rfl

theorem keepsFaults_stageRounds (hfaults : ∀ inner ∈ below, InnerKeepsFaults inner) {fuel : Nat}
    {s : State} (h : (stageRounds below false fuel s).fault = none) : s.fault = none :=
  KeepsFaults.loopFrom (fun _ => (keepsFaults_nextStage hfaults false).bind fun _ => .pure _) fuel
    () s h

/-- The same stages are read in both queries until one of them ends. -/
theorem stageRounds_upto {C : Coupling} (hfaults : ∀ inner ∈ below, InnerKeepsFaults inner)
    (hnested : CouplesNested C below) (hsubsearch : CouplesSubsearch C below) (fuel fuel' : Nat)
    {s t : State} (htwin : Twin C 0 outer outer' s t)
    (hfault : (stageRounds below false fuel s).fault = none)
    (hfault' : (stageRounds below false fuel' t).fault = none) :
    ∃ left u, stageRounds below false fuel s = stageRounds below false left u ∧
      Twin C 0 outer outer' u.skipTrivia.look (stageRounds below false fuel' t) ∧
      (stageRounds below false fuel' t).rest = [] := by
  induction fuel' generalizing fuel s t with
  | zero => exact absurd hfault' (fault_withFault t .stuck)
  | succ fuel' ih =>
    cases hnext : t.next? with
    | none =>
      rw [stageRounds_of_end hnext]
      refine ⟨fuel, s, rfl, htwin.skipTrivia.look, ?_⟩
      obtain ⟨-, hnil⟩ | ⟨l, ls, -, hahead⟩ := rest_skipTrivia t
      · rw [look_rest, hnil]
      · rw [State.next?, hahead] at hnext
        cases hnext
    | some k =>
      have hsame : s.next? = some k := by
        obtain hsame | ⟨-, hend⟩ := htwin.next?
        · exact hsame.trans hnext
        · rw [hend] at hnext
          cases hnext
      cases fuel with
      | zero => exact absurd hfault (fault_withFault s .stuck)
      | succ fuel =>
        rw [stageRounds_of_next hsame] at hfault ⊢
        rw [stageRounds_of_next hnext] at hfault' ⊢
        have hcoupled : Coupled C none (.here k) (nextStage below false) (nextStage below false) :=
          .look rfl (coupled_nextStageAt hfaults hnested hsubsearch false k)
        have hround := hcoupled (fun _ _ hnone => by cases hnone) htwin.skipTrivia
          (Sight.Holds.here_of_next? hsame) (Sight.Holds.here_of_next? hnext)
        rw [nextStage_skipTrivia, nextStage_skipTrivia] at hround
        exact ih fuel (hround (keepsFaults_stageRounds hfaults hfault)
          (keepsFaults_stageRounds hfaults hfault')).2 hfault hfault'

/-- The first stage, if there is one. -/
def firstStages (below : Option Inner) : Parser Unit := do
  unless ← atStageEnd do
    firstStage below

theorem allStages_eq (below : Option Inner) (s : State) :
    (allStages below false s).2 = stageRounds below false
      ((firstStages below s).2.rest.length + 2) (firstStages below s).2 := by
  have hbind : allStages below false = firstStages below >>= fun _ => stages below false := by
    rw [firstStages, bind_assoc]
    refine bind_congr fun b => ?_
    cases b <;> rfl
  rw [hbind]
  rfl

/-- All stages of a query, where another query goes on. -/
theorem allStages_upto {C : Coupling} (hfaults : ∀ inner ∈ below, InnerKeepsFaults inner)
    (hnested : CouplesNested C below) (hsubsearch : CouplesSubsearch C below) {s t : State}
    (htwin : Twin C 0 outer outer' s t) (hfault : (allStages below false s).2.fault = none)
    (hfault' : (allStages below false t).2.fault = none) :
    ∃ left u, (allStages below false s).2 = stageRounds below false left u ∧
      Twin C 0 outer outer' u.skipTrivia.look (allStages below false t).2 ∧
      (allStages below false t).2.rest = [] := by
  rw [allStages_eq] at hfault hfault'
  have hfirst : Coupled C none .nothing (firstStages below) (firstStages below) :=
    .atStageEnd (.pure _) (coupled_firstStage hfaults hnested hsubsearch)
  rw [allStages_eq, allStages_eq]
  exact stageRounds_upto hfaults hnested hsubsearch _ _
    (hfirst (fun _ _ hnone => by cases hnone) htwin trivial trivial
      (keepsFaults_stageRounds hfaults hfault) (keepsFaults_stageRounds hfaults hfault')).2
    hfault hfault'

end Grammar

end SplQuery

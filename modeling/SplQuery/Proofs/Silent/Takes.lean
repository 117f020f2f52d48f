import SplQuery.Proofs.Silent.State

/-!
# What is read where nothing is noted

`Takes P sight p` says of a step what it has read unless it notes something: `P` relates the lexemes
read, the answer and the lexemes still to come. The rules follow the ways of putting steps together.

* `Takes` — a step that reads, if it notes nothing, lexemes of which something holds.
* `Takes.seen`, `Takes.bind`, `Takes.peek` — one step after another.
* `Takes.whileTrue` — a repetition.
* `Takes.between` — a group: what opens it is read, or missed and noted, and so is what closes it.
-/

namespace SplQuery

open Lexeme State

/-- From where it starts with what is to be seen, the step notes something, or `P` holds of the
lexemes that it reads, of its answer and of the lexemes to come. -/
structure Takes {α : Type} (P : List Lexeme → α → List Lexeme → Prop) (sight : Sight)
    (p : Parser α) : Prop where
  retains : Retaining sight p
  silent : ∀ s, sight.Holds s → s.Audible → (p s).2.reports = s.reports →
    ∃ read, P read (p s).1 (p s).2.rest ∧ s.Took read (p s).2

/-- A group: what is between a delimiter that opens and one that closes. -/
def Enclosed (opener closer : Kind) (R : List Kind → Prop) (read : List Lexeme) : Prop :=
  ∃ front last inside, read = front ++ [last] ∧ last.kind = closer ∧ last.isTrivia = false ∧
    kinds front = opener :: inside ∧ R inside

theorem Enclosed.kinds_eq {opener closer : Kind} {R : List Kind → Prop} {read : List Lexeme}
    (h : Enclosed opener closer R read) :
    ∃ inside, kinds read = opener :: (inside ++ [closer]) ∧ R inside := by
  obtain ⟨front, last, inside, rfl, rfl, hlast, hfront, hinside⟩ := h
  refine ⟨inside, ?_, hinside⟩
  rw [kinds_append, hfront, kinds_cons hlast, List.cons_append]
  rfl

namespace Takes

open SplQuery.Parser

variable {α β : Type} {P P' : List Lexeme → α → List Lexeme → Prop}
  {Q : List Lexeme → β → List Lexeme → Prop} {sight : Sight} {k l : Kind} {p : Parser α}

theorem mono (h : Takes P sight p) (hP : ∀ read a rest, P read a rest → P' read a rest) :
    Takes P' sight p := by
  refine ⟨h.retains, fun s hsight hs heq => ?_⟩
  obtain ⟨read, hread, htook⟩ := h.silent s hsight hs heq
  exact ⟨read, hP _ _ _ hread, htook⟩

theorem blind (h : Takes P .nothing p) : Takes P sight p :=
  ⟨fun s _ => h.retains s trivial, fun s _ => h.silent s trivial⟩

theorem narrow (h : Takes P (.here k) p) : Takes P (.pair k l) p :=
  ⟨fun s hs => h.retains s ⟨hs.1, hs.2.1⟩, fun s hs => h.silent s ⟨hs.1, hs.2.1⟩⟩

/-! ## Steps that note something -/

/-- A step that always notes something. -/
theorem noisy (hp : Retaining sight p)
    (h : ∀ s, sight.Holds s → s.Audible → (p s).2.reports ≠ s.reports) : Takes P sight p :=
  ⟨hp, fun s hsight hs heq => absurd heq (h s hsight hs)⟩

/-- What follows on a step that notes something does not unsay it. -/
theorem noisyThen {f : α → Parser β} (hp : Retaining sight p)
    (h : ∀ s, sight.Holds s → s.Audible → (p s).2.reports ≠ s.reports)
    (hf : ∀ a, Retaining .nothing (f a)) : Takes Q sight (p >>= f) :=
  noisy (hp.bind hf) fun s hsight hs heq =>
    h s hsight hs ((hp s hsight).reports_eq (hf _ _ trivial) heq)

theorem report_ne (kind : DiagnosticKind) {s : State} (hs : s.Audible) :
    (Parser.report kind s).2.reports ≠ s.reports := by
  rw [report_eq]
  exact hs.told_ne _ _ _ _ rfl rfl

theorem reportWith_ne (kind : DiagnosticKind) (detail : String) {s : State} (hs : s.Audible) :
    (Parser.reportWith kind detail s).2.reports ≠ s.reports := by
  rw [reportWith_eq]
  exact hs.told_ne _ _ _ _ rfl rfl

theorem report {P : List Lexeme → Unit → List Lexeme → Prop} (kind : DiagnosticKind) :
    Takes P sight (Parser.report kind) :=
  noisy (.report kind) fun _ _ => report_ne kind

theorem reportWith {P : List Lexeme → Unit → List Lexeme → Prop} (kind : DiagnosticKind)
    (detail : String) : Takes P sight (Parser.reportWith kind detail) :=
  noisy (.reportWith kind detail) fun _ _ => reportWith_ne kind detail

theorem refuse {P : List Lexeme → Unit → List Lexeme → Prop} (kind : DiagnosticKind) :
    Takes P sight (Parser.refuse kind) :=
  noisyThen (.report kind) (fun _ _ => report_ne kind) fun _ => .bumpAsError

theorem refuseWith {P : List Lexeme → Unit → List Lexeme → Prop} (kind : DiagnosticKind)
    (detail : String) : Takes P sight (Parser.refuseWith kind detail) :=
  noisyThen (.reportWith kind detail) (fun _ _ => reportWith_ne kind detail) fun _ => .bumpAsError

/-- At the limit this is noted. -/
theorem descend_none {P : List Lexeme → Unit → List Lexeme → Prop} (stopAtPipe : Bool)
    (body : Inner → Parser Unit) : Takes P sight (Parser.descend none stopAtPipe body) := by
  have hskip : Retaining .nothing (Parser.node .error (Parser.skipBalanced stopAtPipe)) :=
    .node (.skipBalanced stopAtPipe)
  have hdeep {s : State} :
      s.Retains (s.skipTrivia.withNotes (s.notes.tooDeep s.skipTrivia.span)) := by
    unfold Notes.tooDeep
    split
    · exact .of_notes rfl
    · exact .of_told rfl
  refine noisy (fun s _ => ?_) fun s _ hs heq => ?_
  · rw [Parser.descend_none]
    exact hdeep.trans (hskip _ trivial)
  · rw [Parser.descend_none] at heq
    have htold := hdeep.reports_eq (hskip _ trivial) heq
    have hlimit : ¬ s.notes.reports.any (·.kind == .recursionLimitExceeded) = true :=
      Bool.eq_false_iff.mp hs.limit
    rw [Notes.tooDeep, if_neg hlimit] at htold
    exact hs.told_ne _ _ _ _ rfl rfl htold

/-! ## One step after another -/

/-- A step, and what follows on it with what can be seen then. -/
theorem seen {f : α → Parser β} (hp : Takes P sight p)
    (hf : ∀ s, sight.Holds s → ∃ after : Sight, after.Holds (p s).2 ∧ ∀ read,
      Takes (fun more b rest => P read (p s).1 (more ++ rest) → Q (read ++ more) b rest) after
        (f (p s).1)) : Takes Q sight (p >>= f) := by
  refine ⟨fun s hsight => ?_, fun s hsight hs heq => ?_⟩
  · obtain ⟨after, hafter, hnext⟩ := hf s hsight
    exact (hp.retains s hsight).trans ((hnext []).retains _ hafter)
  · obtain ⟨after, hafter, hnext⟩ := hf s hsight
    have hfirst := (hp.retains s hsight).reports_eq ((hnext []).retains _ hafter) heq
    obtain ⟨read, hread, htook⟩ := hp.silent s hsight hs hfirst
    obtain ⟨more, hmore, htook'⟩ :=
      (hnext read).silent _ hafter (hs.took htook) (heq.trans hfirst.symm)
    rw [htook'.rest] at hread
    exact ⟨read ++ more, hmore hread, htook.trans htook'⟩

theorem bind {f : α → Parser β} (hp : Takes P sight p)
    (hf : ∀ read a, Takes (fun more b rest => P read a (more ++ rest) → Q (read ++ more) b rest)
      .nothing (f a)) : Takes Q sight (p >>= f) :=
  hp.seen fun _ _ => ⟨.nothing, trivial, fun read => hf read _⟩

theorem pure {a : α} (h : ∀ rest, P [] a rest) : Takes P sight (Pure.pure a : Parser α) :=
  ⟨fun s _ => .refl s, fun s _ _ _ => ⟨[], h s.rest, .refl s⟩⟩

theorem ite {c : Prop} [Decidable c] {p q : Parser α} (hp : c → Takes P sight p)
    (hq : ¬ c → Takes P sight q) : Takes P sight (if c then p else q) := by
  split
  · next h => exact hp h
  · next h => exact hq h

/-- A step that reads trivia at the most and after which something can be seen. -/
theorem peek {f : α → Parser β} (h : ∀ s, sight.Holds s → Glances s (p s).2)
    (hf : ∀ s, sight.Holds s → ∃ after : Sight, after.Holds (p s).2 ∧
      Takes (fun more b rest => solid (more ++ rest) = s.ahead →
        ∀ front, solid front = [] → Q (front ++ more) b rest) after (f (p s).1)) :
    Takes Q sight (p >>= f) := by
  refine ⟨fun s hsight => ?_, fun s hsight hs heq => ?_⟩
  · obtain ⟨after, hafter, hnext⟩ := hf s hsight
    exact (h s hsight).retains.trans (hnext.retains _ hafter)
  · obtain ⟨after, hafter, hnext⟩ := hf s hsight
    obtain ⟨front, hfront, htook⟩ := (h s hsight).took
    obtain ⟨more, hmore, htook'⟩ :=
      hnext.silent _ hafter (hs.took htook) (heq.trans htook.reports.symm)
    refine ⟨front ++ more, hmore ?_ front hfront, htook.trans htook'⟩
    rw [← htook'.rest, ← (h s hsight).ahead_eq, State.ahead, solid]

/-! ## Looking directly ahead -/

section Directly

variable {f : Option Kind → Parser β}

/-- The lexeme that is known to be directly ahead is the first of those that are read, or else of
those to come. -/
theorem directly (hsight : sight.first? = some k) (h : Takes (fun read a rest =>
    (∃ l ls, read ++ rest = l :: ls ∧ l.kind = k ∧ l.isTrivia = false) → P read a rest) sight p) :
    Takes P sight p := by
  refine ⟨h.retains, fun s hs haudible heq => ?_⟩
  obtain ⟨read, hread, htook⟩ := h.silent s hs haudible heq
  obtain ⟨l, ls, hrest, hk, hl⟩ := (hs.ready hsight).1.rest_of_next? (hs.ready hsight).2
  exact ⟨read, hread ⟨l, ls, htook.rest ▸ hrest, hk, hl⟩, htook⟩

/-- Where a lexeme is directly ahead, a look at it changes nothing else. -/
theorem of_look {q : Parser α} (hsight : sight.first? = some k)
    (hsame : ∀ s, sight.Holds s → p s = q s.look) (h : Takes P sight q) : Takes P sight p := by
  have hlook {s : State} (hs : sight.Holds s) : sight.Holds s.look :=
    hs.of_rest hsight (look_rest s)
  refine ⟨fun s hs => ?_, fun s hs haudible heq => ?_⟩
  · rw [hsame s hs]
    exact (glances_look s).retains.trans (h.retains _ (hlook hs))
  · rw [hsame s hs] at heq ⊢
    obtain ⟨read, hread, htook⟩ := h.silent _ (hlook hs) (haudible.took (took_look s))
      (heq.trans (took_look s).reports.symm)
    exact ⟨read, hread, (took_look s).trans htook⟩

/-- What is required is there. -/
theorem require {member : Kind → Bool} {f : Unit → Parser β} (hsight : sight.first? = some k)
    (hmember : member k = true) (h : Takes Q sight (f ())) :
    Takes Q sight (Parser.require member >>= f) := by
  refine of_look hsight (fun s hs => ?_) h
  change f () (Parser.require member s).2 = _
  rw [require_eq (hs.ready hsight).2 hmember, (hs.ready hsight).1.skipTrivia]

/-- What is asked for is known. -/
theorem look (hsight : sight.first? = some k) (h : Takes Q sight (f (some k))) :
    Takes Q sight (current >>= f) := by
  refine of_look hsight (fun s hs => ?_) h
  change f (current s).1 (current s).2 = _
  rw [current_eq, (hs.ready hsight).2, (hs.ready hsight).1.skipTrivia]

/-- What is done with a lexeme directly ahead, and what is known where there is none. -/
theorem touching {b : β}
    (hstop : ∀ rest : List Lexeme, (∀ l ∈ rest.head?, l.isTrivia = true) → Q [] b rest)
    (h : ∀ k, Takes Q (.here k) (f (some k))) :
    Takes Q .nothing (glued >>= fun g => if g = true then adjacent >>= f else Pure.pure b) := by
  have hcases (s : State) : (∀ l ∈ s.rest.head?, l.isTrivia = true) ∧
      (glued >>= fun g => if g = true then adjacent >>= f else Pure.pure b) s = (b, s) ∨
      ∃ k, (Sight.here k).Holds s.look ∧
        (glued >>= fun g => if g = true then adjacent >>= f else Pure.pure b) s =
          f (some k) s.look := by
    rw [touching_eq]
    cases hrest : s.rest with
    | nil => exact .inl ⟨nofun, rfl⟩
    | cons l ls =>
      cases hl : l.isTrivia with
      | true => exact .inl ⟨by rintro _ ⟨⟩; exact hl, by simp [hl]; rfl⟩
      | false => exact .inr ⟨l.kind, .here_of_rest ((look_rest s).trans hrest) hl, by simp [hl]⟩
  refine ⟨fun s _ => ?_, fun s _ hs heq => ?_⟩
  · obtain ⟨-, hsame⟩ | ⟨k, hhere, hsame⟩ := hcases s <;> rw [hsame]
    · exact .refl s
    · exact (glances_look s).retains.trans ((h k).retains _ hhere)
  · obtain ⟨htrivia, hsame⟩ | ⟨k, hhere, hsame⟩ := hcases s <;> rw [hsame] at heq ⊢
    · exact ⟨[], hstop _ htrivia, .refl s⟩
    · obtain ⟨read, hread, htook⟩ := (h k).silent _ hhere (hs.took (took_look s))
        (heq.trans (took_look s).reports.symm)
      exact ⟨read, hread, (took_look s).trans htook⟩

end Directly

/-! ## Reading -/

/-- The lexeme directly ahead is read. -/
theorem bump (hsight : sight.first? = some k) :
    Takes (fun read _ _ => ∃ l, read = [l] ∧ l.kind = k ∧ l.isTrivia = false) sight bump := by
  refine ⟨fun s _ => .of_notes (notes_bump s), fun s hs _ _ => ?_⟩
  obtain ⟨l, ls, hrest, hk, hl⟩ := (hs.ready hsight).1.rest_of_next? (hs.ready hsight).2
  exact ⟨[l], ⟨l, rfl, hk, hl⟩, took_bump hrest⟩

theorem bumpThen {f : Unit → Parser β} (hsight : sight.first? = some k)
    (h : ∀ l : Lexeme, l.kind = k → l.isTrivia = false →
      Takes (fun more b rest => Q (l :: more) b rest) sight.afterBump (f ())) :
    Takes Q sight (Parser.bump >>= f) := by
  refine (bump hsight).seen fun s hs => ⟨sight.afterBump, hs.bump hsight, fun read => ?_⟩
  by_cases hread : ∃ l : Lexeme, read = [l] ∧ l.kind = k ∧ l.isTrivia = false
  · obtain ⟨l, rfl, hk, hl⟩ := hread
    exact (h l hk hl).mono fun _ _ _ hQ _ => hQ
  · obtain ⟨l, _, _, hk, hl⟩ := (hs.ready hsight).1.rest_of_next? (hs.ready hsight).2
    exact (h l hk hl).mono fun _ _ _ _ hlexeme => absurd hlexeme hread

/-- What is read is what was next, or trivia before it. -/
theorem bumpBlindly :
    Takes (fun read _ _ => ∃ l, read = [l] ∧ (l.kind = k ∨ l.isTrivia = true)) (.next k)
      Parser.bump := by
  refine ⟨fun s _ => .of_notes (notes_bump s), fun s hs _ _ => ?_⟩
  obtain ⟨l, ls, hrest⟩ := List.exists_cons_of_ne_nil (rest_ne_nil_of_next? hs.2)
  refine ⟨[l], ⟨l, rfl, ?_⟩, took_bump hrest⟩
  cases hl : l.isTrivia with
  | true => exact .inr rfl
  | false =>
    have hhere : (Sight.here l.kind).Holds s := .here_of_rest hrest hl
    exact .inl (Option.some.inj (hhere.2.symm.trans hs.2))

/-! ## Nodes, commands and nesting -/

theorem node (shape : Shape) (h : Takes P sight.inside p) :
    Takes P sight (Parser.node shape p) := by
  have hinside {s : State} (hs : sight.Holds s) : sight.inside.Holds (opened s) := hs.inside rfl
  refine ⟨fun s hs => ?_, fun s hsight hs heq => ?_⟩
  · obtain ⟨hreports, hopeners⟩ := h.retains (opened s) (hinside hs)
    exact ⟨hreports, hopeners⟩
  · obtain ⟨read, hread, htook⟩ :=
      h.silent (opened s) (hinside hsight) ⟨hs.stop, hs.rest, hs.limit⟩ heq
    exact ⟨read, hread, htook.rest, htook.reports, htook.lastReport, htook.stop⟩

theorem wrapFrom {P : List Lexeme → Unit → List Lexeme → Prop} {p : Parser Unit} (place : Nat)
    (shape : Shape) (h : Takes P sight.inside p) :
    Takes P sight (Parser.wrapFrom place shape p) := by
  have hinside {s : State} (hs : sight.Holds s) : sight.inside.Holds (cut place s) := hs.inside rfl
  refine ⟨fun s hs => ?_, fun s hsight hs heq => ?_⟩
  · obtain ⟨hreports, hopeners⟩ := h.retains (cut place s) (hinside hs)
    exact ⟨hreports, hopeners⟩
  · obtain ⟨read, hread, htook⟩ :=
      h.silent (cut place s) (hinside hsight) ⟨hs.stop, hs.rest, hs.limit⟩ heq
    exact ⟨read, hread, htook.rest, htook.reports, htook.lastReport, htook.stop⟩

theorem inCommand {P : List Lexeme → Unit → List Lexeme → Prop} {p : Parser Unit}
    (word : Option CommandWord) (h : Takes P sight p) :
    Takes P sight (Parser.inCommand word p) := by
  have hinside {s : State} (hs : sight.Holds s) : sight.Holds (entered word s) :=
    hs.congr rfl rfl rfl
  refine ⟨fun s hs => ?_, fun s hsight hs heq => ?_⟩
  · obtain ⟨hreports, hopeners⟩ := h.retains (entered word s) (hinside hs)
    exact ⟨hreports, hopeners⟩
  · obtain ⟨read, hread, htook⟩ :=
      h.silent (entered word s) (hinside hsight) ⟨hs.stop, hs.rest, hs.limit⟩ heq
    exact ⟨read, hread, htook.rest, htook.reports, htook.lastReport, htook.stop⟩

/-- One level further down. -/
theorem descend {P : List Lexeme → Unit → List Lexeme → Prop} {below : Option Inner}
    {body : Inner → Parser Unit} (stopAtPipe : Bool)
    (h : ∀ inner ∈ below, Takes P .nothing (body inner)) :
    Takes P .nothing (Parser.descend below stopAtPipe body) := by
  cases below with
  | none => exact .descend_none _ _
  | some inner =>
    have hinner := h inner rfl
    refine ⟨fun s _ => ?_, fun s _ hs heq => ?_⟩
    · obtain ⟨hreports, hopeners⟩ := hinner.retains s.refresh trivial
      exact ⟨hreports, hopeners⟩
    · obtain ⟨read, hread, htook⟩ :=
        hinner.silent s.refresh trivial ⟨hs.stop, hs.rest, hs.limit⟩ heq
      exact ⟨read, hread, htook.rest, htook.reports, htook.lastReport, htook.stop⟩

/-! ## Repetition -/

/-- What a round of a repetition shows. One that is not the last reads something, and what the
others read continues it. -/
def Round {γ : Type} (R : List γ → List γ → Prop) (read : List γ) (goesOn : Bool)
    (rest : List γ) : Prop :=
  if goesOn then read ≠ [] ∧ ∀ more left, rest = more ++ left → R more left → R (read ++ more) left
  else R read rest

theorem roundOf_eq (body : Parser Bool) (s : State) :
    roundOf body () s = (if (body s).1 then .yield () else .done (), (body s).2) := by
  change (Pure.pure (if (body s).1 then .yield () else .done ()) : Parser (ForInStep Unit))
    (body s).2 = _
  rfl

/-- A repetition, of which the last round shows what the others continue. There are enough rounds
since each of them reads something. -/
theorem whileTrue {R : List Lexeme → List Lexeme → Prop} {body : Parser Bool}
    (h : Takes (Round R) .nothing body) :
    Takes (fun read _ rest => R read rest) .nothing (Parser.whileTrue body) := by
  have hretains (fuel : Nat) : Retaining .nothing (loopFrom (roundOf body) fuel ()) := by
    refine .loopFrom (fun _ => ?_) fuel ()
    exact h.retains.bind fun _ => .of_notes fun _ => rfl
  have hrounds (fuel : Nat) : ∀ s : State, s.rest.length < fuel → s.Audible →
      (loopFrom (roundOf body) fuel () s).2.reports = s.reports →
      ∃ read, R read (loopFrom (roundOf body) fuel () s).2.rest ∧
        s.Took read (loopFrom (roundOf body) fuel () s).2 := by
    induction fuel with
    | zero => exact fun s hlt => absurd hlt (Nat.not_lt_zero _)
    | succ fuel ih =>
      intro s hlt hs heq
      have hround := roundOf_eq body s
      cases hgoesOn : (body s).1 with
      | false =>
        rw [hgoesOn] at hround
        rw [loopFrom_done hround] at heq ⊢
        obtain ⟨read, hread, htook⟩ := h.silent s trivial hs heq
        rw [hgoesOn] at hread
        exact ⟨read, hread, htook⟩
      | true =>
        rw [hgoesOn] at hround
        rw [loopFrom_yield hround] at heq ⊢
        have hfirst := (h.retains s trivial).reports_eq (hretains fuel _ trivial) heq
        obtain ⟨read, hread, htook⟩ := h.silent s trivial hs hfirst
        rw [hgoesOn] at hread
        obtain ⟨hne, hcontinues⟩ := hread
        have hshorter : (body s).2.rest.length < fuel := by
          have hlength := congrArg List.length htook.rest
          have hpositive := List.length_pos_iff.mpr hne
          rw [List.length_append] at hlength
          omega
        obtain ⟨more, hmore, htook'⟩ := ih _ hshorter (hs.took htook) (heq.trans hfirst.symm)
        exact ⟨read ++ more, hcontinues _ _ htook'.rest hmore, htook.trans htook'⟩
  exact ⟨fun s _ => hretains _ s trivial, fun s _ => hrounds _ s (by omega)⟩

/-! ## Groups -/

/-- A delimiter is no longer open after its group, whether or not its closer is there. -/
theorem close_retains (closer : Kind) (kind : DiagnosticKind) (s : State) :
    s.reports <:+ (close closer kind s).2.reports ∧
      (close closer kind s).2.openers = s.openers.tail := by
  have hclosed : (s.withNotes s.notes.closed).Retains (close closer kind s).2 := by
    rw [close_eq]
    split
    · exact .of_notes ((notes_bump _).trans (notes_look _))
    · rw [Notes.unclosed]
      cases s.notes.openers.head? with
      | none => exact .of_notes rfl
      | some o => exact .of_told rfl
  exact ⟨hclosed.reports, hclosed.openers⟩

/-- Where a delimiter is open and nothing is noted, its closer was read. -/
theorem close_silent {closer : Kind} {kind : DiagnosticKind} {s : State} (hs : s.Audible)
    (hopen : s.openers ≠ []) (heq : (close closer kind s).2.reports = s.reports) :
    s.next? = some closer ∧ ∃ front l, solid front = [] ∧ l.kind = closer ∧
      l.isTrivia = false ∧ s.Took (front ++ [l]) (close closer kind s).2 := by
  rw [close_eq] at heq ⊢
  split at heq
  case isTrue hnext =>
    rw [if_pos hnext]
    obtain ⟨front, l, hfront, hl, htrivia, htook⟩ :=
      took_next (s := s.withNotes s.notes.closed) (eq_of_beq hnext)
    exact ⟨eq_of_beq hnext, front, l, hfront, hl, htrivia,
      htook.rest, htook.reports, htook.lastReport, htook.stop⟩
  case isFalse =>
    obtain ⟨o, os, hopeners⟩ := List.exists_cons_of_ne_nil hopen
    have hnotes : s.notes.openers = o :: os := hopeners
    rw [Notes.unclosed, hnotes] at heq
    exact absurd heq (hs.told_ne _ _ _ _ rfl rfl)

section Between

variable {R : List Kind → Prop} {opener closer : Kind} {kind : DiagnosticKind}

/-- Where nothing is noted of what is open, its closer was read. -/
theorem body_close_silent {body : Parser β}
    (hbody : Takes (fun read _ rest => (kinds rest).head? = some closer → R (kinds read))
      .nothing body)
    {s : State} (hs : s.Audible) (hopen : s.openers ≠ [])
    (heq : (close closer kind (body s).2).2.reports = s.reports) :
    ∃ front last, R (kinds front) ∧ last.kind = closer ∧ last.isTrivia = false ∧
      s.Took (front ++ [last]) (close closer kind (body s).2).2 := by
  have hsame : (body s).2.reports = s.reports :=
    ((hbody.retains s trivial).reports.eq_of_length_le
      (heq ▸ (close_retains closer kind _).1.length_le)).symm
  obtain ⟨read, hread, htook⟩ := hbody.silent s trivial hs hsame
  obtain ⟨hnext, front, l, hfront, hl, htrivia, htook'⟩ := close_silent (hs.took htook)
    ((hbody.retains s trivial).openers ▸ hopen) (heq.trans hsame.symm)
  refine ⟨read ++ front, l, ?_, hl, htrivia, ?_⟩
  · rw [kinds_append, kinds_of_solid_nil hfront, List.append_nil]
    refine hread ?_
    rw [kinds, List.head?_map]
    exact hnext
  · rw [List.append_assoc]
    exact htook.trans htook'

/-- What opens it is read, or missed and noted, and so is what closes it. -/
theorem between {opening : Parser α} {body : Parser β}
    (hopening : Takes (fun read _ _ => kinds read = [opener]) sight.past opening)
    (hbody : Takes (fun read _ rest => (kinds rest).head? = some closer → R (kinds read))
      .nothing body) :
    Takes (fun read _ _ => Enclosed opener closer R read) sight
      (pushOpener opener >>= fun _ => opening >>= fun _ => body >>= fun _ =>
        close closer kind) := by
  -- from where the opener is noted
  have hfrom {t : State} (ht : sight.past.Holds t) :=
    (hopening.retains t ht).trans (hbody.retains _ trivial)
  have hpast {s : State} (hs : sight.Holds s) : sight.past.Holds (pushOpener opener s).2 :=
    hs.past.past_of_rest rfl
  refine ⟨fun s hs => ?_, fun s hsight hs heq => ?_⟩
  · obtain ⟨hreports, hopeners⟩ := close_retains closer kind (body (opening _).2).2
    exact ⟨(hfrom (hpast hs)).reports.trans hreports,
      hopeners.trans (congrArg List.tail (hfrom (hpast hs)).openers)⟩
  · have hpushed : Took (s.rest.takeWhile Lexeme.isTrivia) s (pushOpener opener s).2 :=
      ⟨(took_skipTrivia s).rest, rfl, rfl, rfl⟩
    have ht := hpast hsight
    have hopen := hopening.retains _ ht
    have hsame : (opening (pushOpener opener s).2).2.reports = s.reports :=
      (hopen.reports.eq_of_length_le (heq ▸ (hbody.retains _ trivial).reports.length_le.trans
        (close_retains closer kind _).1.length_le)).symm
    obtain ⟨read, hread, htook⟩ := hopening.silent _ ht (hs.took hpushed) hsame
    obtain ⟨front, last, hfront, hlast, htrivia, htook'⟩ := body_close_silent hbody
      ((hs.took hpushed).took htook) (hopen.openers ▸ List.cons_ne_nil _ _)
      (heq.trans hsame.symm)
    refine ⟨_, ⟨s.rest.takeWhile isTrivia ++ (read ++ front), last, kinds front, ?_, hlast,
      htrivia, ?_, hfront⟩, hpushed.trans (htook.trans htook')⟩
    · simp only [List.append_assoc]
    · rw [kinds_append, kinds_of_solid_nil (solid_takeWhile _), List.nil_append,
        kinds_append, hread, List.singleton_append]

end Between

/-- A delimiter is read that is known to be directly ahead. -/
theorem bump_opens (hsight : sight.first? = some k) :
    Takes (fun read _ _ => kinds read = [k]) sight Parser.bump := by
  refine (bump hsight).mono fun read _ _ hread => ?_
  obtain ⟨l, rfl, hk, hl⟩ := hread
  rw [kinds_cons hl, hk]
  rfl

/-- A lexeme is read if it is of a kind. -/
theorem eat (k : Kind) :
    Takes (fun read b _ => kinds read = if b = true then [k] else []) sight (Parser.eat k) := by
  refine ⟨fun s _ => ?_, fun s _ _ _ => ?_⟩ <;> rw [eat_eq] <;> split
  case refine_1.isTrue => exact .of_notes ((notes_bump _).trans (notes_look _))
  case refine_1.isFalse => exact .of_notes (notes_look _)
  case refine_2.isTrue hnext =>
    obtain ⟨front, l, hfront, hl, htrivia, htook⟩ := took_next (eq_of_beq hnext)
    refine ⟨_, ?_, htook⟩
    rw [kinds_append, kinds_of_solid_nil hfront, kinds_cons htrivia, hl]
    rfl
  case refine_2.isFalse =>
    refine ⟨_, ?_, (took_skipTrivia s).trans (took_look _)⟩
    rw [List.append_nil]
    exact kinds_of_solid_nil (solid_takeWhile _)

/-- A delimiter is read, or missed and noted. -/
theorem expect_opens (spelling : String) :
    Takes (fun read _ _ => kinds read = [k]) sight (expect k spelling) := by
  refine (eat k).bind fun read b => ?_
  cases b with
  | false =>
    exact noisyThen (.reportWith _ _) (fun _ _ => reportWith_ne _ _) fun _ => .of_notes fun _ => rfl
  | true =>
    refine .pure fun rest hread => ?_
    rw [List.append_nil]
    exact hread

theorem opening {opening : Parser α} (h : Grammar.Opening sight opening) :
    Takes (fun read _ _ => kinds read = [.lparen]) sight.past opening := by
  cases h with
  | bump hsight => exact bump_opens hsight
  | expect spelling => exact expect_opens spelling

end Takes

end SplQuery

import SplQuery.Proofs.Delimiter.Nesting
import SplQuery.Proofs.Silent.Takes

/-!
# Delimiters that are read in pairs

Every production is paired: if it notes nothing, the delimiters that it has read are those of groups
that it has closed, and of values in parentheses. What stands between the parentheses of a value is
read lexeme by lexeme, and only parentheses are counted. So a bracket may be opened there that is
never closed.

* `Paired` — a step that reads delimiters that pass, or notes something.
* `Paired.bind`, `Paired.bumpThen` and the like — the ways of putting steps together.
* `Paired.enclosed` — a group.
* `Grammar.valueStep` — what is done with one lexeme of a value in parentheses.
* `Delimiters.Counted` — the parentheses read so far.
* `Takes.balancedParens`, `Paired.balancedParens` — a value in parentheses.
-/

namespace SplQuery

open Lexeme
open Delimiters State

/-- The step notes something or reads delimiters that pass. -/
abbrev Paired (sight : Sight) {α : Type} (p : Parser α) : Prop :=
  Takes (fun read _ _ => Accepted (delimiters read)) sight p

namespace Paired

open SplQuery.Parser

variable {sight : Sight} {k : Kind} {α β σ : Type} {p : Parser α}

/-- Lexemes are read of which none is a delimiter. -/
theorem accepted_of_none {read : List Lexeme} (h : ∀ l ∈ read, l.kind.isDelimiter = false) :
    Accepted (delimiters read) := by
  have hnone : delimiters read = [] := by
    refine List.filter_eq_nil_iff.mpr fun k hk => ?_
    obtain ⟨l, hl, rfl⟩ := List.mem_map.mp hk
    rw [h l hl]
    exact Bool.false_ne_true
  rw [hnone]
  exact .nil

/-- Trivia in front do not matter. -/
theorem accepted_after {front read : List Lexeme} (hfront : solid front = [])
    (h : Accepted (delimiters read)) : Accepted (delimiters (front ++ read)) := by
  rwa [delimiters_append, delimiters_eq front, kinds_of_solid_nil hfront, List.filter_nil,
    List.nil_append]

theorem pure (a : α) : Paired sight (Pure.pure a : Parser α) := Takes.pure fun _ => .nil

theorem bind {f : α → Parser β} (h : Paired sight p) (hf : ∀ a, Paired .nothing (f a)) :
    Paired sight (p >>= f) := by
  refine Takes.bind h fun read a => (hf a).mono fun more _ _ hmore hread => ?_
  rw [delimiters_append]
  exact hread.append hmore

theorem peek {f : α → Parser β} (h : ∀ s, sight.Holds s → Glances s (p s).2)
    (hf : ∀ s, sight.Holds s → ∃ after : Sight,
      after.Holds (p s).2 ∧ Paired after (f (p s).1)) : Paired sight (p >>= f) := by
  refine Takes.peek h fun s hs => ?_
  obtain ⟨after, hafter, hnext⟩ := hf s hs
  exact ⟨after, hafter, hnext.mono fun _ _ _ hmore _ _ hfront => accepted_after hfront hmore⟩

/-- A step that reads trivia at the most. -/
theorem glance (h : ∀ s, sight.Holds s → Glances s (p s).2) : Paired sight p := by
  have hpure : Paired sight (p >>= Pure.pure) :=
    peek h fun s _ => ⟨.nothing, trivial, .pure _⟩
  exact ⟨hpure.retains, hpure.silent⟩

/-! ## Looking ahead -/

section Questions

variable {f : Option Kind → Parser β}

theorem ask (hf : f none = f (some .pipe)) (hnone : Paired .nothing (f none))
    (hsome : ∀ k, k ≠ .pipe → Paired (.here k) (f (some k))) :
    Paired .nothing (Parser.current >>= f) :=
  peek (fun s _ => glances_current s) fun s _ =>
    current_sees (P := (Paired · ·)) hf hnone hsome s

theorem look (hsight : sight.past.first? = some k) (h : Paired sight.past (f (some k))) :
    Paired sight (Parser.current >>= f) :=
  peek (fun s _ => glances_current s) fun _ hs => current_shows (P := (Paired · ·)) hsight h hs

theorem askSecond (hf : f none = f (some .pipe)) (hnone : Paired (.here k) (f none))
    (hsome : ∀ l, l ≠ .pipe → Paired (.pair k l) (f (some l))) :
    Paired (.here k) (ahead >>= f) :=
  peek (fun s _ => glances_skipTrivia s) fun _ hs =>
    ahead_sees (P := (Paired · ·)) hf hnone hsome hs

theorem touching {a : β} (hf : f (some .pipe) = Pure.pure a)
    (h : ∀ k, k ≠ .pipe → Paired (.here k) (f (some k))) :
    Paired .nothing (glued >>= fun b => if b = true then adjacent >>= f else Pure.pure a) := by
  refine Takes.touching (fun _ _ => .nil) fun k => ?_
  by_cases hk : k = .pipe
  · subst hk
    rw [hf]
    exact Paired.pure a
  · exact h k hk

theorem require {member : Kind → Bool} {f : Unit → Parser β} (hsight : sight.first? = some k)
    (hmember : member k = true) (h : Paired sight (f ())) :
    Paired sight (Parser.require member >>= f) :=
  Takes.require hsight hmember h

end Questions

/-! ## Reading -/

theorem bumpThen {f : Unit → Parser β} (hsight : sight.first? = some k)
    (hk : k.isDelimiter = false) (h : Paired sight.afterBump (f ())) :
    Paired sight (Parser.bump >>= f) := by
  refine Takes.bumpThen hsight fun l hl _ => h.mono fun more _ _ hmore => ?_
  rw [← List.singleton_append, delimiters_append]
  refine Accepted.append (accepted_of_none fun m hm => ?_) hmore
  rw [List.mem_singleton.mp hm, hl]
  exact hk

/-- Past trivia there is a lexeme that is no delimiter, so that directly ahead there is none. -/
theorem bumpBlindly {f : Unit → Parser β} (hk : k.isDelimiter = false)
    (h : Paired .nothing (f ())) : Paired (.next k) (Parser.bump >>= f) := by
  have hbump : Paired (.next k) Parser.bump := by
    refine Takes.bumpBlindly.mono fun read _ _ hread => accepted_of_none fun l hl => ?_
    obtain ⟨m, rfl, hm⟩ := hread
    obtain rfl := List.mem_singleton.mp hl
    cases hm with
    | inl hm => exact hm ▸ hk
    | inr hm => exact Kind.isDelimiter_of_isTrivia hm
  exact hbump.bind fun _ => h

/-! ## Repetition -/

theorem loopFrom {body : σ → Parser (ForInStep σ)} (h : ∀ a, Paired .nothing (body a)) :
    ∀ fuel a, Paired .nothing (Parser.loopFrom body fuel a) := by
  intro fuel
  induction fuel with
  | zero => exact fun a => glance fun s _ => .of_took rfl ⟨rfl, rfl, rfl, rfl⟩
  | succ fuel ih =>
    refine fun a => (h a).bind fun step => ?_
    cases step with
    | done b => exact pure b
    | yield b => exact ih b

theorem loop {init : σ} {body : σ → Parser (ForInStep σ)} (hfirst : Paired sight (body init))
    (hothers : ∀ a, Paired .nothing (body a)) : Paired sight (Parser.loop init body) := by
  have hround (fuel : Nat) : Paired sight (Parser.loopFrom body (fuel + 1) init) := by
    refine hfirst.bind fun step => ?_
    cases step with
    | done b => exact pure b
    | yield b => exact loopFrom hothers fuel b
  exact ⟨fun s => (hround (s.rest.length + 1)).retains s,
    fun s => (hround (s.rest.length + 1)).silent s⟩

theorem whileTrue {body : Parser Bool} (h : Paired .nothing body) :
    Paired .nothing (Parser.whileTrue body) :=
  loop (h.bind fun _ => pure _) fun _ => h.bind fun _ => pure _

/-! ## Recovery and groups -/

theorem recover (kind : DiagnosticKind) (detail : String) :
    Paired .nothing (Parser.recover kind detail) := by
  have hend : Paired .nothing Parser.atStageEnd :=
    glance fun s _ => glances_current s
  refine hend.bind fun _ => .ite (fun _ => .reportWith _ _) fun _ => .node _ ?_
  exact .noisyThen (.reportWith _ _) (fun _ _ => Takes.reportWith_ne _ _) fun _ =>
    .skipBalanced _

theorem delimiters_of_enclosed {opener closer : Kind} {R : List Kind → Prop} {read : List Lexeme}
    (hpairs : opener.Pairs closer) (h : Enclosed opener closer R read) :
    ∃ inside, delimiters read = opener :: (inside.filter Kind.isDelimiter ++ [closer]) ∧
      R inside := by
  obtain ⟨inside, hkinds, hinside⟩ := h.kinds_eq
  refine ⟨inside, ?_, hinside⟩
  rw [delimiters_eq, hkinds]
  cases hpairs <;> rw [List.filter_cons_of_pos rfl, List.filter_append] <;> rfl

/-- A group whose inside passes. -/
theorem enclosed {opener closer : Kind} (hpairs : opener.Pairs closer) (kind : DiagnosticKind)
    {opening : Parser α} {body : Parser Unit}
    (hopening : Takes (fun read _ _ => kinds read = [opener]) sight.past opening)
    (hbody : Paired .nothing body) :
    Paired sight (pushOpener opener >>= fun _ => opening >>= fun _ => body >>= fun _ =>
      close closer kind) := by
  have hbetween : Takes (fun read _ rest => (kinds rest).head? = some closer →
      Accepted ((kinds read).filter Kind.isDelimiter)) .nothing body :=
    hbody.mono fun read _ _ hread _ => by rwa [← delimiters_eq]
  refine (Takes.between (R := fun ks => Accepted (ks.filter Kind.isDelimiter)) hopening
    hbetween).mono fun read _ _ hread => ?_
  obtain ⟨inside, hdelimiters, hinside⟩ := delimiters_of_enclosed hpairs hread
  rw [hdelimiters]
  exact .group hpairs hinside .nil

end Paired

/-! ## Values in parentheses -/

namespace Kind

/-- Whether a stage ends before a lexeme of a kind. -/
def endsStage : Kind → Bool
  | .pipe | .rbracket => true
  | _ => false

/-- Whether a value in parentheses ends before a lexeme of a kind, with so many further parentheses
open. -/
def endsValue (depth : Nat) : Kind → Bool
  | .pipe | .rbracket => true
  | .rparen => depth == 0
  | _ => false

theorem endsStage_of_endsValue {k : Kind} {depth : Nat} (h : k.endsValue depth = false) :
    k.endsStage = false := by
  cases k <;> first | rfl | cases h

/-- How many further parentheses are open after a lexeme of a kind, of so many before it. -/
def valueDepth (depth : Nat) : Kind → Nat
  | .lparen => depth + 1
  | .rparen => depth - 1
  | _ => depth

end Kind

namespace Grammar

open SplQuery.Parser

/-- The next lexeme of a value in parentheses is read, with so many further parentheses open. -/
def valueStep (depth : Nat) : Parser (ForInStep Nat) := do
  let step (depth : Nat) : Parser (ForInStep Nat) := do
    bump
    return .yield depth
  match ← current with
  | none | some .pipe | some .rbracket => return .done depth
  | some .rparen => if depth == 0 then return .done depth else step (depth - 1)
  | some .lparen => step (depth + 1)
  | some _ => step depth

theorem balancedParens_eq : balancedParens = (require (· == .lparen) >>= fun _ =>
    pushOpener .lparen >>= fun _ => bump >>= fun _ => loop 0 valueStep >>= fun _ =>
      close .rparen .unclosedParen) := rfl

variable {s : State} {depth : Nat}

theorem valueStep_of_none (h : s.next? = none) :
    valueStep depth s = (.done depth, s.skipTrivia.look) := by
  simp only [valueStep, bind, StateT.bind, current_eq, h]
  rfl

theorem valueStep_of_some {k : Kind} (h : s.next? = some k) :
    valueStep depth s =
      if k.endsValue depth = true then (.done depth, s.skipTrivia.look)
      else (.yield (k.valueDepth depth), s.skipTrivia.look.bump) := by
  simp only [valueStep, bind, StateT.bind, current_eq, h]
  cases k with
  | rparen => cases depth <;> rfl
  | _ => rfl

end Grammar

namespace Delimiters

/-- Reading a lexeme of a value keeps account of the parentheses. -/
theorem Skipped.step {depth : Nat} {k : Kind} {ks : List Kind}
    (h : Skipped (k.valueDepth depth) ks) (hk : k.endsValue depth = false) :
    Skipped depth ([k].filter Kind.isDelimiter ++ ks) := by
  cases k with
  | rparen =>
    cases depth with
    | zero => cases hk
    | succ depth => exact .closes h
  | rbracket => cases hk
  | lparen => exact .opens h
  | lbracket => exact .bracket h
  | _ => exact h

/-- From `s` on lexemes of a value were read up to `t`, where so many further parentheses are
open. -/
structure Counted (s : State) (depth : Nat) (t : State) : Prop where
  notes : t.notes = s.notes
  read : ∃ read, s.rest = read ++ t.rest ∧ (∀ k ∈ kinds read, k.endsStage = false) ∧
    ∀ ks, Skipped depth ks → Skipped 0 ((kinds read).filter Kind.isDelimiter ++ ks)

namespace Counted

open SplQuery.Parser Grammar

variable {s t : State} {depth : Nat} {k : Kind}

theorem refl (s : State) : Counted s 0 s := ⟨rfl, [], rfl, nofun, fun _ h => h⟩

theorem look (h : Counted s depth t) : Counted s depth t.skipTrivia.look := by
  obtain ⟨read, hrest, hinside, hread⟩ := h.read
  refine ⟨(notes_look _).trans h.notes, read ++ t.rest.takeWhile Lexeme.isTrivia, ?_, ?_, ?_⟩
  · rw [look_rest, hrest, List.append_assoc, ← (took_skipTrivia t).rest]
  · rwa [kinds_append, kinds_of_solid_nil (solid_takeWhile _), List.append_nil]
  · rwa [kinds_append, kinds_of_solid_nil (solid_takeWhile _), List.append_nil]

/-- Reading on keeps account. -/
theorem bump (h : Counted s depth t) (hnext : t.next? = some k)
    (hk : k.endsValue depth = false) :
    Counted s (k.valueDepth depth) t.skipTrivia.look.bump := by
  obtain ⟨read, hrest, hinside, hread⟩ := h.read
  obtain ⟨front, l, hfront, rfl, hl, htook⟩ := took_next hnext
  have hkinds : kinds (read ++ (front ++ [l])) = kinds read ++ [l.kind] := by
    rw [kinds_append, kinds_append, kinds_of_solid_nil hfront, kinds_cons hl]
    rfl
  refine ⟨((notes_bump _).trans (notes_look _)).trans h.notes, read ++ (front ++ [l]), ?_, ?_, ?_⟩
  · rw [hrest, htook.rest, List.append_assoc read]
  · rw [hkinds]
    refine List.forall_mem_append.mpr ⟨hinside, List.forall_mem_singleton.mpr ?_⟩
    exact Kind.endsStage_of_endsValue hk
  · intro ks hks
    rw [hkinds, List.filter_append, List.append_assoc]
    exact hread _ (hks.step hk)

/-- Where a parenthesis ends the value, those read since the first one are closed. -/
theorem loop (s : State) : Ends (Parser.loop 0 valueStep) s fun _ t =>
    ∃ depth, Counted s depth t ∧ (t.next? = some .rparen → depth = 0) := by
  refine loop_ends (fun _ => 0) (Nat.zero_le _) (refl s) fun depth t ht => ?_
  have hsame : t.skipTrivia.look.next? = t.next? :=
    (next?_of_rest (look_rest _)).trans (next?_skipTrivia t)
  cases hnext : t.next? with
  | none =>
    rw [Ends, valueStep_of_none hnext]
    refine ⟨depth, ht.look, fun h => ?_⟩
    rw [hsame, hnext] at h
    cases h
  | some k =>
    rw [Ends, valueStep_of_some hnext]
    split
    case isTrue hend =>
      refine ⟨depth, ht.look, fun h => ?_⟩
      rw [hsame, hnext] at h
      cases h
      exact eq_of_beq hend
    case isFalse hgoes =>
      refine ⟨ht.bump hnext (Bool.eq_false_iff.mpr hgoes), ?_⟩
      obtain ⟨front, l, -, -, -, htook⟩ := took_next hnext
      have hlength := congrArg List.length htook.rest
      rw [List.length_append, List.length_append, List.length_singleton] at hlength
      change t.skipTrivia.look.bump.rest.length < t.rest.length
      omega

end Counted

/-- What stands inside a value in parentheses that ends where it should. -/
def InValue (ks : List Kind) : Prop :=
  Skipped 0 (ks.filter Kind.isDelimiter) ∧ ∀ k ∈ ks, k.endsStage = false

end Delimiters

open Grammar in
/-- The inside of a value in parentheses, where one follows that ends it. -/
theorem Takes.valueSteps : Takes (fun read _ rest => (kinds rest).head? = some .rparen →
    InValue (kinds read)) .nothing (Parser.loop 0 valueStep) := by
  refine ⟨.of_notes fun s => ?_, fun s _ _ _ => ?_⟩ <;>
    obtain ⟨depth, hcounted, hdepth⟩ := Counted.loop s
  · exact hcounted.notes
  · obtain ⟨read, hrest, hinside, hread⟩ := hcounted.read
    refine ⟨read, fun hnext => ⟨?_, hinside⟩, .of_notes hrest hcounted.notes⟩
    rw [kinds, List.head?_map] at hnext
    obtain rfl := hdepth hnext
    simpa using hread [] .nil

/-- A value in parentheses. -/
theorem Takes.balancedParens : Takes (fun read _ _ => Enclosed .lparen .rparen InValue read)
    (.here .lparen) Grammar.balancedParens := by
  rw [Grammar.balancedParens_eq]
  exact require rfl rfl (between (bump_opens rfl) valueSteps)

theorem Paired.balancedParens : Paired (.here .lparen) Grammar.balancedParens := by
  refine Takes.balancedParens.mono fun read _ _ hread => ?_
  obtain ⟨inside, hdelimiters, hskipped, -⟩ := delimiters_of_enclosed .parens hread
  rw [hdelimiters]
  exact .value hskipped .nil

end SplQuery

import Mathlib.Data.List.DropRight
import SplQuery.Proofs.Extent.Values
import SplQuery.Proofs.Pattern.Trailing

/-!
# What a match binds

Each binding of a match is made of a block of tokens, and the blocks come one after another: a step
of the matcher that binds something goes on from behind the tokens that it has bound. Of a progress
this is an invariant, however the progresses are picked and put in order. The tokens of a block come
from lexemes that stand side by side in the text, and the text of the binding is theirs, with a
space for each stretch of trivia.

* `Pattern.Laid` — the bindings of a progress are laid out in blocks.
* `Pattern.laid_follow` — the matcher keeps them laid out.
* `Lexeme.joined` — the texts of lexemes, with a space for each stretch of trivia.
* `Pattern.interpret_binds` — the bindings of a match.
-/

namespace SplQuery

/-- Tokens one after another, by the number of the first one and of the one behind the last. -/
structure Block where
  first : Nat
  stop : Nat

namespace Pattern

variable {α : Type} {tokens : List Token}

/-! ## Bindings in blocks -/

/-- The binding is that of the tokens of a block, of which there is at least one. -/
def BindsBlock (tokens : List Token) (b : Binding) (block : Block) : Prop :=
  block.first < block.stop ∧ block.stop ≤ tokens.length ∧
    b = bind tokens b.name b.type b.effect block.first (block.stop - block.first)

/-- The bindings are laid out in blocks, one after another, up to a place. -/
structure LaidUpTo (tokens : List Token) (bindings : List Binding) (pos : Nat)
    (blocks : List Block) : Prop where
  binds : List.Forall₂ (BindsBlock tokens) bindings blocks
  apart : blocks.Pairwise fun a b => a.stop ≤ b.first
  passed : ∀ block ∈ blocks, block.stop ≤ pos

/-- The bindings of a progress are laid out in blocks of the tokens that it has passed. -/
def Laid (tokens : List Token) (p : Progress) : Prop :=
  p.pos ≤ tokens.length ∧ ∃ blocks, LaidUpTo tokens p.bindings p.pos blocks

theorem laid_start (tokens : List Token) : Laid tokens ⟨0, []⟩ :=
  ⟨Nat.zero_le _, [], .nil, .nil, List.forall_mem_nil _⟩

/-- Tokens may be passed without binding them. -/
theorem Laid.pass {p : Progress} {j : Nat} (h : Laid tokens p) (hp : p.pos ≤ j)
    (hj : j ≤ tokens.length) : Laid tokens ⟨j, p.bindings⟩ := by
  obtain ⟨-, blocks, hbinds, hapart, hpassed⟩ := h
  refine ⟨hj, blocks, hbinds, hapart, ?_⟩
  intro block hblock
  exact Nat.le_trans (hpassed block hblock) hp

/-- What is bound next comes from tokens behind those that have been passed. -/
theorem Laid.bind {p : Progress} {i n : Nat} (h : Laid tokens p) (name : String) (type : ParamType)
    (effect : Catalog.FieldEffect) (hp : p.pos ≤ i) (hn : 0 < n) (hlength : i + n ≤ tokens.length) :
    Laid tokens ⟨i + n, p.bindings ++ [Pattern.bind tokens name type effect i n]⟩ := by
  obtain ⟨-, blocks, hbinds, hapart, hpassed⟩ := h
  have hnew : BindsBlock tokens (Pattern.bind tokens name type effect i n) ⟨i, i + n⟩ := by
    refine ⟨Nat.lt_add_of_pos_right hn, hlength, ?_⟩
    rw [Nat.add_sub_cancel_left]
    rfl
  refine ⟨hlength, blocks ++ [⟨i, i + n⟩], ?_, ?_, ?_⟩
  · exact List.rel_append hbinds (.cons hnew .nil)
  · refine List.pairwise_append.mpr ⟨hapart, List.pairwise_singleton _ _, ?_⟩
    intro a ha b hb
    obtain rfl := List.mem_singleton.mp hb
    exact Nat.le_trans (hpassed a ha) hp
  · intro block hblock
    rcases List.mem_append.mp hblock with hblock | hblock
    · exact Nat.le_trans (hpassed block hblock) (by dsimp only; omega)
    · obtain rfl := List.mem_singleton.mp hblock
      exact Nat.le_refl _

/-! ## Steps of the matcher -/

/-- Whatever has been refused before, all progresses that the step answers are laid out. -/
def AnswersLaid (tokens : List Token) (m : Matcher (List Progress)) : Prop :=
  ∀ t, ∀ q ∈ (m t).1, Laid tokens q

namespace AnswersLaid

variable {m : Matcher (List Progress)} {f : List Progress → Matcher (List Progress)}

theorem pure {ps : List Progress} (h : ∀ p ∈ ps, Laid tokens p) :
    AnswersLaid tokens (Pure.pure ps) :=
  fun _ => h

theorem bind (h : AnswersLaid tokens m)
    (hf : ∀ ps, (∀ p ∈ ps, Laid tokens p) → AnswersLaid tokens (f ps)) :
    AnswersLaid tokens (m >>= f) :=
  fun t => hf _ (h t) _

/-- What was done before the last step does not matter. -/
theorem after {m : Matcher α} {f : α → Matcher (List Progress)}
    (hf : ∀ a, AnswersLaid tokens (f a)) : AnswersLaid tokens (m >>= f) :=
  fun _ => hf _ _

end AnswersLaid

theorem mem_of_mem_distinct {p : Progress} {ps : List Progress} (h : p ∈ distinct ps) : p ∈ ps := by
  suffices hkept : ∀ kept : List Progress,
      p ∈ ps.foldl (fun kept p => if kept.any (·.pos == p.pos) then kept else kept ++ [p]) kept →
      p ∈ kept ∨ p ∈ ps by
    rcases hkept [] h with hnil | hps
    · cases hnil
    · exact hps
  clear h
  induction ps with
  | nil => exact fun kept h => .inl h
  | cons q ps ih =>
    intro kept h
    rcases ih _ h with h | h
    · dsimp only at h
      split at h
      · exact .inl h
      · rcases List.mem_append.mp h with h | h
        · exact .inl h
        · exact .inr (List.mem_cons.mpr (.inl (List.mem_singleton.mp h)))
    · exact .inr (List.mem_cons_of_mem q h)

theorem laid_distinct {ps : List Progress} (h : ∀ p ∈ ps, Laid tokens p) :
    ∀ p ∈ distinct ps, Laid tokens p :=
  fun p hp => h p (mem_of_mem_distinct hp)

/-- A step taken from each of several progresses. -/
theorem laid_flatMapM {f : Progress → Matcher (List Progress)} {ps : List Progress}
    (hf : ∀ p ∈ ps, AnswersLaid tokens (f p)) : AnswersLaid tokens (ps.flatMapM f) := by
  suffices h : ∀ before : List (List Progress), (∀ p ∈ before.reverse.flatten, Laid tokens p) →
      AnswersLaid tokens (List.flatMapM.loop f ps before) from h [] (List.forall_mem_nil _)
  induction ps with
  | nil => exact fun before h => .pure h
  | cons p ps ih =>
    intro before h
    obtain ⟨hp, hps⟩ := List.forall_mem_cons.mp hf
    refine hp.bind fun qs hqs => ih hps (qs :: before) ?_
    rw [List.reverse_cons, List.flatten_append, List.flatten_singleton]
    exact List.forall_mem_append.mpr ⟨h, hqs⟩

theorem laid_followParam (q : Param) {p : Progress} (h : Laid tokens p) :
    AnswersLaid tokens (followParam tokens q p) := by
  have hends : ∀ r ∈ (Extent.ofType q.type (tokens.drop p.pos)).map fun n =>
      (⟨p.pos + n, p.bindings ++ [Pattern.bind tokens q.name q.type q.effect p.pos n]⟩ : Progress),
      Laid tokens r := by
    intro r hr
    obtain ⟨n, hn, rfl⟩ := List.mem_map.mp hr
    have hpos := Extent.pos_of_mem hn
    have hlength := Extent.le_length_of_mem hn
    rw [List.length_drop] at hlength
    exact h.bind q.name q.type q.effect (Nat.le_refl _) hpos (by omega)
  rw [followParam]
  dsimp only
  split
  · exact .after fun _ => .pure hends
  · exact .pure hends

/-- The value of an option is bound, its name and the equals sign are passed. -/
theorem laid_followOptions (offered : List OptionSpec) (fuel : Nat) {passed : List Progress}
    {p : Progress} (h : Laid tokens p) (hpassed : ∀ q ∈ passed, Laid tokens q) :
    AnswersLaid tokens (followOptions tokens offered fuel passed p) := by
  induction fuel generalizing passed p with
  | zero => exact .pure (List.forall_mem_cons.mpr ⟨h, hpassed⟩)
  | succ fuel ih =>
    have hkept : ∀ q ∈ p :: passed, Laid tokens q := List.forall_mem_cons.mpr ⟨h, hpassed⟩
    rw [followOptions]
    dsimp only
    split
    · exact .after fun _ => .pure hkept
    · split
      case h_1 => exact .after fun _ => .pure hkept
      case h_2 n hvalue =>
        rw [List.drop_drop] at hvalue
        have hpos : 0 < n := (Extent.closed_value? hvalue).1
        have hlength := Extent.value?_le hvalue
        rw [List.length_drop] at hlength
        have hfits : p.pos + 2 + n ≤ tokens.length := by omega
        exact ih (h.bind _ _ _ (Nat.le_add_right _ 2) hpos hfits) hkept

/-- A repetition goes on from behind the separator as well, if there is one. -/
theorem laid_followItems {item : Progress → Matcher (List Progress)}
    (hitem : ∀ p, Laid tokens p → AnswersLaid tokens (item p)) (separator : Option String)
    (first : Bool) {ps : List Progress} (h : ∀ p ∈ ps, Laid tokens p) :
    AnswersLaid tokens (followItems tokens item separator first ps) := by
  induction ps with
  | nil => exact .pure (List.forall_mem_nil _)
  | cons p ps ih =>
    obtain ⟨hp, hps⟩ := List.forall_mem_cons.mp h
    rw [followItems]
    refine (laid_flatMapM fun q hq => hitem q ?_).bind fun ends hends =>
      (ih hps).bind fun rest hrest => .pure ?_
    · split at hq
      case isTrue hseparated =>
        rw [Bool.and_eq_true] at hseparated
        obtain ⟨text, -, htext⟩ := (Option.any_eq_true _ _).mp hseparated.2
        rcases List.mem_cons.mp hq with rfl | hq
        · exact hp.pass (Nat.le_succ _) (hasText_lt htext)
        · rwa [List.mem_singleton.mp hq]
      case isFalse => rwa [List.mem_singleton.mp hq]
    · refine List.forall_mem_append.mpr ⟨?_, hrest⟩
      intro q hq
      exact hends q (List.mem_of_mem_filter hq)

theorem laid_followRepeats {item : Progress → Matcher (List Progress)}
    (hitem : ∀ p, Laid tokens p → AnswersLaid tokens (item p)) (separator : Option String)
    (min fuel count : Nat) (seen : List Nat) {frontier found : List Progress}
    (hfrontier : ∀ p ∈ frontier, Laid tokens p) (hfound : ∀ p ∈ found, Laid tokens p) :
    AnswersLaid tokens
      (followRepeats tokens item separator min fuel count seen frontier found) := by
  induction fuel generalizing count seen frontier found with
  | zero => exact .pure hfound
  | succ fuel ih =>
    rw [followRepeats]
    split
    · exact .pure hfound
    · refine (laid_followItems hitem separator _ hfrontier).bind fun reached hreached => ?_
      have hnext : ∀ p ∈ distinct (reached.filter fun p => !seen.contains p.pos),
          Laid tokens p := by
        refine laid_distinct ?_
        intro p hp
        exact hreached p (List.mem_of_mem_filter hp)
      refine ih _ _ hnext ?_
      split
      · exact List.forall_mem_append.mpr ⟨hfound, hnext⟩
      · exact hfound

/-- The matcher keeps the bindings laid out, whatever pattern it follows. -/
theorem laid_follow (pattern : Pattern) {p : Progress} (h : Laid tokens p) :
    AnswersLaid tokens (follow tokens pattern p) := by
  induction pattern using Pattern.rec (motive_2 := fun items =>
      (∀ ps, (∀ p ∈ ps, Laid tokens p) → AnswersLaid tokens (followSeq tokens items ps)) ∧
      ∀ p, Laid tokens p → AnswersLaid tokens (followChoice tokens items p))
      generalizing p with
  | keyword text =>
    rw [follow]
    split
    case isTrue htext =>
      have hpassed := h.pass (Nat.le_succ p.pos) (hasText_lt htext)
      exact .pure (List.forall_mem_singleton.mpr hpassed)
    case isFalse => exact .after fun _ => .pure (List.forall_mem_nil _)
  | param q => exact laid_followParam q h
  | seq items ih => exact ih.1 [p] (List.forall_mem_singleton.mpr h)
  | optional item ih =>
    rw [follow]
    refine (ih h).bind fun ps hps => .pure (laid_distinct ?_)
    exact List.forall_mem_append.mpr ⟨hps, List.forall_mem_singleton.mpr h⟩
  | repeated item separator min ih =>
    rw [follow]
    have hone : ∀ q ∈ [p], Laid tokens q := List.forall_mem_singleton.mpr h
    have hfound : ∀ q ∈ if min = 0 then [p] else [], Laid tokens q := by
      split
      · exact hone
      · exact List.forall_mem_nil _
    refine (laid_followRepeats (fun q hq => ih hq) separator min _ 0 [p.pos] hone hfound).bind ?_
    exact fun found hfound => .pure (laid_distinct hfound)
  | choice alternatives ih =>
    rw [follow]
    exact (ih.2 p h).bind fun ps hps => .pure (laid_distinct hps)
  | options offered => exact laid_followOptions offered _ h (List.forall_mem_nil _)
  | nil => exact ⟨fun ps hps => .pure hps, fun p _ => .pure (List.forall_mem_nil _)⟩
  | cons item items ih ihitems =>
    refine ⟨fun ps hps => ?_, fun p hp => ?_⟩
    · cases ps with
      | nil => exact .pure hps
      | cons p ps =>
        rw [followSeq]
        · refine (laid_flatMapM fun q hq => ih (hps q hq)).bind fun next hnext => ?_
          exact ihitems.1 _ (laid_distinct hnext)
        · exact List.cons_ne_nil p ps
    · rw [followChoice]
      refine (ih hp).bind fun ps hps => (ihitems.2 p hp).bind fun qs hqs => .pure ?_
      exact List.forall_mem_append.mpr ⟨hps, hqs⟩

theorem mem_of_furthest? {p : Progress} {ps : List Progress} (h : furthest? ps = some p) :
    p ∈ ps := by
  suffices hbest : ∀ best : Option Progress,
      ps.foldl (fun best p => if best.all (·.pos ≤ p.pos) then some p else best) best = some p →
      best = some p ∨ p ∈ ps from
    (hbest none h).resolve_left (by simp)
  clear h
  induction ps with
  | nil => exact fun best h => .inl h
  | cons q ps ih =>
    intro best h
    rcases ih _ h with h | h
    · dsimp only at h
      split at h
      · exact .inr (List.mem_cons.mpr (.inl (Option.some.inj h).symm))
      · exact .inl h
    · exact .inr (List.mem_cons_of_mem q h)

/-- The bindings of a match are laid out in blocks of the tokens that it took. -/
theorem laid_interpret (pattern : Pattern) (tokens : List Token) :
    Laid tokens ⟨(interpret pattern tokens).consumed, (interpret pattern tokens).bindings⟩ := by
  have hfollow := laid_follow pattern (laid_start tokens) ⟨0, []⟩
  revert hfollow
  rw [interpret, StateT.run]
  obtain ⟨ps, trace⟩ := follow tokens pattern ⟨0, []⟩ ⟨0, []⟩
  intro hfollow
  dsimp only at hfollow ⊢
  split
  case h_1 p hp => exact hfollow p (List.mem_of_find?_eq_some hp)
  case h_2 =>
    cases hbest : furthest? ps with
    | none => exact laid_start tokens
    | some p => exact hfollow p (mem_of_furthest? hbest)

end Pattern

/-! ## Lexemes of a block -/

namespace Lexeme

/-- The texts of lexemes that are no trivia, with a space wherever trivia stands between two of
them. `apart` tells whether trivia stands before the first one. -/
def joined (apart : Bool) : List Lexeme → String
  | [] => ""
  | l :: ls =>
    if l.isTrivia then joined true ls
    else (if apart then " " else "") ++ l.text ++ joined false ls

variable {text : List Char} {l : Lexeme} {ls : List Lexeme}

/-- Tokens are joined as the lexemes that they come from. The lexemes `ls` start at `place`, and it
is `apart` that tells whether trivia stands between `l` and that place. -/
theorem joinText_tokens {place stop : Nat} {apart : Bool} (hadjoin : Adjoin place ls stop)
    (hfilled : ∀ m ∈ ls, m.start < m.stop) (hl : l.stop ≤ place)
    (hapart : apart = true ↔ l.stop < place) :
    Extent.joinText (token text l :: tokens text ls) = l.text ++ joined apart ls := by
  induction ls generalizing l place apart with
  | nil =>
    rw [joined, String.append_empty]
    rfl
  | cons m ls ih =>
    obtain ⟨hm, hls⟩ := hadjoin
    obtain ⟨hmfilled, hfilled⟩ := List.forall_mem_cons.mp hfilled
    cases htrivia : m.isTrivia with
    | true =>
      rw [tokens_cons_of_trivia htrivia, joined, if_pos htrivia]
      exact ih hls hfilled (by omega) (iff_of_true rfl (by omega))
    | false =>
      have hnext : Extent.joinText (token text m :: tokens text ls) = m.text ++ joined false ls :=
        ih hls hfilled (Nat.le_refl _) (iff_of_false Bool.false_ne_true (Nat.lt_irrefl _))
      -- the two tokens touch exactly if no trivia stands between them
      have htouches : Extent.touches (token text l) (token text m) = !apart := by
        rw [touches_token, hm]
        cases apart with
        | true =>
          have hlt := hapart.mp rfl
          exact beq_eq_false_iff_ne.mpr (by omega)
        | false =>
          have hnot : ¬l.stop < place := fun h => Bool.false_ne_true (hapart.mpr h)
          exact beq_iff_eq.mpr (by omega)
      rw [tokens_cons htrivia, Extent.joinText, htouches, hnext, joined, htrivia,
        if_neg Bool.false_ne_true]
      cases apart <;> simp only [Bool.not_true, Bool.not_false, if_true, if_false,
        Bool.false_eq_true, token, String.append_assoc]

/-- Lexemes without trivia at the ends. -/
def Trimmed (ls : List Lexeme) : Prop :=
  (∀ l ∈ ls.head?, l.isTrivia = false) ∧ ∀ l ∈ ls.getLast?, l.isTrivia = false

/-- Lexemes of which not all are trivia have trivia at the ends and others between. -/
theorem exists_trimmed (ls : List Lexeme) :
    ∃ front inside back, ls = front ++ inside ++ back ∧ solid front = [] ∧
      solid back = [] ∧ Trimmed inside := by
  have hsplit := List.takeWhile_append_dropWhile (p := isTrivia) (l := ls)
  have hhead := List.head?_dropWhile_not isTrivia ls
  generalize ls.dropWhile isTrivia = rest at hsplit hhead
  have hrest : rest.rdropWhile isTrivia ++ rest.rtakeWhile isTrivia = rest :=
    List.rdropWhile_append_rtakeWhile
  have hlast := List.rdropWhile_last_not isTrivia rest
  have hback : solid (rest.rtakeWhile isTrivia) = [] :=
    solid_eq_nil fun _ => List.mem_rtakeWhile_imp
  generalize rest.rdropWhile isTrivia = inside at hrest hlast
  refine ⟨_, inside, _, ?_, solid_takeWhile ls, hback, ?_, ?_⟩
  · rw [List.append_assoc, hrest, hsplit]
  · intro l hl
    rw [← hrest, List.head?_append, hl] at hhead
    simpa using hhead
  · intro l hl
    obtain ⟨hne, rfl⟩ := List.mem_getLast?_eq_getLast hl
    exact Bool.eq_false_iff.mpr (hlast hne)

/-- The lexemes of a text among which the tokens of a block stand, without trivia at the ends. -/
structure AtBlock (ls : List Lexeme) (block : Block) (front inside back : List Lexeme) : Prop where
  split : ls = front ++ inside ++ back
  first : (solid front).length = block.first
  count : (solid inside).length = block.stop - block.first
  trimmed : Trimmed inside

/-- The tokens of a block stand among some of the lexemes. -/
theorem exists_atBlock {block : Block} (hfirst : block.first ≤ block.stop)
    (hstop : block.stop ≤ (solid ls).length) :
    ∃ front inside back, AtBlock ls block front inside back := by
  have hsolid : solid ls = (solid ls).take block.first ++
      (((solid ls).drop block.first).take (block.stop - block.first) ++
        ((solid ls).drop block.first).drop (block.stop - block.first)) := by
    rw [List.take_append_drop, List.take_append_drop]
  obtain ⟨front, rest, rfl, hfront, hrest⟩ := List.filter_eq_append_iff.mp hsolid
  obtain ⟨within, back, rfl, hwithin, -⟩ := List.filter_eq_append_iff.mp hrest
  obtain ⟨left, inside, right, rfl, hleft, hright, htrimmed⟩ := exists_trimmed within
  have hinside : solid inside = solid (left ++ inside ++ right) := by
    rw [solid_append, solid_append, hleft, hright, List.append_nil, List.nil_append]
  refine ⟨front ++ left, inside, right ++ back, ?_, ?_, ?_, htrimmed⟩
  · simp only [List.append_assoc]
  · rw [solid_append, hleft, List.append_nil]
    exact (congrArg List.length hfront).trans (List.length_take_of_le (by omega))
  · rw [hinside]
    refine (congrArg List.length hwithin).trans ?_
    rw [List.length_take, List.length_drop]
    omega

namespace AtBlock

variable {block : Block} {front inside back : List Lexeme}

/-- The tokens of the block are those of the lexemes. -/
theorem tokens_eq (h : AtBlock ls block front inside back) :
    ((tokens text ls).drop block.first).take (block.stop - block.first) = tokens text inside := by
  have hfront : (tokens text front).length = block.first := by
    rw [tokens, List.length_map, h.first]
  have hinside : (tokens text inside).length = block.stop - block.first := by
    rw [tokens, List.length_map, h.count]
  rw [h.split, List.append_assoc, tokens_append, tokens_append, ← hfront, List.drop_left, hfront,
    ← hinside, List.take_left]

/-- They are joined as the lexemes are. -/
theorem joinText_eq (h : AtBlock ls block front inside back) (hls : Adjoining ls) :
    Extent.joinText (tokens text inside) = joined false inside := by
  cases inside with
  | nil => rfl
  | cons l inside =>
    have hl : l.isTrivia = false := h.trimmed.1 l rfl
    have hadjoining : Adjoining (l :: inside ++ back) := by
      rw [h.split, List.append_assoc] at hls
      exact hls.right
    obtain ⟨start, stop, hadjoin⟩ := hadjoining.adjoin
    obtain ⟨place, ⟨-, hinside⟩, -⟩ := adjoin_append_iff.mp hadjoin
    have hfilled : ∀ m ∈ inside, m.start < m.stop := by
      intro m hm
      exact hadjoining.filled m (List.mem_append_left _ (List.mem_cons_of_mem l hm))
    have hjoin : Extent.joinText (token text l :: tokens text inside) =
        l.text ++ joined false inside :=
      joinText_tokens hinside hfilled (Nat.le_refl _)
        (iff_of_false Bool.false_ne_true (Nat.lt_irrefl _))
    rw [tokens_cons hl, hjoin, joined, hl, if_neg Bool.false_ne_true, if_neg Bool.false_ne_true,
      String.empty_append]

end AtBlock

end Lexeme

open Lexeme

/-! ## The bindings of a match -/

/-- A binding is that of a block of the tokens of a text: it starts where the first of them does and
stops where the last one does, and its text is that of the lexemes from the first to the last, with
one space for each stretch of trivia between them. -/
structure Binding.Covers (text : String) (b : Binding) (block : Block) : Prop where
  filled : block.first < block.stop
  start : ((tokenize text).tokens[block.first]?).map (·.start) = some b.span.start
  stop : ((tokenize text).tokens[block.stop - 1]?).map (·.stop) = some b.span.stop
  text : ∃ front inside back, AtBlock (lex text) block front inside back ∧
    b.text = joined false inside

/-- What is bound to a block of the tokens of a text covers the block. -/
theorem Pattern.BindsBlock.covers {text : String} {b : Binding} {block : Block}
    (h : BindsBlock (tokenize text).tokens b block) : b.Covers text block := by
  obtain ⟨hfilled, hlength, hb⟩ := h
  have hsolid : block.stop ≤ (solid (lex text)).length := by
    rwa [tokens_tokenize, tokens, List.length_map] at hlength
  obtain ⟨front, inside, back, hblock⟩ := exists_atBlock (Nat.le_of_lt hfilled) hsolid
  have hfirst : block.first < (tokenize text).tokens.length := by omega
  have hlast : block.stop - 1 < (tokenize text).tokens.length := by omega
  have hhead : (((tokenize text).tokens.drop block.first).take
      (block.stop - block.first)).head? = some ((tokenize text).tokens[block.first]) := by
    rw [List.head?_take, if_neg (by omega), List.head?_drop, List.getElem?_eq_getElem hfirst]
  have hend : (((tokenize text).tokens.drop block.first).take
      (block.stop - block.first)).getLast? = some ((tokenize text).tokens[block.stop - 1]) := by
    rw [List.getLast?_eq_getElem?, List.length_take, List.length_drop, List.getElem?_take,
      if_pos (by omega), List.getElem?_drop, ← List.getElem?_eq_getElem hlast]
    congr 1
    omega
  have hspan : b.span = ⟨((tokenize text).tokens[block.first]).start,
      ((tokenize text).tokens[block.stop - 1]).stop⟩ := by
    rw [hb, bind]
    simp only [hhead, hend, Option.elim_some]
  refine ⟨hfilled, ?_, ?_, front, inside, back, hblock, ?_⟩
  · rw [hspan, List.getElem?_eq_getElem hfirst, Option.map_some]
  · rw [hspan, List.getElem?_eq_getElem hlast, Option.map_some]
  · have htokens : ((tokens text.toList (lex text)).drop block.first).take
        (block.stop - block.first) = tokens text.toList inside := hblock.tokens_eq
    rw [← tokens_tokenize] at htokens
    rw [hb, bind]
    simp only [htokens]
    exact hblock.joinText_eq (adjoining_lex text)

/-- **The bindings of a match cover blocks of tokens, one after another.** Whether the match is
complete or not, each of its bindings is that of a block of the tokens that were consumed, of one
token at least, and of two bindings that follow one another the second begins behind the first. -/
theorem Pattern.interpret_binds (pattern : Pattern) (text : String) :
    (pattern.interpret (tokenize text).tokens).consumed ≤ (tokenize text).tokens.length ∧
    ∃ blocks : List Block,
      List.Forall₂ (Binding.Covers text) (pattern.interpret (tokenize text).tokens).bindings
        blocks ∧
      blocks.Pairwise (fun a b => a.stop ≤ b.first) ∧
      ∀ block ∈ blocks,
        block.stop ≤ (pattern.interpret (tokenize text).tokens).consumed := by
  obtain ⟨hconsumed, blocks, hbinds, hapart, hpassed⟩ :=
    laid_interpret pattern (tokenize text).tokens
  refine ⟨hconsumed, blocks, ?_, hapart, hpassed⟩
  exact hbinds.imp fun _ _ h => h.covers

end SplQuery

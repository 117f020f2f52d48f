import Mathlib.Data.Nat.Find
import SplQuery.Proofs.Pattern.Language

/-!
# What the matcher finds

A repetition goes on from each place once only, after the fewest rounds that lead there. So what it
finds depends on the fewest rounds, and where more are asked for, a place may be missing to which
more rounds lead as well. `Finds` says of every pattern what the matcher finds; it differs from the
language of the pattern at such repetitions alone. `Refuses` says which tokens it refuses.

* `Pattern.Rounds`, `Pattern.FewestRounds` — rounds of any kind of step, and the fewest of them.
* `Pattern.FewestRounds.succ_iff` — the fewest rounds one at a time, the last one first.
* `Pattern.Finds`, `Pattern.Refuses` — what the matcher finds and what it refuses.
* `Pattern.Finds.takes`, `Pattern.Takes.finds` — what is found is in the language, and all of it is
  found where no repetition asks for more than one round.
-/

namespace SplQuery.Pattern

variable {tokens : List Token}

/-! ## Rounds -/

/-- A round at a place begins there or, if it is not the first one, behind a separator. -/
def Begins (tokens : List Token) (separator : Option String) (first : Bool) (i s : Nat) : Prop :=
  s = i ∨ first = false ∧ separator.any (hasText tokens i) = true ∧ s = i + 1

/-- `n` rounds lead from the place `i` to a place: each makes a step from where it begins, and takes
a token at least. -/
inductive Rounds (tokens : List Token) (step : Nat → Nat → Prop) (separator : Option String)
    (i : Nat) : Nat → Nat → Prop where
  | none : Rounds tokens step separator i 0 i
  | next {n j s k : Nat} (h : Rounds tokens step separator i n j)
      (hbegins : Begins tokens separator (n == 0) j s) (hstep : step s k) (hforward : j < k) :
      Rounds tokens step separator i (n + 1) k

/-- The fewest rounds that lead from the place `i` to the place `j` are `n`. -/
def FewestRounds (tokens : List Token) (step : Nat → Nat → Prop) (separator : Option String)
    (i n j : Nat) : Prop :=
  Rounds tokens step separator i n j ∧ ∀ m < n, ¬Rounds tokens step separator i m j

section Rounds

variable {step step' : Nat → Nat → Prop} {separator : Option String} {i j k m n : Nat}

namespace Rounds

theorem zero_iff : Rounds tokens step separator i 0 j ↔ j = i := by
  refine ⟨fun h => ?_, fun h => h ▸ .none⟩
  cases h
  rfl

theorem succ_iff : Rounds tokens step separator i (n + 1) k ↔
    ∃ j, Rounds tokens step separator i n j ∧
      j < k ∧ ∃ s, Begins tokens separator (n == 0) j s ∧ step s k := by
  refine ⟨fun h => ?_, fun ⟨j, h, hforward, s, hbegins, hstep⟩ => .next h hbegins hstep hforward⟩
  cases h with
  | next h hbegins hstep hforward => exact ⟨_, h, hforward, _, hbegins, hstep⟩

/-- Every round goes forward by a token at least. -/
theorem add_le (h : Rounds tokens step separator i n j) : i + n ≤ j := by
  induction h with
  | none => exact Nat.le_refl i
  | next _ _ _ hforward ih => exact Nat.lt_of_le_of_lt ih hforward

/-- No round is the only way to stay. -/
theorem eq_zero_iff (h : Rounds tokens step separator i n j) : n = 0 ↔ j = i := by
  constructor
  · rintro rfl
    exact zero_iff.mp h
  · rintro rfl
    exact Nat.le_zero.mp (Nat.le_of_add_le_add_left h.add_le)

theorem mono (hstep : ∀ s k, step s k → step' s k) (h : Rounds tokens step separator i n j) :
    Rounds tokens step' separator i n j := by
  induction h with
  | none => exact .none
  | next _ hbegins hstep' hforward ih => exact .next ih hbegins (hstep _ _ hstep') hforward

/-- Rounds to the same place are all the first round, or none of them is. -/
theorem first_eq (h : Rounds tokens step separator i n j)
    (h' : Rounds tokens step separator i m j) : (n == 0) = (m == 0) := by
  rw [Bool.eq_iff_iff, beq_iff_eq, beq_iff_eq, h.eq_zero_iff, h'.eq_zero_iff]

/-- Where rounds lead, some number of them is the fewest. -/
theorem exists_fewest (h : Rounds tokens step separator i n j) :
    ∃ m ≤ n, FewestRounds tokens step separator i m j := by
  classical
  have hexists : ∃ m, Rounds tokens step separator i m j := ⟨n, h⟩
  exact ⟨Nat.find hexists, Nat.find_min' hexists h, Nat.find_spec hexists,
    fun m hm => Nat.find_min hexists hm⟩

/-- Rounds of an item's language are those of a repetition. -/
theorem takes_iff {item : Pattern} : Rounds tokens (Takes tokens item) separator i n j ↔
    TakesRounds tokens item separator i n j := by
  induction n generalizing j with
  | zero => rw [zero_iff, TakesRounds.zero_iff, eq_comm]
  | succ n ih =>
    rw [succ_iff, TakesRounds.succ_iff]
    refine exists_congr fun l => and_congr ih (and_congr_right fun _ => ?_)
    simp [Begins, or_and_right, exists_or, and_assoc]

end Rounds

namespace FewestRounds

theorem zero_iff : FewestRounds tokens step separator i 0 j ↔ j = i := by
  refine ⟨fun h => Rounds.zero_iff.mp h.1, fun h => ⟨Rounds.zero_iff.mpr h, fun m hm => ?_⟩⟩
  exact absurd hm (Nat.not_lt_zero m)

/-- One more round is the fewest to a place exactly if no fewer lead there. -/
theorem succ_iff : FewestRounds tokens step separator i (n + 1) k ↔
    (∃ j, FewestRounds tokens step separator i n j ∧
      j < k ∧ ∃ s, Begins tokens separator (n == 0) j s ∧ step s k) ∧
    ∀ m ≤ n, ¬Rounds tokens step separator i m k := by
  constructor
  · rintro ⟨h, hfewest⟩
    obtain ⟨j, hj, hforward, s, hbegins, hstep⟩ := Rounds.succ_iff.mp h
    refine ⟨⟨j, ⟨hj, fun m hm hjm => ?_⟩, hforward, s, hbegins, hstep⟩,
      fun m hm => hfewest m (Nat.lt_succ_of_le hm)⟩
    -- with fewer rounds to the place before there would be fewer to this one
    rw [hj.first_eq hjm] at hbegins
    exact hfewest (m + 1) (Nat.succ_lt_succ hm) (.next hjm hbegins hstep hforward)
  · rintro ⟨⟨j, hj, hforward, s, hbegins, hstep⟩, hnew⟩
    exact ⟨.next hj.1 hbegins hstep hforward, fun m hm => hnew m (Nat.le_of_lt_succ hm)⟩

/-- Before the last of the fewest rounds there were as many as are the fewest there. -/
theorem exists_of_le (h : FewestRounds tokens step separator i n j) (hm : m ≤ n) :
    ∃ l, FewestRounds tokens step separator i m l := by
  induction n generalizing j with
  | zero => exact ⟨j, Nat.le_zero.mp hm ▸ h⟩
  | succ n ih =>
    rcases Nat.eq_or_lt_of_le hm with rfl | hlt
    · exact ⟨j, h⟩
    · obtain ⟨⟨l, hl, -⟩, -⟩ := succ_iff.mp h
      exact ih hl (Nat.le_of_lt_succ hlt)

end FewestRounds

end Rounds

/-! ## What is found and what is refused -/

mutual

/-- The matcher, following the pattern from a place, finds another place. A repetition finds the
places to which `min` rounds lead and no fewer. -/
def Finds (tokens : List Token) : Pattern → Nat → Nat → Prop
  | .keyword text => Takes tokens (.keyword text)
  | .param q => Takes tokens (.param q)
  | .seq items => FindsAll tokens items
  | .optional item => fun i j => Finds tokens item i j ∨ i = j
  | .repeated item separator min => fun i j =>
    ∃ n, min ≤ n ∧ FewestRounds tokens (Finds tokens item) separator i n j
  | .choice alternatives => FindsAny tokens alternatives
  | .options offered => Takes tokens (.options offered)

/-- The same for patterns one after another. -/
def FindsAll (tokens : List Token) : List Pattern → Nat → Nat → Prop
  | [] => fun i j => i = j
  | item :: items => fun i j => ∃ k, Finds tokens item i k ∧ FindsAll tokens items k j

/-- The same for each of several patterns. -/
def FindsAny (tokens : List Token) : List Pattern → Nat → Nat → Prop
  | [] => fun _ _ => False
  | item :: items => fun i j => Finds tokens item i j ∨ FindsAny tokens items i j

end

/-- Where no option starts, those offered are missed, and behind an equals sign a value. -/
def RefusesOption (tokens : List Token) (offered : List OptionSpec) (j k : Nat) : Prop :=
  Extent.atOption (tokens.drop j) = false ∧ offered ≠ [] ∧ k = j ∨
    Extent.atOption (tokens.drop j) = true ∧ Extent.value? (tokens.drop (j + 2)) = none ∧ k = j + 2

mutual

/-- The matcher, following the pattern from a place, refuses the token at another. -/
def Refuses (tokens : List Token) : Pattern → Nat → Nat → Prop
  | .keyword text => fun i k => hasText tokens i text = false ∧ k = i
  | .param q => fun i k => Extent.ofType q.type (tokens.drop i) = [] ∧ k = i
  | .seq items => RefusesAll tokens items
  | .optional item => Refuses tokens item
  | .repeated item separator _ => fun i k =>
    ∃ n j, Rounds tokens (Finds tokens item) separator i n j ∧
      ∃ s, Begins tokens separator (n == 0) j s ∧ Refuses tokens item s k
  | .choice alternatives => RefusesAny tokens alternatives
  | .options offered => fun i k =>
    ∃ j, Takes tokens (.options offered) i j ∧ RefusesOption tokens offered j k

/-- The same for patterns one after another: each is followed from what the one before it finds. -/
def RefusesAll (tokens : List Token) : List Pattern → Nat → Nat → Prop
  | [] => fun _ _ => False
  | item :: items => fun i k =>
    Refuses tokens item i k ∨ ∃ j, Finds tokens item i j ∧ RefusesAll tokens items j k

/-- The same for each of several patterns. -/
def RefusesAny (tokens : List Token) : List Pattern → Nat → Nat → Prop
  | [] => fun _ _ => False
  | item :: items => fun i k => Refuses tokens item i k ∨ RefusesAny tokens items i k

end

/-! ## What is found is in the language -/

variable {pattern : Pattern} {i j k n : Nat}

theorem Finds.takes (h : Finds tokens pattern i j) : Takes tokens pattern i j := by
  induction pattern using Pattern.rec (motive_2 := fun items =>
      (∀ i j, FindsAll tokens items i j → Takes tokens (.seq items) i j) ∧
      ∀ i j, FindsAny tokens items i j → ∃ item ∈ items, Takes tokens item i j)
      generalizing i j with
  | keyword => exact h
  | param => exact h
  | options => exact h
  | seq items ih => exact ih.1 i j h
  | optional item ih => exact Takes.optional_iff.mpr (h.imp_left ih)
  | repeated item separator min ih =>
    obtain ⟨n, hmin, hrounds, -⟩ := h
    exact .repeated (Rounds.takes_iff.mp (hrounds.mono fun _ _ => ih)) hmin
  | choice alternatives ih => exact Takes.choice_iff.mpr (ih.2 i j h)
  | nil => exact ⟨fun i j h => Takes.seq_nil_iff.mpr h, fun i j h => h.elim⟩
  | cons item items ih ihitems =>
    refine ⟨fun i j ⟨k, hk, hj⟩ => .seqCons (ih hk) (ihitems.1 k j hj), fun i j h => ?_⟩
    rcases h with h | h
    · exact ⟨item, List.mem_cons_self, ih h⟩
    · obtain ⟨other, hmem, h⟩ := ihitems.2 i j h
      exact ⟨other, List.mem_cons_of_mem item hmem, h⟩

/-- What is in the language is found, where the fewest rounds are enough. -/
theorem Takes.finds (hmodest : pattern.isModest = true) (h : Takes tokens pattern i j) :
    Finds tokens pattern i j := by
  induction pattern using Pattern.rec (motive_2 := fun items => areModest items = true →
      (∀ i j, Takes tokens (.seq items) i j → FindsAll tokens items i j) ∧
      ∀ i j, (∃ item ∈ items, Takes tokens item i j) → FindsAny tokens items i j)
      generalizing i j with
  | keyword => exact h
  | param => exact h
  | options => exact h
  | seq items ih => exact (ih hmodest).1 i j h
  | optional item ih => exact (Takes.optional_iff.mp h).imp_left (ih hmodest)
  | repeated item separator min ih =>
    obtain ⟨hle, hmodest⟩ : min ≤ 1 ∧ item.isModest = true := by
      rwa [isModest, Bool.and_eq_true, decide_eq_true_iff] at hmodest
    obtain ⟨n, hmin, hrounds⟩ := Takes.repeated_iff.mp h
    have hrounds : Rounds tokens (Finds tokens item) separator i n j :=
      (Rounds.takes_iff.mpr hrounds).mono fun _ _ => ih hmodest
    obtain ⟨m, hmn, hfewest⟩ := hrounds.exists_fewest
    -- no round at all is the fewest only where there is nowhere to go
    have hzero : m = 0 ↔ n = 0 := hfewest.1.eq_zero_iff.trans hrounds.eq_zero_iff.symm
    exact ⟨m, by omega, hfewest⟩
  | choice alternatives ih => exact (ih hmodest).2 i j (Takes.choice_iff.mp h)
  | nil =>
    refine ⟨fun i j h => Takes.seq_nil_iff.mp h, fun i j ⟨item, hmem, _⟩ => ?_⟩
    cases hmem
  | cons item items ih ihitems hmodest =>
    rw [areModest, Bool.and_eq_true] at hmodest
    obtain ⟨hall, hany⟩ := ihitems hmodest.2
    refine ⟨fun i j h => ?_, fun i j ⟨other, hmem, h⟩ => ?_⟩
    · obtain ⟨k, hk, hj⟩ := Takes.seq_cons_iff.mp h
      exact ⟨k, ih hmodest.1 hk, hall k j hj⟩
    · rcases List.mem_cons.mp hmem with rfl | hmem
      · exact .inl (ih hmodest.1 h)
      · exact .inr (hany i j ⟨other, hmem, h⟩)

/-- Rounds that take a token at least end within the tokens. -/
theorem Rounds.le_length {item : Pattern} {separator : Option String}
    (h : Rounds tokens (Finds tokens item) separator i n j) (hn : 0 < n) : j ≤ tokens.length :=
  (Rounds.takes_iff.mp (h.mono fun _ _ => Finds.takes)).le_length hn

/-! ## What is refused is ahead -/

theorem Finds.le_length (h : Finds tokens pattern i j) (hi : i ≤ tokens.length) :
    j ≤ tokens.length := by
  rcases Nat.eq_or_lt_of_le h.takes.stretch.le with rfl | hlt
  · exact hi
  · exact h.takes.stretch.le_length hlt

theorem Rounds.begins_le_length {item : Pattern} {separator : Option String} {s : Nat}
    (h : Rounds tokens (Finds tokens item) separator i n j) (hi : i ≤ tokens.length)
    (hbegins : Begins tokens separator (n == 0) j s) : s ≤ tokens.length := by
  rcases hbegins with rfl | ⟨-, hseparator, rfl⟩
  · rcases Nat.eq_zero_or_pos n with hn | hn
    · exact h.eq_zero_iff.mp hn ▸ hi
    · exact h.le_length hn
  · obtain ⟨text, -, htext⟩ := Option.any_eq_true _ _ |>.mp hseparator
    exact hasText_lt htext

/-- A token is refused, or the end of the tokens. -/
theorem Refuses.le_length (h : Refuses tokens pattern i k) (hi : i ≤ tokens.length) :
    k ≤ tokens.length := by
  induction pattern using Pattern.rec (motive_2 := fun items =>
      (∀ i k, RefusesAll tokens items i k → i ≤ tokens.length → k ≤ tokens.length) ∧
      ∀ i k, RefusesAny tokens items i k → i ≤ tokens.length → k ≤ tokens.length)
      generalizing i k with
  | keyword => exact h.2 ▸ hi
  | param => exact h.2 ▸ hi
  | seq items ih => exact ih.1 i k h hi
  | optional item ih => exact ih h hi
  | repeated item separator min ih =>
    obtain ⟨n, j, hrounds, s, hbegins, h⟩ := h
    exact ih h (hrounds.begins_le_length hi hbegins)
  | choice alternatives ih => exact ih.2 i k h hi
  | options offered =>
    obtain ⟨j, hj, ⟨-, -, rfl⟩ | ⟨hat, -, rfl⟩⟩ := h
    · have hfinds : Finds tokens (.options offered) i k := hj
      exact hfinds.le_length hi
    · exact atOption_lt hat
  | nil => exact ⟨fun i k h => h.elim, fun i k h => h.elim⟩
  | cons item items ih ihitems =>
    refine ⟨fun i k h hi => ?_, fun i k h hi => ?_⟩
    · rcases h with h | ⟨j, hj, h⟩
      · exact ih h hi
      · exact ihitems.1 j k h (hj.le_length hi)
    · exact h.elim (fun h => ih h hi) fun h => ihitems.2 i k h hi

end SplQuery.Pattern

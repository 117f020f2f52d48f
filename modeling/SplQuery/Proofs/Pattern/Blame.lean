import SplQuery.Proofs.Pattern.Trailing

/-!
# What a failure blames

The error of a match that fails names the furthest token refused, and the match is as long as what
the pattern found. These are two things: a token is refused only where the pattern could go on, so
behind a pattern that has come to its end nothing is refused, and the error names a token before,
which the pattern took. That cannot happen to a pattern that tries to go on wherever it may end.

* `Pattern.stride` — how many tokens the matcher goes forward, unless it refuses one.
* `Pattern.isWary` — the pattern tries to go on wherever it may end.
* `Pattern.Finds.exists_refused` — a wary pattern has a token refused where it ends, or behind.
* `Pattern.interpret_blames` — which token the error names, and how long the match is.
* `Pattern.interpret_blames_taken` — it may be a token that was taken.
-/

namespace SplQuery.Pattern

/-! ## Patterns that try to go on -/

mutual

/-- From any place the matcher finds another, so many tokens on, or refuses one; `none` if it may
do neither. -/
def stride : Pattern → Option Nat
  | .keyword _ => some 1
  | .param _ => some 1
  | .seq items => strideAll items
  | .optional item => some (item.stride.getD 0)
  | .repeated item _ min =>
    if item.stride.any (0 < ·) then some 1 else if min = 0 then some 0 else none
  | .choice alternatives => strideAny alternatives
  | .options offered => some (if offered.isEmpty then 0 else 1)

/-- The same for patterns one after another. -/
def strideAll : List Pattern → Option Nat
  | [] => some 0
  | item :: items => do
    let n ← item.stride
    let m ← strideAll items
    return n + m

/-- The same for each of several patterns: the longest stride of them. -/
def strideAny : List Pattern → Option Nat
  | [] => none
  | item :: items => item.stride.merge max (strideAny items)

end

mutual

/-- Wherever the pattern may end, the matcher has tried to go on. -/
def isWary : Pattern → Bool
  | .keyword _ => false
  | .param _ => false
  | .seq items => endWary items
  | .optional item => item.isWary && item.stride.isSome
  | .repeated item _ _ => item.stride.any (0 < ·)
  | .choice alternatives => areWary alternatives
  | .options offered => !offered.isEmpty

/-- The last of the patterns tries to go on. -/
def endWary : List Pattern → Bool
  | [] => false
  | item :: items => if items.isEmpty then item.isWary else endWary items

/-- Each of the patterns tries to go on. -/
def areWary : List Pattern → Bool
  | [] => true
  | item :: items => item.isWary && areWary items

end

variable {tokens : List Token} {pattern : Pattern} {i j n : Nat}

/-- The matcher, following something from the place `i`, finds a place so many tokens on, or refuses
one. -/
def GoesOn (finds refuses : Nat → Nat → Prop) (n i : Nat) : Prop :=
  (∃ j, i + n ≤ j ∧ finds i j) ∨ ∃ k, i ≤ k ∧ refuses i k

theorem GoesOn.anti {finds refuses : Nat → Nat → Prop} {m n i : Nat}
    (h : GoesOn finds refuses n i) (hle : m ≤ n) : GoesOn finds refuses m i :=
  h.imp_left fun ⟨j, hj, hfinds⟩ => ⟨j, Nat.le_trans (Nat.add_le_add_left hle i) hj, hfinds⟩

/-- A repetition whose item goes forward goes on until a token is refused. -/
theorem Rounds.exists_refused {item : Pattern} {separator : Option String}
    (hitem : ∀ i, GoesOn (Finds tokens item) (Refuses tokens item) 1 i)
    (h : Rounds tokens (Finds tokens item) separator i n j) (min : Nat) :
    ∃ k, j ≤ k ∧ Refuses tokens (.repeated item separator min) i k := by
  induction hleft : tokens.length + 1 - j using Nat.strongRecOn generalizing n j with
  | ind left ih =>
    have hbegins : Begins tokens separator (n == 0) j j := .inl rfl
    rcases hitem j with ⟨l, hl, hfinds⟩ | ⟨k, hk, hrefuses⟩
    · have hnext : Rounds tokens (Finds tokens item) separator i (n + 1) l :=
        .next h hbegins hfinds hl
      have hlength := hnext.le_length (Nat.succ_pos n)
      obtain ⟨k, hk, hrefuses⟩ := ih _ (by omega) hnext rfl
      exact ⟨k, by omega, hrefuses⟩
    · exact ⟨k, hk, n, j, h, j, hbegins, hrefuses⟩

/-- Options are passed until none follows, and those offered are missed there, or a value is. -/
theorem Takes.exists_refused {offered : List OptionSpec} (hoffered : offered ≠ [])
    (h : Takes tokens (.options offered) i j) :
    ∃ k, j ≤ k ∧ Refuses tokens (.options offered) i k := by
  induction hleft : tokens.length - i using Nat.strongRecOn generalizing i j with
  | ind left ih =>
    -- what is refused behind an option is refused from before it
    have hrest {n j : Nat} (hat : Extent.atOption (tokens.drop i) = true)
        (hvalue : Extent.value? (tokens.drop (i + 2)) = some n)
        (hj : Takes tokens (.options offered) (i + 2 + n) j) :
        ∃ k, j ≤ k ∧ Refuses tokens (.options offered) i k := by
      have hlt := atOption_lt hat
      obtain ⟨k, hk, l, hl, hrefuses⟩ := ih _ (by omega) hj rfl
      exact ⟨k, hk, l, .option hat hvalue hl, hrefuses⟩
    rcases Takes.options_iff.mp h with rfl | ⟨hat, n, hvalue, hj⟩
    · cases hat : Extent.atOption (tokens.drop i) with
      | false => exact ⟨i, Nat.le_refl i, i, .noOption, .inl ⟨hat, hoffered, rfl⟩⟩
      | true =>
        cases hvalue : Extent.value? (tokens.drop (i + 2)) with
        | none => exact ⟨i + 2, Nat.le_add_right i 2, i, .noOption, .inr ⟨hat, hvalue, rfl⟩⟩
        | some n =>
          obtain ⟨k, hk, hrefuses⟩ := hrest hat hvalue .noOption
          exact ⟨k, by omega, hrefuses⟩
    · exact hrest hat hvalue hj

theorem goesOn_strideAll_cons {item : Pattern} {items : List Pattern} {n m : Nat}
    (hitem : GoesOn (Finds tokens item) (Refuses tokens item) n i)
    (hitems : ∀ i, GoesOn (FindsAll tokens items) (RefusesAll tokens items) m i) :
    GoesOn (FindsAll tokens (item :: items)) (RefusesAll tokens (item :: items)) (n + m) i := by
  rcases hitem with ⟨j, hj, hfinds⟩ | ⟨k, hk, hrefuses⟩
  · rcases hitems j with ⟨l, hl, hfindsAll⟩ | ⟨k, hk, hrefuses⟩
    · exact .inl ⟨l, by omega, j, hfinds, hfindsAll⟩
    · exact .inr ⟨k, by omega, .inr ⟨j, hfinds, hrefuses⟩⟩
  · exact .inr ⟨k, hk, .inl hrefuses⟩

theorem stride_or_of_strideAny_cons {item : Pattern} {items : List Pattern} {n : Nat}
    (h : strideAny (item :: items) = some n) : item.stride = some n ∨ strideAny items = some n := by
  rw [strideAny] at h
  cases hitem : item.stride <;> cases hitems : strideAny items <;> rw [hitem, hitems] at h
  case none.none => cases h
  case none.some => exact .inr h
  case some.none => exact .inl h
  case some.some m l =>
    obtain rfl := Option.some.inj h
    rcases Nat.le_total m l with hle | hle
    · exact .inr (congrArg some (Nat.max_eq_right hle).symm)
    · exact .inl (congrArg some (Nat.max_eq_left hle).symm)

/-- The matcher goes forward by the stride of the pattern, or refuses a token. -/
theorem goesOn_of_stride (h : pattern.stride = some n) (i : Nat) :
    GoesOn (Finds tokens pattern) (Refuses tokens pattern) n i := by
  induction pattern using Pattern.rec (motive_2 := fun items =>
      (∀ n i, strideAll items = some n →
        GoesOn (FindsAll tokens items) (RefusesAll tokens items) n i) ∧
      ∀ n i, strideAny items = some n →
        GoesOn (FindsAny tokens items) (RefusesAny tokens items) n i)
      generalizing i n with
  | keyword text =>
    obtain rfl := Option.some.inj h
    cases htext : hasText tokens i text with
    | true => exact .inl ⟨i + 1, Nat.le_refl _, .keyword htext⟩
    | false => exact .inr ⟨i, Nat.le_refl i, htext, rfl⟩
  | param q =>
    obtain rfl := Option.some.inj h
    cases hlengths : Extent.ofType q.type (tokens.drop i) with
    | nil => exact .inr ⟨i, Nat.le_refl i, hlengths, rfl⟩
    | cons m lengths =>
      have hm : m ∈ Extent.ofType q.type (tokens.drop i) := hlengths ▸ List.mem_cons_self
      exact .inl ⟨i + m, Nat.add_le_add_left (Extent.pos_of_mem hm) i, .param hm⟩
  | seq items ih => exact ih.1 n i h
  | optional item ih =>
    obtain rfl := Option.some.inj h
    cases hstride : item.stride with
    | none => exact .inl ⟨i, Nat.le_refl i, .inr rfl⟩
    | some n => exact (ih hstride i).imp_left fun ⟨j, hj, hfinds⟩ => ⟨j, hj, .inl hfinds⟩
  | repeated item separator min ih =>
    rw [stride] at h
    split at h
    case isTrue hforward =>
      obtain ⟨m, hm, hpos⟩ := Option.any_eq_true _ _ |>.mp hforward
      have hitem (i : Nat) : GoesOn (Finds tokens item) (Refuses tokens item) 1 i :=
        (ih hm i).anti (of_decide_eq_true hpos)
      exact .inr (Rounds.exists_refused hitem .none min)
    case isFalse =>
      split at h
      case isTrue hmin =>
        obtain rfl := Option.some.inj h
        exact .inl ⟨i, Nat.le_refl i, 0, Nat.le_of_eq hmin, FewestRounds.zero_iff.mpr rfl⟩
      case isFalse => cases h
  | choice alternatives ih => exact ih.2 n i h
  | options offered =>
    obtain rfl := Option.some.inj h
    split
    case isTrue => exact .inl ⟨i, Nat.le_refl i, .noOption⟩
    case isFalse hoffered =>
      exact .inr (Takes.exists_refused (mt List.isEmpty_iff.mpr hoffered) .noOption)
  | nil =>
    refine ⟨fun n i h => ?_, fun n i h => ?_⟩
    · obtain rfl := Option.some.inj h
      exact .inl ⟨i, Nat.le_refl i, rfl⟩
    · cases h
  | cons item items ih ihitems =>
    refine ⟨fun n i h => ?_, fun n i h => ?_⟩
    · simp only [strideAll, Option.bind_eq_bind, Option.bind_eq_some_iff] at h
      obtain ⟨n, hn, m, hm, h⟩ := h
      obtain rfl := Option.some.inj h
      exact goesOn_strideAll_cons (ih hn i) fun i => ihitems.1 m i hm
    · rcases stride_or_of_strideAny_cons h with h | h
      · exact (ih h i).imp (fun ⟨j, hj, hfinds⟩ => ⟨j, hj, .inl hfinds⟩)
          fun ⟨k, hk, hrefuses⟩ => ⟨k, hk, .inl hrefuses⟩
      · exact (ihitems.2 n i h).imp (fun ⟨j, hj, hfinds⟩ => ⟨j, hj, .inr hfinds⟩)
          fun ⟨k, hk, hrefuses⟩ => ⟨k, hk, .inr hrefuses⟩

theorem goesOn_one_of_stride (h : pattern.stride.any (0 < ·) = true) (i : Nat) :
    GoesOn (Finds tokens pattern) (Refuses tokens pattern) 1 i := by
  obtain ⟨n, hn, hpos⟩ := Option.any_eq_true _ _ |>.mp h
  exact (goesOn_of_stride hn i).anti (of_decide_eq_true hpos)

/-- A wary pattern has refused a token at the end of whatever it finds, or further on. -/
theorem Finds.exists_refused (hwary : pattern.isWary = true) (h : Finds tokens pattern i j) :
    ∃ k, j ≤ k ∧ Refuses tokens pattern i k := by
  induction pattern using Pattern.rec (motive_2 := fun items =>
      (∀ i j, endWary items = true → FindsAll tokens items i j →
        ∃ k, j ≤ k ∧ RefusesAll tokens items i k) ∧
      ∀ i j, areWary items = true → FindsAny tokens items i j →
        ∃ k, j ≤ k ∧ RefusesAny tokens items i k)
      generalizing i j with
  | keyword => cases hwary
  | param => cases hwary
  | seq items ih => exact ih.1 i j hwary h
  | optional item ih =>
    rw [isWary, Bool.and_eq_true, Option.isSome_iff_exists] at hwary
    obtain ⟨hwary, n, hstride⟩ := hwary
    rcases h with h | rfl
    · exact ih hwary h
    · have hgoes : GoesOn (Finds tokens item) (Refuses tokens item) n i :=
        goesOn_of_stride hstride i
      rcases hgoes with ⟨j, hj, hfinds⟩ | hrefuses
      · obtain ⟨k, hk, hrefuses⟩ := ih hwary hfinds
        exact ⟨k, by omega, hrefuses⟩
      · exact hrefuses
  | repeated item separator min ih =>
    obtain ⟨n, -, hrounds, -⟩ := h
    exact hrounds.exists_refused (goesOn_one_of_stride hwary) min
  | choice alternatives ih => exact ih.2 i j hwary h
  | options offered =>
    exact Takes.exists_refused (fun hnil => by simp [isWary, hnil] at hwary) h
  | nil =>
    refine ⟨fun i j hwary => ?_, fun i j _ h => h.elim⟩
    cases hwary
  | cons item items ih ihitems =>
    refine ⟨fun i j hwary ⟨l, hl, hj⟩ => ?_, fun i j hwary h => ?_⟩
    · rw [endWary] at hwary
      split at hwary
      case isTrue hlast =>
        obtain rfl := List.isEmpty_iff.mp hlast
        obtain rfl : l = j := hj
        obtain ⟨k, hk, hrefuses⟩ := ih hwary hl
        exact ⟨k, hk, .inl hrefuses⟩
      case isFalse =>
        obtain ⟨k, hk, hrefuses⟩ := ihitems.1 l j hwary hj
        exact ⟨k, hk, .inr ⟨l, hl, hrefuses⟩⟩
    · rw [areWary, Bool.and_eq_true] at hwary
      rcases h with h | h
      · obtain ⟨k, hk, hrefuses⟩ := ih hwary.1 h
        exact ⟨k, hk, .inl hrefuses⟩
      · obtain ⟨k, hk, hrefuses⟩ := ihitems.2 i j hwary.2 h
        exact ⟨k, hk, .inr hrefuses⟩

/-! ## The error of a failed match -/

/-- The best progress is the furthest. -/
theorem furthest_places (ps : List Progress) :
    Furthest 0 (· ∈ places ps) ((furthest? ps).elim 0 (·.pos)) := by
  suffices h : ∀ best : Option Progress, Furthest (best.elim 0 (·.pos)) (· ∈ places ps)
      ((ps.foldl (fun best p => if best.all (·.pos ≤ p.pos) then some p else best) best).elim 0
        (·.pos)) from h none
  induction ps with
  | nil => exact fun best => (Furthest.refl _).congr fun j => by simp
  | cons p ps ih =>
    intro best
    have hbest : (if best.all (·.pos ≤ p.pos) then some p else best).elim 0 (·.pos) =
        Nat.max (best.elim 0 (·.pos)) p.pos := by
      cases best with
      | none => exact (Nat.max_eq_right (Nat.zero_le p.pos)).symm
      | some q =>
        split
        case isTrue hle => exact (Nat.max_eq_right (of_decide_eq_true hle)).symm
        case isFalse hlt =>
          have hlt : ¬q.pos ≤ p.pos := fun hle => hlt (decide_eq_true hle)
          exact (Nat.max_eq_left (Nat.le_of_not_le hlt)).symm
    have hstep := Furthest.max (best.elim 0 (·.pos)) p.pos
    rw [← hbest] at hstep
    exact (hstep.trans (ih _)).congr fun j => by simp

theorem interpret_failed (h : (interpret pattern tokens).matched = false) :
    (interpret pattern tokens).consumed =
        (furthest? (follow tokens pattern ⟨0, []⟩ ⟨0, []⟩).1).elim 0 (·.pos) ∧
      (interpret pattern tokens).error = some (MatchResult.unexpected
        ((tokens[(follow tokens pattern ⟨0, []⟩ ⟨0, []⟩).2.furthest]?).map (·.text))) := by
  revert h
  rw [interpret, StateT.run]
  obtain ⟨ps, trace⟩ := follow tokens pattern ⟨0, []⟩ ⟨0, []⟩
  dsimp only
  split
  case h_1 =>
    intro h
    cases h
  case h_2 => exact fun _ => ⟨rfl, rfl⟩

/-- **What a failed match blames.** The error names the furthest token refused, or the end of the
tokens, and the match is as long as the longest stretch that the pattern finds. If the pattern tries
to go on wherever it may end, the token named is not one of those that were taken. -/
theorem interpret_blames (pattern : Pattern) (tokens : List Token)
    (h : (interpret pattern tokens).matched = false) :
    Furthest 0 (Finds tokens pattern 0) (interpret pattern tokens).consumed ∧
    ∃ k ≤ tokens.length, Furthest 0 (Refuses tokens pattern 0) k ∧
      (interpret pattern tokens).error =
        some (MatchResult.unexpected ((tokens[k]?).map (·.text))) ∧
      (pattern.isWary = true → (interpret pattern tokens).consumed ≤ k) := by
  have hfollow : Performs (follow tokens pattern ⟨0, []⟩) _ _ := performs_follow pattern ⟨0, []⟩
  obtain ⟨⟨hreaches, -⟩, hrefuses⟩ := hfollow ⟨0, []⟩
  obtain ⟨hconsumed, herror⟩ := interpret_failed h
  have hfinds := (furthest_places (follow tokens pattern ⟨0, []⟩ ⟨0, []⟩).1).congr hreaches
  rw [hconsumed]
  refine ⟨hfinds, _, ?_, hrefuses, herror, fun hwary => ?_⟩
  · rcases hrefuses.1 with heq | hrefused
    · exact Nat.le_trans (Nat.le_of_eq heq) (Nat.zero_le _)
    · exact hrefused.le_length (Nat.zero_le _)
  · rcases hfinds.1 with heq | hfound
    · exact Nat.le_trans (Nat.le_of_eq heq) (Nat.zero_le _)
    · obtain ⟨k, hle, hrefused⟩ := hfound.exists_refused hwary
      exact Nat.le_trans hle (hrefuses.2 (.inr hrefused))

/-- Behind an aggregation another could follow, so a parenthesis there is named. -/
theorem interpret_blames_sample :
    (interpret Registry.stats (tokenize "count )").tokens).matched = false ∧
      ∃ k ≤ 2, 1 ≤ k ∧ (interpret Registry.stats (tokenize "count )").tokens).error =
        some (MatchResult.unexpected (((tokenize "count )").tokens[k]?).map (·.text))) := by
  have hfailed : (interpret Registry.stats (tokenize "count )").tokens).matched = false := by
    decide +kernel
  have hconsumed : (interpret Registry.stats (tokenize "count )").tokens).consumed = 1 := by
    decide +kernel
  have hlength : (tokenize "count )").tokens.length = 2 := by decide +kernel
  obtain ⟨-, k, hk, -, herror, hwary⟩ := interpret_blames _ _ hfailed
  exact ⟨hfailed, k, hlength ▸ hk, hconsumed ▸ hwary (by decide), herror⟩

/-- So it is with all arguments of these commands. -/
example : (["eval", "stats", "rename", "lookup", "dedup", "sort", "transaction", "convert"].all
    fun name => (Registry.commands.find? (·.name == name)).any (·.pattern.isWary)) = true := by
  decide

/-- A list of fields ends where no field follows, and nothing is tried there. So the arguments of
`table a )`, of which the `a` is taken, fail with an error that names the `a`. -/
theorem interpret_blames_taken :
    ¬∀ (pattern : Pattern) (tokens : List Token), (interpret pattern tokens).matched = false →
      ∃ k ≥ (interpret pattern tokens).consumed, (interpret pattern tokens).error =
        some (MatchResult.unexpected ((tokens[k]?).map (·.text))) := by
  intro h
  have hresult : interpret (Registry.value "fields" .fieldList) (tokenize "a )").tokens =
      ⟨false, 1, [⟨"fields", .fieldList, .none, "a", ⟨0, 1⟩⟩], [],
        some "unexpected \x60a\x60"⟩ := by
    decide +kernel
  have htexts : (tokenize "a )").tokens.map (·.text) = ["a", ")"] := by decide +kernel
  obtain ⟨k, hk, herror⟩ := h (Registry.value "fields" .fieldList) (tokenize "a )").tokens
    (congrArg MatchResult.matched hresult)
  rw [hresult] at hk herror
  rw [← List.getElem?_map, htexts] at herror
  rcases Nat.eq_or_lt_of_le hk with rfl | hlt
  · revert herror
    decide
  · rw [List.getElem?_eq_none hlt] at herror
    revert herror
    decide

end SplQuery.Pattern

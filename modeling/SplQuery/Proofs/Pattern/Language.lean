import SplQuery.Pattern.Lookup
import SplQuery.Proofs.Pattern.Extent

/-!
# The language of a pattern

What a pattern describes, said without the matcher: which stretches of tokens it takes. The matcher
follows all ways of matching side by side and keeps one for each place; that it finds every stretch
of the language, and nothing else, is what makes its answer the answer to the question whether the
tokens are in the language.

* `Pattern.Takes` — a pattern takes the tokens from one place to another.
* `Pattern.isModest` — no repetition asks for more than one round.
* `Pattern.TakesRounds.succ_iff` — rounds one at a time, the last one first.
* `Pattern.Takes.stretch` — a stretch goes forward and ends within the tokens.
-/

namespace SplQuery.Pattern

/-! ## What is described -/

mutual

/-- `Takes tokens pattern i j`: the pattern describes the tokens from the place `i` up to the place
`j`. -/
inductive Takes (tokens : List Token) : Pattern → Nat → Nat → Prop where
  /-- one token with the text, in any case -/
  | keyword {text : String} {i : Nat} (h : hasText tokens i text = true) :
      Takes tokens (.keyword text) i (i + 1)
  /-- a value of the parameter's sort -/
  | param {q : Param} {i n : Nat} (h : n ∈ Extent.ofType q.type (tokens.drop i)) :
      Takes tokens (.param q) i (i + n)
  | seqNil {i : Nat} : Takes tokens (.seq []) i i
  | seqCons {item : Pattern} {items : List Pattern} {i j k : Nat} (h : Takes tokens item i j)
      (hrest : Takes tokens (.seq items) j k) : Takes tokens (.seq (item :: items)) i k
  | absent {item : Pattern} {i : Nat} : Takes tokens (.optional item) i i
  | present {item : Pattern} {i j : Nat} (h : Takes tokens item i j) :
      Takes tokens (.optional item) i j
  | choice {item : Pattern} {alternatives : List Pattern} {i j : Nat} (hmem : item ∈ alternatives)
      (h : Takes tokens item i j) : Takes tokens (.choice alternatives) i j
  /-- at least `min` rounds -/
  | repeated {item : Pattern} {separator : Option String} {min n i j : Nat}
      (h : TakesRounds tokens item separator i n j) (hmin : min ≤ n) :
      Takes tokens (.repeated item separator min) i j
  | noOption {offered : List OptionSpec} {i : Nat} : Takes tokens (.options offered) i i
  /-- a word, an equals sign and a value, and further options -/
  | option {offered : List OptionSpec} {i n j : Nat} (hat : Extent.atOption (tokens.drop i) = true)
      (hvalue : Extent.value? (tokens.drop (i + 2)) = some n)
      (hrest : Takes tokens (.options offered) (i + 2 + n) j) : Takes tokens (.options offered) i j

/-- `TakesRounds tokens item separator i n j`: `n` rounds of the item lead from the place `i` to the
place `j`. From the second one on a separator may stand before the item. Every round takes a token
at least. -/
inductive TakesRounds (tokens : List Token) :
    Pattern → Option String → Nat → Nat → Nat → Prop where
  | none {item : Pattern} {separator : Option String} {i : Nat} :
      TakesRounds tokens item separator i 0 i
  | item {item : Pattern} {separator : Option String} {i n j k : Nat}
      (h : TakesRounds tokens item separator i n j) (hitem : Takes tokens item j k)
      (hforward : j < k) : TakesRounds tokens item separator i (n + 1) k
  | separated {item : Pattern} {separator : Option String} {i n j k : Nat}
      (h : TakesRounds tokens item separator i n j) (hn : 0 < n)
      (hseparator : separator.any (hasText tokens j) = true) (hitem : Takes tokens item (j + 1) k)
      (hforward : j < k) : TakesRounds tokens item separator i (n + 1) k

end

mutual

/-- No repetition in the pattern asks for more than one round. -/
def isModest : Pattern → Bool
  | .keyword _ => true
  | .param _ => true
  | .seq items => areModest items
  | .optional item => item.isModest
  | .repeated item _ min => min ≤ 1 && item.isModest
  | .choice alternatives => areModest alternatives
  | .options _ => true

/-- No repetition in the patterns asks for more than one round. -/
def areModest : List Pattern → Bool
  | [] => true
  | item :: items => item.isModest && areModest items

end

/-- No command's pattern asks for more than one round anywhere. -/
theorem isModest_of_mem_commands {s : CommandSyntax} (h : s ∈ Registry.commands) :
    s.pattern.isModest = true := by
  have hall : (Registry.commands.all fun s => s.pattern.isModest) = true := by decide
  exact List.all_eq_true.mp hall s h

variable {tokens : List Token}

theorem hasText_lt {i : Nat} {text : String} (h : hasText tokens i text = true) :
    i < tokens.length := by
  refine Nat.lt_of_not_le fun hge => ?_
  rw [hasText, List.getElem?_eq_none hge] at h
  cases h

theorem atOption_lt {i : Nat} (h : Extent.atOption (tokens.drop i) = true) :
    i + 2 ≤ tokens.length := by
  have hlength : 2 ≤ (tokens.drop i).length := by
    rcases hdrop : tokens.drop i with _ | ⟨t, _ | ⟨u, us⟩⟩ <;> rw [hdrop] at h
    · cases h
    · cases h
    · exact Nat.succ_le_succ (Nat.succ_le_succ (Nat.zero_le _))
  rw [List.length_drop] at hlength
  omega

/-! ## One stretch at a time -/

namespace Takes

variable {i j : Nat}

theorem keyword_iff {text : String} :
    Takes tokens (.keyword text) i j ↔ hasText tokens i text = true ∧ j = i + 1 := by
  refine ⟨fun h => ?_, fun ⟨h, hj⟩ => hj ▸ .keyword h⟩
  cases h with
  | keyword h => exact ⟨h, rfl⟩

theorem param_iff {q : Param} :
    Takes tokens (.param q) i j ↔ ∃ n ∈ Extent.ofType q.type (tokens.drop i), j = i + n := by
  refine ⟨fun h => ?_, fun ⟨n, h, hj⟩ => hj ▸ .param h⟩
  cases h with
  | param h => exact ⟨_, h, rfl⟩

theorem seq_nil_iff : Takes tokens (.seq []) i j ↔ i = j := by
  refine ⟨fun h => ?_, fun h => h ▸ .seqNil⟩
  cases h
  rfl

theorem seq_cons_iff {item : Pattern} {items : List Pattern} :
    Takes tokens (.seq (item :: items)) i j ↔
      ∃ k, Takes tokens item i k ∧ Takes tokens (.seq items) k j := by
  refine ⟨fun h => ?_, fun ⟨k, h, hrest⟩ => .seqCons h hrest⟩
  cases h with
  | seqCons h hrest => exact ⟨_, h, hrest⟩

theorem optional_iff {item : Pattern} :
    Takes tokens (.optional item) i j ↔ Takes tokens item i j ∨ i = j := by
  refine ⟨fun h => ?_, fun h => ?_⟩
  · cases h with
    | absent => exact .inr rfl
    | present h => exact .inl h
  · rcases h with h | rfl
    · exact .present h
    · exact .absent

theorem choice_iff {alternatives : List Pattern} :
    Takes tokens (.choice alternatives) i j ↔ ∃ item ∈ alternatives, Takes tokens item i j := by
  refine ⟨fun h => ?_, fun ⟨item, hmem, h⟩ => .choice hmem h⟩
  cases h with
  | choice hmem h => exact ⟨_, hmem, h⟩

theorem repeated_iff {item : Pattern} {separator : Option String} {min : Nat} :
    Takes tokens (.repeated item separator min) i j ↔
      ∃ n, min ≤ n ∧ TakesRounds tokens item separator i n j := by
  refine ⟨fun h => ?_, fun ⟨n, hmin, h⟩ => .repeated h hmin⟩
  cases h with
  | repeated h hmin => exact ⟨_, hmin, h⟩

theorem options_iff {offered : List OptionSpec} :
    Takes tokens (.options offered) i j ↔
      i = j ∨ Extent.atOption (tokens.drop i) = true ∧
        ∃ n, Extent.value? (tokens.drop (i + 2)) = some n ∧
          Takes tokens (.options offered) (i + 2 + n) j := by
  refine ⟨fun h => ?_, fun h => ?_⟩
  · cases h with
    | noOption => exact .inl rfl
    | option hat hvalue hrest => exact .inr ⟨hat, _, hvalue, hrest⟩
  · rcases h with rfl | ⟨hat, n, hvalue, hrest⟩
    · exact .noOption
    · exact .option hat hvalue hrest

end Takes

/-! ## One round at a time -/

/-- One round of a repetition leads from the place `i` to the place `j`; `first` is the first round,
before which no separator stands. -/
def TakesRound (tokens : List Token) (item : Pattern) (separator : Option String) (first : Bool)
    (i j : Nat) : Prop :=
  i < j ∧ (Takes tokens item i j ∨
    first = false ∧ separator.any (hasText tokens i) = true ∧ Takes tokens item (i + 1) j)

namespace TakesRounds

variable {item : Pattern} {separator : Option String} {i j k n : Nat}

theorem zero_iff : TakesRounds tokens item separator i 0 j ↔ i = j := by
  refine ⟨fun h => ?_, fun h => h ▸ .none⟩
  cases h
  rfl

theorem succ_iff : TakesRounds tokens item separator i (n + 1) k ↔
    ∃ j, TakesRounds tokens item separator i n j ∧
      TakesRound tokens item separator (n == 0) j k := by
  refine ⟨fun h => ?_, fun ⟨j, h, hforward, hround⟩ => ?_⟩
  · cases h with
    | item h hitem hforward => exact ⟨_, h, hforward, .inl hitem⟩
    | separated h hn hseparator hitem hforward =>
      exact ⟨_, h, hforward, .inr ⟨beq_false_of_ne (Nat.ne_of_gt hn), hseparator, hitem⟩⟩
  · rcases hround with hitem | ⟨hn, hseparator, hitem⟩
    · exact .item h hitem hforward
    · exact .separated h (Nat.pos_of_ne_zero (ne_of_beq_false hn)) hseparator hitem hforward

/-- Every round goes forward by a token at least. -/
theorem add_le (h : TakesRounds tokens item separator i n j) : i + n ≤ j := by
  induction n generalizing j with
  | zero => exact Nat.le_of_eq (zero_iff.mp h)
  | succ n ih =>
    obtain ⟨k, hk, hforward, -⟩ := succ_iff.mp h
    exact Nat.lt_of_le_of_lt (ih hk) hforward

end TakesRounds

/-! ## Stretches -/

namespace Takes

/-- A stretch goes forward, and where it takes a token it ends within the tokens. -/
structure Stretch (tokens : List Token) (i j : Nat) : Prop where
  le : i ≤ j
  le_length : i < j → j ≤ tokens.length

theorem Stretch.refl (i : Nat) : Stretch tokens i i :=
  ⟨Nat.le_refl i, fun h => absurd h (Nat.lt_irrefl i)⟩

theorem Stretch.trans {i j k : Nat} (h : Stretch tokens i j) (h' : Stretch tokens j k) :
    Stretch tokens i k := by
  refine ⟨Nat.le_trans h.le h'.le, fun hik => ?_⟩
  rcases Nat.eq_or_lt_of_le h'.le with rfl | hlt
  · exact h.le_length hik
  · exact h'.le_length hlt

/-- So many of the tokens left are taken. -/
theorem Stretch.add {i n : Nat} (h : n ≤ (tokens.drop i).length) : Stretch tokens i (i + n) := by
  rw [List.length_drop] at h
  exact ⟨Nat.le_add_right i n, fun hlt => by omega⟩

theorem Stretch.succ {i : Nat} (h : i < tokens.length) : Stretch tokens i (i + 1) :=
  ⟨Nat.le_succ i, fun _ => h⟩

theorem stretch {pattern : Pattern} {i j : Nat} (h : Takes tokens pattern i j) :
    Stretch tokens i j := by
  induction h using Takes.rec (motive_2 := fun _ _ i _ j _ => Stretch tokens i j) with
  | keyword h => exact .succ (hasText_lt h)
  | param h => exact .add (Extent.le_length_of_mem h)
  | seqNil => exact .refl _
  | seqCons _ _ ih ihrest => exact ih.trans ihrest
  | absent => exact .refl _
  | present _ ih => exact ih
  | choice _ _ ih => exact ih
  | repeated _ _ ih => exact ih
  | noOption => exact .refl _
  | option hat hvalue _ ih =>
    have hword : Stretch tokens _ _ := ⟨Nat.le_add_right _ 2, fun _ => atOption_lt hat⟩
    exact (hword.trans (.add (Extent.value?_le hvalue))).trans ih
  | none => exact .refl _
  | item _ _ _ ih ihitem => exact ih.trans ihitem
  | separated _ _ hseparator _ _ ih ihitem =>
    obtain ⟨text, -, htext⟩ := Option.any_eq_true _ _ |>.mp hseparator
    exact (ih.trans (.succ (hasText_lt htext))).trans ihitem

end Takes

/-- Rounds that take a token at least end within the tokens. -/
theorem TakesRounds.le_length {item : Pattern} {separator : Option String} {i n j : Nat}
    (h : TakesRounds tokens item separator i n j) (hn : 0 < n) : j ≤ tokens.length :=
  (Takes.repeated h (Nat.zero_le n)).stretch.le_length (Nat.lt_of_lt_of_le (by omega) h.add_le)

end SplQuery.Pattern

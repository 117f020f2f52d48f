import SplQuery.Proofs.Delimiter.Nesting
import SplQuery.Proofs.Pattern.Extent

/-!
# How far tokens reach

What `Extent` counts, piece by piece: a group by what is inside it, a value by its pieces, an
expression by its operand and the operators after it.

* `Extent.Level` — tokens that leave the groups around them as they are.
* `Extent.IsGroup` — a group in parentheses.
* `Extent.operators` — how many tokens the operators after an operand take.
-/

namespace SplQuery.Extent

open Delimiters

variable {t u : Token} {ts us : List Token}

/-! ## Groups -/

/-- The tokens neither close a group around them nor leave one open. -/
def Level (ts : List Token) : Prop :=
  ∀ depth tail, closing .lparen .rparen (depth + 1) (ts ++ tail) =
    (closing .lparen .rparen (depth + 1) tail).map (· + ts.length)

theorem level_nil : Level [] := by
  intro depth tail
  simp

theorem Level.append (h : Level ts) (h' : Level us) : Level (ts ++ us) := by
  intro depth tail
  rw [List.append_assoc, h, h', Option.map_map, List.length_append]
  congr 1
  funext n
  simp only [Function.comp_apply]
  omega

/-- A token that is no parenthesis. -/
theorem level_singleton (h : t.kind.isParen = false) : Level [t] := by
  intro depth tail
  have hopen : t.kind ≠ .lparen := by
    intro heq
    rw [heq] at h
    cases h
  have hclose : t.kind ≠ .rparen := by
    intro heq
    rw [heq] at h
    cases h
  rw [List.singleton_append, closing, if_neg hopen, if_neg hclose]
  rfl

theorem level_of_none (h : ∀ t ∈ ts, t.kind.isParen = false) : Level ts := by
  induction ts with
  | nil => exact level_nil
  | cons t ts ih =>
    obtain ⟨ht, hts⟩ := List.forall_mem_cons.mp h
    exact (level_singleton ht).append (ih hts)

/-- What a parenthesis opens is closed after what is level. -/
theorem closing_level (h : Level ts) (hu : u.kind = .rparen) (depth : Nat) (tail : List Token) :
    closing .lparen .rparen (depth + 2) (ts ++ u :: tail) =
      (closing .lparen .rparen (depth + 1) tail).map (· + (ts.length + 1)) := by
  have hopen : u.kind ≠ .lparen := by
    rw [hu]
    decide
  rw [h (depth + 1), closing, if_neg hopen, if_pos hu, if_neg (by omega), Option.map_map]
  congr 1
  funext n
  simp only [Function.comp_apply]
  omega

theorem Level.group (h : Level ts) (ht : t.kind = .lparen) (hu : u.kind = .rparen) :
    Level (t :: (ts ++ [u])) := by
  intro depth tail
  rw [List.cons_append, List.append_assoc, closing, if_pos ht, List.singleton_append,
    closing_level h hu, Option.map_map]
  congr 1
  funext n
  simp only [Function.comp_apply, List.length_cons, List.length_append, List.length_nil]
  omega

/-- Tokens whose parentheses are nested. -/
theorem level_of_nested {ks : List Kind} (h : Nested ks)
    (hks : (ts.map (·.kind)).filter Kind.isParen = ks) : Level ts := by
  induction h generalizing ts with
  | nil =>
    rw [List.filter_eq_nil_iff] at hks
    refine level_of_none fun t ht => Bool.eq_false_iff.mpr ?_
    exact hks _ (List.mem_map_of_mem ht)
  | @group opener closer inside after hpairs hinside hafter ihinside ihafter =>
    rw [List.filter_map, List.map_eq_cons_iff] at hks
    obtain ⟨t, rest, hfilter, rfl, hrest⟩ := hks
    obtain ⟨front, more, rfl, hfront, ht, rfl⟩ := List.filter_eq_cons_iff.mp hfilter
    rw [List.map_eq_append_iff] at hrest
    obtain ⟨within, closing, hmore, hwithin, hclosing⟩ := hrest
    obtain ⟨body, ending, rfl, rfl, rfl⟩ := List.filter_eq_append_iff.mp hmore
    obtain ⟨u, tail, hending, rfl, htail⟩ := List.map_eq_cons_iff.mp hclosing
    obtain ⟨gap, last, rfl, hgap, hu, rfl⟩ := List.filter_eq_cons_iff.mp hending
    have hnone {ls : List Token} (hls : ∀ l ∈ ls, ¬(Kind.isParen ∘ (·.kind)) l = true) : Level ls :=
      level_of_none fun l hl => Bool.eq_false_iff.mpr (hls l hl)
    have hbody : Level body := ihinside (by rw [List.filter_map]; exact hwithin)
    have hlast : Level last := ihafter (by rw [List.filter_map]; exact htail)
    have hgroup : Level (t :: ((body ++ gap) ++ [u])) := by
      generalize hopener : t.kind = opener at hpairs
      generalize hcloser : u.kind = closer at hpairs
      cases hpairs with
      | parens => exact (hbody.append (hnone hgap)).group hopener hcloser
      | brackets =>
        rw [Function.comp_apply, hopener] at ht
        cases ht
    have hall := (hnone hfront).append (hgroup.append hlast)
    simpa using hall

/-- A group in parentheses. -/
def IsGroup (ts : List Token) : Prop :=
  ∃ t inside u, ts = t :: (inside ++ [u]) ∧ t.kind = .lparen ∧ u.kind = .rparen ∧ Level inside

/-- The group that is open is closed after what is level. -/
theorem closing_one (h : Level ts) (hu : u.kind = .rparen) (tail : List Token) :
    closing .lparen .rparen 1 (ts ++ u :: tail) = some (ts.length + 1) := by
  have hopen : u.kind ≠ .lparen := by
    rw [hu]
    decide
  rw [h 0, closing, if_neg hopen, if_pos hu, if_pos (Nat.le_refl 1), Option.map_some,
    Nat.add_comm 1]

theorem IsGroup.paren? (h : IsGroup ts) (tail : List Token) :
    paren? (ts ++ tail) = some ts.length := by
  obtain ⟨t, inside, u, rfl, ht, hu, hinside⟩ := h
  rw [List.cons_append, List.append_assoc, Extent.paren?, group?, if_pos ht, List.singleton_append,
    closing_one hinside hu, Option.map_some]
  simp

/-! ## Values -/

theorem valueRest_stop {before : Token} {left : List Token}
    (h : ∀ t ∈ left.head?, touches before t = false ∨ t.kind ≠ .lparen ∧ t.kind.isGlue = false) :
    valueRest before left = some 0 := by
  cases left with
  | nil => rw [valueRest]
  | cons t left =>
    rw [valueRest]
    rcases h t rfl with htouches | ⟨hopen, hglue⟩
    · rw [htouches]
      rfl
    · rw [if_neg hopen, hglue]
      simp

theorem valueRest_glue {before : Token} (h : touches before t = true) (hglue : t.kind.isGlue = true)
    (tail : List Token) : valueRest before (t :: tail) = (valueRest t tail).map (· + 1) := by
  have hopen : t.kind ≠ .lparen := by
    intro heq
    rw [heq] at hglue
    cases hglue
  rw [valueRest, h, if_neg hopen, if_pos hglue]
  rfl

/-- A group belongs to the value whole, and what comes after it follows its last token. -/
theorem groupThen_eq (h : Level ts) (hu : u.kind = .rparen) (tail : List Token) :
    (do
      let n ← closing .lparen .rparen 1 (ts ++ u :: tail)
      let rest ← valueRest (((ts ++ u :: tail).take n).getLastD t) ((ts ++ u :: tail).drop n)
      return n + 1 + rest) = (valueRest u tail).map (· + (ts.length + 2)) := by
  have htake : (ts ++ u :: tail).take (ts.length + 1) = ts ++ [u] := by
    rw [← List.singleton_append, ← List.append_assoc]
    exact List.take_left' (by simp)
  have hdrop : (ts ++ u :: tail).drop (ts.length + 1) = tail := by
    rw [← List.singleton_append, ← List.append_assoc]
    exact List.drop_left' (by simp)
  rw [closing_one h hu, Option.bind_eq_bind, Option.bind_some, htake, hdrop, List.getLastD_concat]
  cases valueRest u tail with
  | none => rfl
  | some n =>
    change some (ts.length + 1 + 1 + n) = some (n + (ts.length + 2))
    congr 1
    omega

theorem valueRest_group {before : Token} (h : touches before t = true) (ht : t.kind = .lparen)
    (hts : Level ts) (hu : u.kind = .rparen) (tail : List Token) :
    valueRest before (t :: (ts ++ u :: tail)) =
      (valueRest u tail).map (· + (ts.length + 2)) := by
  rw [valueRest, h, if_pos ht]
  exact groupThen_eq hts hu tail

theorem value?_glue (hglue : t.kind.isGlue = true) (tail : List Token) :
    value? (t :: tail) = (valueRest t tail).map (· + 1) := by
  have hopen : t.kind ≠ .lparen := by
    intro heq
    rw [heq] at hglue
    cases hglue
  rw [value?, if_neg hopen, if_pos hglue]

theorem value?_group (ht : t.kind = .lparen) (hts : Level ts) (hu : u.kind = .rparen)
    (tail : List Token) :
    value? (t :: (ts ++ u :: tail)) = (valueRest u tail).map (· + (ts.length + 2)) := by
  rw [value?, if_pos ht]
  exact groupThen_eq hts hu tail

/-! ## Operands -/

/-- A sign or a negation in front of an operand, whether or not the grammar has it. -/
def isSign : Kind → Bool
  | .clause .not | .minus | .plus => true
  | _ => false

/-- What is an operand by itself, unless it names a function that is called. -/
def isAlone : Kind → Bool
  | .clause .not => false
  | .wildcardField | .macroCall | .multiply => true
  | k => k.isWord || k.isLiteral

theorem isSign_of_isAlone {k : Kind} (h : isAlone k = true) : isSign k = false := by
  cases k with
  | clause w => cases w <;> first | rfl | cases h
  | _ => first | rfl | cases h

theorem operand?_sign (h : isSign t.kind = true) (ts : List Token) :
    operand? (t :: ts) = (operand? ts).map (· + 1) := by
  rw [operand?, if_pos]
  generalize t.kind = k at h
  cases k with
  | clause w => cases w <;> first | rfl | cases h
  | _ => first | rfl | cases h

theorem operand?_of_not_sign (h : isSign t.kind = false) (ts : List Token) :
    operand? (t :: ts) =
      if t.kind = .lparen then paren? (t :: ts)
      else if atCall (t :: ts) then (paren? ts).map (· + 1)
      else if t.kind.isWord || t.kind.isLiteral ||
          t.kind matches .wildcardField | .macroCall | .multiply then some 1
      else none := by
  obtain ⟨k, written, place⟩ := t
  cases k with
  | clause w => cases w <;> first | rfl | cases h
  | _ => first | rfl | cases h

theorem IsGroup.operand? (h : IsGroup ts) (tail : List Token) :
    operand? (ts ++ tail) = some ts.length := by
  have hcount := h.paren? tail
  obtain ⟨t, inside, u, rfl, ht, -, -⟩ := h
  have hsign : isSign t.kind = false := by
    rw [ht]
    rfl
  rw [List.cons_append] at hcount ⊢
  rw [operand?_of_not_sign hsign, if_pos ht, hcount]

/-- The call of a function. -/
theorem operand?_call (hsign : isSign t.kind = false) (h : IsGroup ts) (tail : List Token)
    (hcall : atCall (t :: (ts ++ tail)) = true) :
    operand? (t :: (ts ++ tail)) = some (ts.length + 1) := by
  have hopen : t.kind ≠ .lparen := by
    intro heq
    cases hts : ts ++ tail with
    | nil =>
      rw [hts] at hcall
      cases hcall
    | cons u us =>
      rw [hts, atCall, heq] at hcall
      cases hcall
  rw [operand?_of_not_sign hsign, if_neg hopen, if_pos hcall, h.paren? tail, Option.map_some]

theorem operand?_alone (h : isAlone t.kind = true) (hcall : atCall (t :: ts) = false) :
    operand? (t :: ts) = some 1 := by
  rw [operand?_of_not_sign (isSign_of_isAlone h), hcall, if_neg Bool.false_ne_true]
  generalize t.kind = k at h
  cases k <;> first | rfl | cases h

/-- Where a call starts, it starts as well if fewer tokens follow or more. -/
theorem atCall_of_beginning {left : List Token} (h : left <+: ts)
    (hcall : atCall (t :: ts) = false) : atCall (t :: left) = false := by
  cases left with
  | nil => rfl
  | cons u left =>
    obtain ⟨tail, rfl⟩ := h
    exact hcall

/-! ## Operators -/

/-- How many tokens the operators after an operand take, with their operands. -/
def operators (ts : List Token) : Nat := operatorsRest ts.length ts

/-- There is enough fuel for the operators as each of them takes a token. -/
theorem operatorsRest_of_le {fuel : Nat} (h : ts.length ≤ fuel) :
    operatorsRest fuel ts = operators ts := by
  suffices heq : ∀ more fuel (ts : List Token), ts.length ≤ fuel → ts.length ≤ more →
      operatorsRest fuel ts = operatorsRest more ts from heq _ _ _ h (Nat.le_refl _)
  intro more
  induction more with
  | zero =>
    intro fuel ts _ hmore
    obtain rfl := List.length_eq_zero_iff.mp (Nat.le_zero.mp hmore)
    cases fuel <;> rfl
  | succ more ih =>
    intro fuel ts hfuel hmore
    cases ts with
    | nil => cases fuel <;> rfl
    | cons t ts =>
      cases fuel with
      | zero => cases hfuel
      | succ fuel =>
        rw [List.length_cons] at hfuel hmore
        have hsame (n : Nat) : operatorsRest fuel (ts.drop n) = operatorsRest more (ts.drop n) := by
          refine ih fuel _ ?_ ?_ <;> rw [List.length_drop] <;> omega
        simp only [operatorsRest, hsame]

theorem expression?_eq (ts : List Token) :
    expression? ts = (operand? ts).map fun n => n + operators (ts.drop n) := by
  rw [expression?]
  congr 1
  funext n
  rw [operatorsRest_of_le (List.length_drop ▸ Nat.sub_le _ _)]

theorem operators_cons (t : Token) (ts : List Token) :
    operators (t :: ts) =
      if !t.kind.isInfix then 0
      else match if t.kind = .clause .inWord then paren? ts else operand? ts with
        | some n => n + 1 + operators (ts.drop n)
        | none => 0 := by
  have hdrop (n : Nat) : operatorsRest ts.length (ts.drop n) = operators (ts.drop n) :=
    operatorsRest_of_le (List.length_drop ▸ Nat.sub_le _ _)
  rw [operators, List.length_cons, operatorsRest]
  cases t.kind.isInfix with
  | false => rfl
  | true =>
    generalize (if t.kind = .clause .inWord then paren? ts else operand? ts) = operand
    cases operand with
    | none => rfl
    | some n => exact congrArg (n + 1 + ·) (hdrop n)

theorem operators_of_not_isInfix (h : t.kind.isInfix = false) (ts : List Token) :
    operators (t :: ts) = 0 := by
  rw [operators_cons, h]
  rfl

/-- An operator and the operand after it, with the operators after that. -/
theorem operators_of_isInfix {n : Nat} (h : t.kind.isInfix = true) (hin : t.kind ≠ .clause .inWord)
    (hts : expression? ts = some n) : operators (t :: ts) = n + 1 := by
  rw [expression?_eq, Option.map_eq_some_iff] at hts
  obtain ⟨m, hm, rfl⟩ := hts
  rw [operators_cons, h, if_neg hin, hm]
  change m + 1 + operators (ts.drop m) = m + operators (ts.drop m) + 1
  omega

/-- The word `in` and the list after it. -/
theorem operators_in (hin : t.kind = .clause .inWord) (h : IsGroup ts) (tail : List Token) :
    operators (t :: (ts ++ tail)) = ts.length + 1 + operators tail := by
  rw [operators_cons, hin, if_pos rfl, h.paren? tail]
  change ts.length + 1 + operators ((ts ++ tail).drop ts.length) = _
  rw [List.drop_left]

/-- The word `in` without a list is no operator. -/
theorem operators_in_stop (hin : t.kind = .clause .inWord)
    (h : ∀ u ∈ ts.head?, u.kind ≠ .lparen) : operators (t :: ts) = 0 := by
  have hnone : paren? ts = none := by
    cases ts with
    | nil => rfl
    | cons u us => rw [paren?, group?, if_neg (h u rfl)]
  rw [operators_cons, hin, if_pos rfl, hnone]
  rfl

end SplQuery.Extent

import SplQuery.Proofs.Extent.Values
import SplQuery.Grammar.Expression

/-!
# Expressions, flat and nested

The grammar climbs: the right operand of an operator takes the operators after it that hold it more
strongly, and leaves the others. What is counted is flat, operands with operators between them. Both
come to the same end, since the one goes on with what the other leaves.

* `Extent.Contained` — what may stand inside a group.
* `Extent.IsOperand`, `Extent.IsChain`, `Extent.IsExpression` — what is counted as it was read.
* `Extent.IsOperand.chain`, `Extent.IsExpression.after` — how expressions are put together.
-/

namespace SplQuery

open Delimiters

namespace Extent

/-! ## Inside groups -/

/-- The parentheses are nested, and no stage ends here. -/
structure Contained (ks : List Kind) : Prop where
  nested : Nested (ks.filter Kind.isParen)
  inside : ∀ k ∈ ks, k.endsStage = false

section Contained

variable {k : Kind} {ks ls : List Kind}

theorem contained_nil : Contained [] := ⟨.nil, nofun⟩

theorem Contained.append (h : Contained ks) (h' : Contained ls) : Contained (ks ++ ls) := by
  refine ⟨?_, List.forall_mem_append.mpr ⟨h.inside, h'.inside⟩⟩
  rw [List.filter_append]
  exact h.nested.append h'.nested

/-- What is no parenthesis and ends no stage may come before. -/
theorem Contained.cons (hk : k.isParen = false ∧ k.endsStage = false) (h : Contained ks) :
    Contained (k :: ks) := by
  refine ⟨?_, List.forall_mem_cons.mpr ⟨hk.2, h.inside⟩⟩
  rw [List.filter_cons_of_neg (by simp [hk.1])]
  exact h.nested

theorem Contained.group (h : Contained ks) : Contained (.lparen :: (ks ++ [.rparen])) := by
  refine ⟨?_, ?_⟩
  · rw [List.filter_cons_of_pos rfl, List.filter_append]
    exact .group .parens h.nested .nil
  · intro k hk
    simp only [List.mem_cons, List.mem_append, List.not_mem_nil, or_false] at hk
    obtain rfl | hk | rfl := hk
    · rfl
    · exact h.inside k hk
    · rfl

end Contained

variable {least : Nat} {t : Token} {read more rest : List Token}

/-- A group in which no stage ends. -/
structure Grouped (ts : List Token) : Prop where
  group : IsGroup ts
  contained : Contained (ts.map (·.kind))

theorem grouped_of_kinds {ts : List Token} {inside : List Kind}
    (hts : ts.map (·.kind) = .lparen :: (inside ++ [.rparen])) (h : Contained inside) :
    Grouped ts := by
  refine ⟨?_, hts ▸ h.group⟩
  obtain ⟨t, more, rfl, ht, hmore⟩ := List.map_eq_cons_iff.mp hts
  obtain ⟨body, last, rfl, hbody, hlast⟩ := List.map_eq_append_iff.mp hmore
  obtain ⟨u, rfl, hu⟩ := List.map_eq_singleton_iff.mp hlast
  exact ⟨t, body, u, rfl, ht, hu, level_of_nested h.nested (by rw [hbody])⟩

/-- Of the tokens read and those to come: what is read is counted as an operand, whatever comes
after it up to the end of the stage. -/
structure IsOperand (read rest : List Token) : Prop where
  contained : Contained (read.map (·.kind))
  count : ∀ left, left <+: rest → operand? (read ++ left) = some read.length

/-- What is read is counted as operators with their operands, and so is what comes after it. Where
operators of all strengths are read none is left. -/
structure IsChain (least : Nat) (read rest : List Token) : Prop where
  contained : Contained (read.map (·.kind))
  count : ∀ left, left <+: rest → operators (read ++ left) = read.length + operators left
  ends : least = 0 → ∀ left, left <+: rest → operators left = 0
  -- the operand of a sign takes no operator
  none : Grammar.signStrength ≤ least → read = []

/-- What is read is counted as an expression, with the operators that come after it. -/
structure IsExpression (least : Nat) (read rest : List Token) : Prop where
  contained : Contained (read.map (·.kind))
  count : ∀ left, left <+: rest →
    expression? (read ++ left) = some (read.length + operators left)
  ends : least = 0 → ∀ left, left <+: rest → operators left = 0
  operand : Grammar.signStrength ≤ least → IsOperand read rest

/-! ## Operands -/

theorem Grouped.isOperand (h : Grouped read) : IsOperand read rest :=
  ⟨h.contained, fun left _ => h.group.operand? left⟩

theorem contained_of_isAlone {k : Kind} (h : isAlone k = true) :
    k.isParen = false ∧ k.endsStage = false := by
  cases k <;> first | exact ⟨rfl, rfl⟩ | cases h

theorem isOperand_alone (h : isAlone t.kind = true) (hcall : atCall (t :: rest) = false) :
    IsOperand [t] rest := by
  refine ⟨contained_nil.cons (contained_of_isAlone h), fun left hleft => ?_⟩
  exact operand?_alone h (atCall_of_beginning hleft hcall)

/-- A function may be called by any word but `not`, which is a sign. -/
theorem isAlone_of_atCall {ts : List Token} (h : atCall (t :: ts) = true)
    (hnot : t.kind ≠ .clause .not) : isAlone t.kind = true := by
  cases ts with
  | nil => cases h
  | cons u us =>
    obtain ⟨hname, -⟩ := Bool.and_eq_true_iff.mp h
    generalize t.kind = k at hname hnot
    cases k with
    | clause w => cases w <;> first | rfl | exact absurd rfl hnot
    | _ => first | rfl | cases hname

theorem isOperand_call (h : Grouped read) (hcall : atCall (t :: (read ++ rest)) = true)
    (hnot : t.kind ≠ .clause .not) : IsOperand (t :: read) rest := by
  have halone := isAlone_of_atCall hcall hnot
  refine ⟨h.contained.cons (contained_of_isAlone halone), fun left _ => ?_⟩
  refine operand?_call (isSign_of_isAlone halone) h.group left ?_
  -- whether a function is called depends on no token behind the parenthesis
  obtain ⟨u, inside, v, rfl, -⟩ := h.group
  exact hcall

theorem IsOperand.sign (h : IsOperand read rest) (ht : isSign t.kind = true) :
    IsOperand (t :: read) rest := by
  have hfree : t.kind.isParen = false ∧ t.kind.endsStage = false := by
    generalize t.kind = k at ht
    cases k <;> first | exact ⟨rfl, rfl⟩ | cases ht
  refine ⟨h.contained.cons hfree, fun left hleft => ?_⟩
  rw [List.cons_append, operand?_sign ht, h.count left hleft]
  rfl

/-! ## Operators -/

theorem IsOperand.chain (h : IsOperand read (more ++ rest)) (h' : IsChain least more rest) :
    IsExpression least (read ++ more) rest := by
  refine ⟨?_, fun left hleft => ?_, h'.ends, fun hleast => ?_⟩
  · rw [List.map_append]
    exact h.contained.append h'.contained
  · rw [expression?_eq, List.append_assoc,
      h.count (more ++ left) ((List.prefix_append_right_inj more).mpr hleft), Option.map_some,
      List.drop_left, h'.count left hleft, List.length_append, Nat.add_assoc]
  · obtain rfl := h'.none hleast
    rw [List.append_nil]
    exact h

/-- No operator is read. -/
theorem isChain_nil (h : least = 0 → ∀ left, left <+: rest → operators left = 0) :
    IsChain least [] rest :=
  ⟨contained_nil, fun _ _ => (Nat.zero_add _).symm, h, fun _ => rfl⟩

/-- No operator comes next, or none that may be read here. -/
theorem isChain_stop (h : least = 0 → ∀ t ∈ rest.head?, t.kind.isInfix = false) :
    IsChain least [] rest := by
  refine isChain_nil fun hleast left hleft => ?_
  cases left with
  | nil => rfl
  | cons t left =>
    exact operators_of_not_isInfix (h hleast t (mem_head?_of_beginning hleft rfl)) left

/-- The word `in` comes next, and no list after it. -/
theorem isChain_in_stop (ht : t.kind = .clause .inWord) (h : ∀ u ∈ rest.head?, u.kind ≠ .lparen) :
    IsChain least [] (t :: rest) := by
  refine isChain_nil fun _ left hleft => ?_
  cases left with
  | nil => rfl
  | cons u left =>
    obtain ⟨rfl, hmore⟩ := List.cons_prefix_cons.mp hleft
    exact operators_in_stop ht fun v hv => h v (mem_head?_of_beginning hmore hv)

/-- An operator holds its operands less strongly than a sign does. -/
theorem strength_lt {k : Kind} {left right : Nat} (h : Grammar.strength? k = some (left, right)) :
    left < Grammar.signStrength := by
  cases k with
  | clause w => cases w <;> cases h <;> decide
  | _ => cases h <;> decide

theorem isInfix_eq (k : Kind) : k.isInfix = (Grammar.strength? k).isSome := by
  cases k with
  | clause w => cases w <;> rfl
  | _ => rfl

theorem contained_of_isInfix {k : Kind} (h : k.isInfix = true) :
    k.isParen = false ∧ k.endsStage = false := by
  cases k <;> first | exact ⟨rfl, rfl⟩ | cases h

/-- An operator, its right operand with what that takes, and the operators after it. -/
theorem IsExpression.after {right : Nat} (h : IsExpression right read (more ++ rest))
    (hoperator : t.kind.isInfix = true) (hin : t.kind ≠ .clause .inWord)
    (hleast : least < Grammar.signStrength) (h' : IsChain least more rest) :
    IsChain least (t :: read ++ more) rest := by
  refine ⟨?_, fun left hleft => ?_, h'.ends, fun hsign => absurd hsign (Nat.not_le.mpr hleast)⟩
  · rw [List.map_append]
    exact (h.contained.cons (contained_of_isInfix hoperator)).append h'.contained
  · have hcount := h.count (more ++ left) ((List.prefix_append_right_inj more).mpr hleft)
    rw [h'.count left hleft] at hcount
    rw [List.append_assoc, List.cons_append, operators_of_isInfix hoperator hin hcount,
      List.length_append, List.length_cons]
    omega

/-- The word `in`, the list after it, and the operators after that. -/
theorem Grouped.after (h : Grouped read) (hin : t.kind = .clause .inWord)
    (hleast : least < Grammar.signStrength) (h' : IsChain least more rest) :
    IsChain least (t :: read ++ more) rest := by
  refine ⟨?_, fun left hleft => ?_, h'.ends, fun hsign => absurd hsign (Nat.not_le.mpr hleast)⟩
  · rw [List.map_append]
    have hoperator : t.kind.isInfix = true := by
      rw [hin]
      rfl
    exact (h.contained.cons (contained_of_isInfix hoperator)).append h'.contained
  · rw [List.append_assoc, List.cons_append, operators_in hin h.group, h'.count left hleft,
      List.length_append, List.length_cons]
    omega

end Extent

end SplQuery

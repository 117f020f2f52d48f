import SplQuery.Pattern.Extent

/-!
# Values end within the tokens

A value of any sort takes no more tokens than there are, and the lengths that it may have are told
in rising order, each once.

* `Extent.le_length_of_mem` — a value ends within the tokens.
* `Extent.pairwise_ofType` — its possible lengths rise.
-/

namespace SplQuery.Extent

/-! ## Groups and values -/

theorem closing_le {opener closer : Kind} {depth n : Nat} {ts : List Token}
    (h : closing opener closer depth ts = some n) : n ≤ ts.length := by
  induction ts generalizing depth n with
  | nil => cases h
  | cons t ts ih =>
    have hrest {d : Nat} (hd : (closing opener closer d ts).map (· + 1) = some n) :
        n ≤ (t :: ts).length := by
      obtain ⟨m, hm, rfl⟩ := Option.map_eq_some_iff.mp hd
      exact Nat.succ_le_succ (ih hm)
    rw [closing] at h
    split at h
    · exact hrest h
    · split at h
      · split at h
        · cases h
          exact Nat.succ_le_succ (Nat.zero_le _)
        · exact hrest h
      · exact hrest h

theorem group?_le {opener closer : Kind} {n : Nat} {ts : List Token}
    (h : group? opener closer ts = some n) : n ≤ ts.length := by
  cases ts with
  | nil => cases h
  | cons t ts =>
    rw [group?] at h
    split at h
    · obtain ⟨m, hm, rfl⟩ := Option.map_eq_some_iff.mp h
      exact Nat.succ_le_succ (closing_le hm)
    · cases h

theorem glued_le (continues : Kind → Bool) (before : Token) (ts : List Token) :
    glued continues before ts ≤ ts.length := by
  induction ts generalizing before with
  | nil => exact Nat.le_refl _
  | cons t ts ih =>
    rw [glued]
    split
    · exact Nat.succ_le_succ (ih t)
    · exact Nat.zero_le _

theorem run?_le {starts continues : Kind → Bool} {n : Nat} {ts : List Token}
    (h : run? starts continues ts = some n) : n ≤ ts.length := by
  cases ts with
  | nil => cases h
  | cons t ts =>
    rw [run?] at h
    split at h
    · cases h
      exact Nat.succ_le_succ (glued_le _ _ _)
    · cases h

/-- A group in parentheses and what follows it without a space. -/
theorem groupThen_le {n : Nat} {ts : List Token} {rest : Nat → Option Nat}
    (hrest : ∀ m r, closing .lparen .rparen 1 ts = some m → rest m = some r →
      r ≤ (ts.drop m).length)
    (h : (do let m ← closing .lparen .rparen 1 ts; let r ← rest m; return m + 1 + r) = some n) :
    n ≤ ts.length + 1 := by
  obtain ⟨m, hm, h⟩ := Option.bind_eq_some_iff.mp h
  obtain ⟨r, hr, h⟩ := Option.bind_eq_some_iff.mp h
  cases h
  have hclosed := closing_le hm
  have hmore := hrest m r hm hr
  rw [List.length_drop] at hmore
  omega

theorem valueRest_le {before : Token} {n : Nat} {ts : List Token}
    (h : valueRest before ts = some n) : n ≤ ts.length := by
  fun_induction valueRest before ts generalizing n with
  | case1 => cases h; exact Nat.le_refl _
  | case2 => cases h; exact Nat.zero_le _
  | case3 before t ts _ _ ih => exact groupThen_le (fun m _ _ hr => ih m hr) h
  | case4 before t ts _ _ _ ih =>
    obtain ⟨m, hm, rfl⟩ := Option.map_eq_some_iff.mp h
    exact Nat.succ_le_succ (ih hm)
  | case5 => cases h; exact Nat.zero_le _

theorem value?_le {n : Nat} {ts : List Token} (h : value? ts = some n) : n ≤ ts.length := by
  cases ts with
  | nil => cases h
  | cons t ts =>
    rw [value?] at h
    split at h
    · exact groupThen_le (fun _ _ _ hr => valueRest_le hr) h
    · split at h
      · obtain ⟨m, hm, rfl⟩ := Option.map_eq_some_iff.mp h
        exact Nat.succ_le_succ (valueRest_le hm)
      · cases h

/-! ## Lists of fields -/

theorem fieldListRest_le (fuel : Nat) (ts : List Token) : fieldListRest fuel ts ≤ ts.length := by
  induction fuel generalizing ts with
  | zero => exact Nat.zero_le _
  | succ fuel ih =>
    have hcommas := (List.takeWhile_prefix (p := fun t : Token => t.kind == .comma)
      (l := ts)).length_le
    rw [fieldListRest]
    split
    · exact Nat.zero_le _
    · split
      · next n hn =>
        have hfield := run?_le hn
        have hmore := ih ((ts.drop (ts.takeWhile (·.kind == .comma)).length).drop n)
        rw [List.length_drop] at hfield hmore
        rw [List.length_drop] at hmore
        omega
      · exact Nat.zero_le _

theorem fieldList?_le {n : Nat} {ts : List Token} (h : fieldList? ts = some n) :
    n ≤ ts.length := by
  rw [fieldList?] at h
  split at h
  · cases h
  · obtain ⟨m, hm, rfl⟩ := Option.map_eq_some_iff.mp h
    have hfield := run?_le hm
    have hmore := fieldListRest_le ts.length (ts.drop m)
    rw [List.length_drop] at hmore
    omega

/-! ## Expressions -/

theorem operand?_le {n : Nat} {ts : List Token} (h : operand? ts = some n) : n ≤ ts.length := by
  fun_induction operand? ts generalizing n with
  | case1 => cases h
  | case2 t ts _ ih =>
    obtain ⟨m, hm, rfl⟩ := Option.map_eq_some_iff.mp h
    exact Nat.succ_le_succ (ih hm)
  | case3 => exact group?_le h
  | case4 =>
    obtain ⟨m, hm, rfl⟩ := Option.map_eq_some_iff.mp h
    exact Nat.succ_le_succ (group?_le hm)
  | case5 =>
    cases h
    exact Nat.succ_le_succ (Nat.zero_le _)
  | case6 => cases h

theorem operatorsRest_le (fuel : Nat) (ts : List Token) : operatorsRest fuel ts ≤ ts.length := by
  induction fuel generalizing ts with
  | zero => exact Nat.zero_le _
  | succ fuel ih =>
    cases ts with
    | nil => exact Nat.zero_le _
    | cons t ts =>
      rw [operatorsRest]
      split
      · exact Nat.zero_le _
      · dsimp only
        split
        · next n hn =>
          have hoperand : n ≤ ts.length := by
            split at hn
            · exact group?_le hn
            · exact operand?_le hn
          have hmore := ih (ts.drop n)
          rw [List.length_drop] at hmore
          rw [List.length_cons]
          omega
        · exact Nat.zero_le _

theorem expression?_le {n : Nat} {ts : List Token} (h : expression? ts = some n) :
    n ≤ ts.length := by
  obtain ⟨m, hm, rfl⟩ := Option.map_eq_some_iff.mp h
  have hoperand := operand?_le hm
  have hmore := operatorsRest_le ts.length (ts.drop m)
  rw [List.length_drop] at hmore
  omega

theorem aggregation?_le {n : Nat} {ts : List Token} (h : aggregation? ts = some n) :
    n ≤ ts.length := by
  cases ts with
  | nil => cases h
  | cons t ts =>
    rw [aggregation?] at h
    split at h
    · cases h
    · split at h
      · obtain ⟨m, hm, rfl⟩ := Option.map_eq_some_iff.mp h
        exact Nat.succ_le_succ (group?_le hm)
      · cases h
        exact Nat.succ_le_succ (Nat.zero_le _)

/-! ## Searches -/

theorem mem_upTo {count n : Nat} (h : n ∈ searches.upTo count) : n = count := by
  rw [searches.upTo] at h
  split at h
  · exact List.mem_singleton.mp h
  · cases h

theorem pairwise_upTo (count : Nat) : (searches.upTo count).Pairwise (· < ·) := by
  rw [searches.upTo]
  split
  · exact List.pairwise_singleton _ _
  · exact List.Pairwise.nil

/-- What a token does to a search: it ends it, it is passed, or the search may end before it. -/
theorem searches_cons (count parens brackets : Nat) (t : Token) (ts : List Token) :
    searches count parens brackets (t :: ts) = searches.upTo count ∨
      ∃ p b, searches count parens brackets (t :: ts) = searches (count + 1) p b ts ∨
        searches count parens brackets (t :: ts) =
          searches.upTo count ++ searches (count + 1) p b ts := by
  rw [searches]
  split
  case h_1 | h_2 =>
    split
    · exact .inl rfl
    · exact .inr ⟨_, _, .inl rfl⟩
  case h_6 | h_7 =>
    dsimp only
    split
    · exact .inr ⟨_, _, .inr rfl⟩
    · exact .inr ⟨_, _, .inl rfl⟩
  all_goals exact .inr ⟨_, _, .inl rfl⟩

/-- A search takes all tokens passed, and none behind the last one. -/
theorem mem_searches {count parens brackets n : Nat} {ts : List Token}
    (h : n ∈ searches count parens brackets ts) : count ≤ n ∧ n ≤ count + ts.length := by
  induction ts generalizing count parens brackets with
  | nil =>
    obtain rfl := mem_upTo h
    exact ⟨Nat.le_refl _, Nat.le_add_right _ _⟩
  | cons t ts ih =>
    have hhere (hm : n ∈ searches.upTo count) : count ≤ n ∧ n ≤ count + (t :: ts).length := by
      obtain rfl := mem_upTo hm
      exact ⟨Nat.le_refl _, Nat.le_add_right _ _⟩
    have hlater {p b : Nat} (hm : n ∈ searches (count + 1) p b ts) :
        count ≤ n ∧ n ≤ count + (t :: ts).length := by
      have hbounds := ih hm
      rw [List.length_cons]
      omega
    obtain heq | ⟨p, b, heq | heq⟩ := searches_cons count parens brackets t ts <;> rw [heq] at h
    · exact hhere h
    · exact hlater h
    · exact (List.mem_append.mp h).elim hhere hlater

/-- A search takes a token at least. -/
theorem pos_of_mem_searches {parens brackets n : Nat} {ts : List Token}
    (h : n ∈ searches 0 parens brackets ts) : 0 < n := by
  have hnone : n ∉ searches.upTo 0 := List.not_mem_nil
  cases ts with
  | nil => exact absurd h hnone
  | cons t ts =>
    obtain heq | ⟨p, b, heq | heq⟩ := searches_cons 0 parens brackets t ts <;> rw [heq] at h
    · exact absurd h hnone
    · exact (mem_searches h).1
    · exact (mem_searches ((List.mem_append.mp h).resolve_left hnone)).1

theorem pairwise_searches (count parens brackets : Nat) (ts : List Token) :
    (searches count parens brackets ts).Pairwise (· < ·) := by
  induction ts generalizing count parens brackets with
  | nil => exact pairwise_upTo count
  | cons t ts ih =>
    obtain heq | ⟨p, b, heq | heq⟩ := searches_cons count parens brackets t ts <;> rw [heq]
    · exact pairwise_upTo count
    · exact ih _ _ _
    · refine List.pairwise_append.mpr ⟨pairwise_upTo count, ih _ _ _, fun m hm n hn => ?_⟩
      obtain rfl := mem_upTo hm
      exact (mem_searches hn).1

/-! ## All sorts -/

theorem pairwise_toList (o : Option Nat) : o.toList.Pairwise (· < ·) := by
  cases o with
  | none => exact List.Pairwise.nil
  | some n => exact List.pairwise_singleton _ n

/-- A sort that takes one token asks for it. -/
theorem le_of_mem_one {member : Token → Bool} {n : Nat} {ts : List Token}
    (h : n ∈ if ts.head?.any member then [1] else []) : n ≤ ts.length := by
  cases ts with
  | nil => cases h
  | cons t ts =>
    split at h
    · obtain rfl := List.mem_singleton.mp h
      exact Nat.succ_le_succ (Nat.zero_le _)
    · cases h

theorem truthValue?_le {n : Nat} {ts : List Token} (h : truthValue? ts = some n) :
    n ≤ ts.length := by
  cases ts with
  | nil => cases h
  | cons t ts =>
    rw [truthValue?] at h
    split at h
    · cases h
      exact Nat.succ_le_succ (Nat.zero_le _)
    · exact value?_le (Option.filter_eq_some_iff.mp h).1

theorem number?_le {n : Nat} {ts : List Token} (h : number? ts = some n) : n ≤ ts.length := by
  cases ts with
  | nil => cases h
  | cons t ts =>
    rw [number?] at h
    split at h
    · cases h
      exact Nat.succ_le_succ (Nat.zero_le _)
    · cases ts with
      | nil =>
        rw [List.head?_nil, Option.any_none, Bool.and_false] at h
        cases h
      | cons u us =>
        split at h
        · cases h
          exact Nat.succ_le_succ (Nat.succ_le_succ (Nat.zero_le _))
        · cases h

/-- A value of any sort takes no more tokens than there are. -/
theorem le_length_of_mem {type : ParamType} {n : Nat} {ts : List Token}
    (h : n ∈ ofType type ts) : n ≤ ts.length := by
  have hone {o : Option Nat} (hle : o = some n → n ≤ ts.length) (hmem : n ∈ o.toList) :
      n ≤ ts.length := hle (Option.mem_toList.mp hmem)
  cases type with
  | field => exact hone run?_le h
  | wildcardField => exact hone run?_le h
  | fieldList => exact hone fieldList?_le h
  | string => exact le_of_mem_one h
  | number => exact hone number?_le h
  | integer => exact le_of_mem_one h
  | boolean => exact hone truthValue?_le h
  | timeSpan => exact hone value?_le h
  | expression => exact hone expression?_le h
  | searchExpression => exact Nat.zero_add ts.length ▸ (mem_searches h).2
  | subsearch => exact hone group?_le h
  | aggregation => exact hone aggregation?_le h
  | name => exact hone run?_le h
  | regex =>
    rw [ofType] at h
    split at h
    · exact le_of_mem_one (by rwa [if_pos ‹_›])
    · exact hone value?_le h
  | any =>
    rw [ofType] at h
    split at h
    · exact hone group?_le h
    · exact hone value?_le h

/-- The lengths that a value may have are told in rising order. -/
theorem pairwise_ofType (type : ParamType) (ts : List Token) :
    (ofType type ts).Pairwise (· < ·) := by
  cases type
  case searchExpression => exact pairwise_searches 0 0 0 ts
  case string | integer | regex | any =>
    rw [ofType]
    split <;> first
      | exact pairwise_toList _
      | exact List.pairwise_singleton _ _
      | exact List.Pairwise.nil
  all_goals exact pairwise_toList _

end SplQuery.Extent

import SplQuery.Proofs.Pattern.Matching
import SplQuery.Query.Parse

/-!
# A comma at the end

The grammar passes over a comma that stands at the end of a list. Most patterns do not: a comma
stands between two rounds of a repetition, and a round that has to take a token takes it from behind
the comma. So a stage that ends with a comma may be read without errors and still not match.

* `Extent.closed_ofType` — a value other than a search does not end with a comma.
* `Pattern.closesOff` — no stretch of the pattern ends with a comma.
* `interpretStage_trailing_comma` — a stage that ends with a comma does not match such a pattern.
* `no_permissive_patterns` — stages are read without errors that match no pattern.
-/

namespace SplQuery

/-- The token is a comma. -/
def Token.IsComma (t : Token) : Prop := t.kind = .comma ∧ t.text = ","

namespace Extent

variable {t : Token} {ts : List Token} {m n : Nat}

/-! ## The last token of a value -/

/-- Of the tokens ahead `n` are taken, one at least, and the last one is no comma. -/
def Closed (ts : List Token) (n : Nat) : Prop :=
  0 < n ∧ ∃ t, ts[n - 1]? = some t ∧ t.kind ≠ .comma

namespace Closed

theorem one (h : t.kind ≠ .comma) : Closed (t :: ts) 1 := ⟨Nat.one_pos, t, rfl, h⟩

/-- What follows may be taken as well, if it is closed or takes nothing. -/
theorem add (h : Closed ts m) (h' : n = 0 ∨ Closed (ts.drop m) n) : Closed ts (m + n) := by
  rcases h' with rfl | ⟨hn, u, hu, hcomma⟩
  · exact h
  · rw [List.getElem?_drop] at hu
    exact ⟨Nat.add_pos_right m hn, u, by rwa [Nat.add_sub_assoc hn], hcomma⟩

theorem cons (h : Closed ts n) : Closed (t :: ts) (n + 1) := by
  obtain ⟨hn, u, hu, hcomma⟩ := h
  obtain ⟨n, rfl⟩ := Nat.exists_eq_add_one_of_ne_zero (Nat.ne_of_gt hn)
  exact ⟨Nat.succ_pos _, u, hu, hcomma⟩

end Closed

/-- A lexeme of a class that holds no comma is none. -/
theorem ne_comma {p : Kind → Bool} (h : p t.kind = true) (hcomma : p .comma = false) :
    t.kind ≠ .comma := by
  intro hk
  rw [hk, hcomma] at h
  cases h

theorem closed_closing {opener closer : Kind} {depth : Nat} (hcloser : closer ≠ .comma)
    (h : closing opener closer depth ts = some n) : Closed ts n := by
  induction ts generalizing depth n with
  | nil => cases h
  | cons t ts ih =>
    have hrest {d : Nat} (hd : (closing opener closer d ts).map (· + 1) = some n) :
        Closed (t :: ts) n := by
      obtain ⟨m, hm, rfl⟩ := Option.map_eq_some_iff.mp hd
      exact (ih hm).cons
    rw [closing] at h
    split at h
    · exact hrest h
    · split at h
      · split at h
        · cases h
          exact .one (by simpa only [‹t.kind = closer›] using hcloser)
        · exact hrest h
      · exact hrest h

theorem closed_group? {opener closer : Kind} (hcloser : closer ≠ .comma)
    (h : group? opener closer ts = some n) : Closed ts n := by
  cases ts with
  | nil => cases h
  | cons t ts =>
    rw [group?] at h
    split at h
    · obtain ⟨m, hm, rfl⟩ := Option.map_eq_some_iff.mp h
      exact (closed_closing hcloser hm).cons
    · cases h

theorem closed_glued {continues : Kind → Bool} (hcomma : continues .comma = false)
    (before : Token) (ts : List Token) :
    glued continues before ts = 0 ∨ Closed ts (glued continues before ts) := by
  induction ts generalizing before with
  | nil => exact .inl rfl
  | cons t ts ih =>
    rw [glued]
    split
    case isTrue h =>
      have ht : t.kind ≠ .comma := ne_comma (Bool.and_eq_true_iff.mp h).2 hcomma
      exact .inr (Nat.add_comm 1 _ ▸ (Closed.one ht).add (ih t))
    case isFalse => exact .inl rfl

theorem closed_run? {starts continues : Kind → Bool} (hstarts : starts .comma = false)
    (hcontinues : continues .comma = false) (h : run? starts continues ts = some n) :
    Closed ts n := by
  cases ts with
  | nil => cases h
  | cons t ts =>
    rw [run?] at h
    split at h
    case isTrue ht =>
      cases h
      have hrest := closed_glued hcontinues t ts
      exact Nat.add_comm 1 _ ▸ (Closed.one (ne_comma ht hstarts)).add hrest
    case isFalse => cases h

theorem closed_field? (h : field? ts = some n) : Closed ts n := closed_run? rfl rfl h

/-- A group in parentheses and what follows it without a space. -/
theorem closed_groupThen {rest : Nat → Option Nat}
    (hrest : ∀ m r, closing .lparen .rparen 1 ts = some m → rest m = some r →
      r = 0 ∨ Closed (ts.drop m) r)
    (h : (do let m ← closing .lparen .rparen 1 ts; let r ← rest m; return m + 1 + r) = some n) :
    Closed (t :: ts) n := by
  obtain ⟨m, hm, h⟩ := Option.bind_eq_some_iff.mp h
  obtain ⟨r, hr, h⟩ := Option.bind_eq_some_iff.mp h
  cases h
  exact (closed_closing (by decide) hm).cons.add (hrest m r hm hr)

theorem closed_valueRest {before : Token} (h : valueRest before ts = some n) :
    n = 0 ∨ Closed ts n := by
  fun_induction valueRest before ts generalizing n with
  | case1 | case2 | case5 => cases h; exact .inl rfl
  | case3 before t ts _ _ ih => exact .inr (closed_groupThen (fun m _ _ hr => ih m hr) h)
  | case4 before t ts _ _ hglue ih =>
    obtain ⟨m, hm, rfl⟩ := Option.map_eq_some_iff.mp h
    exact .inr (Nat.add_comm 1 m ▸ (Closed.one (ne_comma hglue rfl)).add (ih hm))

theorem closed_value? (h : value? ts = some n) : Closed ts n := by
  cases ts with
  | nil => cases h
  | cons t ts =>
    rw [value?] at h
    split at h
    · exact closed_groupThen (fun _ _ _ hr => closed_valueRest hr) h
    · split at h
      case isTrue hglue =>
        obtain ⟨m, hm, rfl⟩ := Option.map_eq_some_iff.mp h
        exact Nat.add_comm 1 m ▸ (Closed.one (ne_comma hglue rfl)).add (closed_valueRest hm)
      case isFalse => cases h

/-! ## Lists of fields and expressions -/

/-- The commas before a field are passed together with it. -/
theorem closed_fieldListRest (fuel : Nat) (ts : List Token) :
    fieldListRest fuel ts = 0 ∨ Closed ts (fieldListRest fuel ts) := by
  induction fuel generalizing ts with
  | zero => exact .inl rfl
  | succ fuel ih =>
    rw [fieldListRest]
    split
    · exact .inl rfl
    · split
      · next n hn =>
        obtain ⟨hpos, u, hu, hcomma⟩ := (closed_field? hn).add (ih _)
        rw [List.getElem?_drop] at hu
        rw [Nat.add_assoc]
        exact .inr ⟨Nat.add_pos_right _ hpos, u, by rwa [Nat.add_sub_assoc hpos], hcomma⟩
      · exact .inl rfl

theorem closed_fieldList? (h : fieldList? ts = some n) : Closed ts n := by
  rw [fieldList?] at h
  split at h
  · cases h
  · obtain ⟨m, hm, rfl⟩ := Option.map_eq_some_iff.mp h
    exact (closed_field? hm).add (closed_fieldListRest _ _)

theorem closed_operand? (h : operand? ts = some n) : Closed ts n := by
  fun_induction operand? ts generalizing n with
  | case1 | case6 => cases h
  | case2 t ts _ ih =>
    obtain ⟨m, hm, rfl⟩ := Option.map_eq_some_iff.mp h
    exact (ih hm).cons
  | case3 => exact closed_group? (by decide) h
  | case4 =>
    obtain ⟨m, hm, rfl⟩ := Option.map_eq_some_iff.mp h
    exact (closed_group? (by decide) hm).cons
  | case5 t ts _ _ _ hvalue =>
    cases h
    refine .one fun ht => ?_
    rw [ht] at hvalue
    exact absurd hvalue (by decide)

theorem closed_operatorsRest (fuel : Nat) (ts : List Token) :
    operatorsRest fuel ts = 0 ∨ Closed ts (operatorsRest fuel ts) := by
  induction fuel generalizing ts with
  | zero => exact .inl rfl
  | succ fuel ih =>
    cases ts with
    | nil => exact .inl rfl
    | cons t ts =>
      rw [operatorsRest]
      split
      · exact .inl rfl
      · dsimp only
        split
        · next n hn =>
          have hoperand : Closed ts n := by
            split at hn
            · exact closed_group? (by decide) hn
            · exact closed_operand? hn
          exact .inr (hoperand.cons.add (ih _))
        · exact .inl rfl

theorem closed_expression? (h : expression? ts = some n) : Closed ts n := by
  obtain ⟨m, hm, rfl⟩ := Option.map_eq_some_iff.mp h
  exact (closed_operand? hm).add (closed_operatorsRest _ _)

theorem closed_aggregation? (h : aggregation? ts = some n) : Closed ts n := by
  cases ts with
  | nil => cases h
  | cons t ts =>
    rw [aggregation?] at h
    split at h
    · cases h
    · split at h
      · obtain ⟨m, hm, rfl⟩ := Option.map_eq_some_iff.mp h
        exact (closed_group? (by decide) hm).cons
      · cases h
        exact .one (ne_comma (by simpa using ‹¬(!t.kind.startsAggregation) = true›) rfl)

/-! ## All sorts but one -/

/-- A sort that takes one token takes it of a kind that is not the comma's. -/
theorem closed_of_mem_one {member : Token → Bool}
    (hmember : ∀ t, member t = true → t.kind ≠ .comma)
    (h : n ∈ if ts.head?.any member then [1] else []) : Closed ts n := by
  cases ts with
  | nil => cases h
  | cons t ts =>
    split at h
    · obtain rfl := List.mem_singleton.mp h
      exact .one (hmember t ‹_›)
    · cases h

theorem closed_truthValue? (h : truthValue? ts = some n) : Closed ts n := by
  cases ts with
  | nil => cases h
  | cons t ts =>
    rw [truthValue?] at h
    split at h
    case isTrue ht =>
      cases h
      exact .one fun hcomma => by rw [hcomma] at ht; cases ht
    case isFalse => exact closed_value? (Option.filter_eq_some_iff.mp h).1

theorem closed_number? (h : number? ts = some n) : Closed ts n := by
  cases ts with
  | nil => cases h
  | cons t ts =>
    rw [number?] at h
    split at h
    case isTrue ht =>
      cases h
      exact .one fun hcomma => by rw [hcomma] at ht; cases ht
    case isFalse =>
      split at h
      case isTrue hminus =>
        cases h
        rw [Bool.and_eq_true] at hminus
        cases ts with
        | nil => cases hminus.2
        | cons u us =>
          have hu := (Bool.and_eq_true_iff.mp hminus.2).1
          exact (Closed.one (ne_comma (p := (· == .numberLiteral)) hu rfl)).cons
      case isFalse => cases h

/-- A value of any sort other than a search takes a token at least, and the last one that it takes
is no comma. -/
theorem closed_ofType {type : ParamType} (htype : type ≠ .searchExpression)
    (h : n ∈ ofType type ts) : Closed ts n := by
  have hone {o : Option Nat} (hclosed : o = some n → Closed ts n) (hmem : n ∈ o.toList) :
      Closed ts n := hclosed (Option.mem_toList.mp hmem)
  have hquoted (t : Token) (ht : (t.kind == .stringLiteral) = true) : t.kind ≠ .comma :=
    ne_comma (p := (· == .stringLiteral)) ht rfl
  cases type with
  | field => exact hone closed_field? h
  | wildcardField => exact hone closed_field? h
  | fieldList => exact hone closed_fieldList? h
  | string => exact closed_of_mem_one hquoted h
  | number => exact hone closed_number? h
  | integer =>
    refine closed_of_mem_one (fun t ht => ?_) h
    exact ne_comma (p := (· == .numberLiteral)) (Bool.and_eq_true_iff.mp ht).1 rfl
  | boolean => exact hone closed_truthValue? h
  | timeSpan => exact hone closed_value? h
  | expression => exact hone closed_expression? h
  | searchExpression => exact absurd rfl htype
  | subsearch => exact hone (closed_group? (by decide)) h
  | aggregation => exact hone closed_aggregation? h
  | name => exact hone (closed_run? rfl rfl) h
  | regex =>
    rw [ofType] at h
    split at h
    · exact closed_of_mem_one hquoted (by rwa [if_pos ‹_›])
    · exact hone closed_value? h
  | any =>
    rw [ofType] at h
    split at h
    · exact hone (closed_group? (by decide)) h
    · exact hone closed_value? h

/-- A value of any sort takes a token at least. -/
theorem pos_of_mem {type : ParamType} (h : n ∈ ofType type ts) : 0 < n := by
  by_cases htype : type = .searchExpression
  · subst htype
    exact pos_of_mem_searches h
  · exact (closed_ofType htype h).1

end Extent

namespace Pattern

variable {tokens : List Token} {i j k : Nat}

/-! ## Patterns that do not end with a comma -/

mutual

/-- The pattern takes a token at least. -/
def isSolid : Pattern → Bool
  | .keyword _ => true
  | .param q => q.type != .searchExpression
  | .seq items => anySolid items
  | .optional _ => false
  | .repeated _ _ min => 0 < min
  | .choice alternatives => areSolid alternatives
  | .options _ => false

/-- One of the patterns takes a token at least. -/
def anySolid : List Pattern → Bool
  | [] => false
  | item :: items => item.isSolid || anySolid items

/-- Each of the patterns takes a token at least. -/
def areSolid : List Pattern → Bool
  | [] => true
  | item :: items => item.isSolid && areSolid items

end

mutual

/-- No stretch that the pattern takes ends with a comma: no keyword is one, no search is taken, and
a separator is never the last token of a round. -/
def closesOff : Pattern → Bool
  | .keyword text => !Text.sameName "," text
  | .param q => q.type != .searchExpression
  | .seq items => allCloseOff items
  | .optional item => item.closesOff
  | .repeated item separator _ => item.closesOff && (separator.isNone || item.isSolid)
  | .choice alternatives => allCloseOff alternatives
  | .options _ => true

/-- Each of the patterns closes off. -/
def allCloseOff : List Pattern → Bool
  | [] => true
  | item :: items => item.closesOff && allCloseOff items

end

theorem isSolid_of_mem {item : Pattern} {items : List Pattern} (hmem : item ∈ items)
    (h : areSolid items = true) : item.isSolid = true := by
  induction items with
  | nil => cases hmem
  | cons first items ih =>
    rw [areSolid, Bool.and_eq_true] at h
    rcases List.mem_cons.mp hmem with rfl | hmem
    · exact h.1
    · exact ih hmem h.2

theorem closesOff_of_mem {item : Pattern} {items : List Pattern} (hmem : item ∈ items)
    (h : allCloseOff items = true) : item.closesOff = true := by
  induction items with
  | nil => cases hmem
  | cons first items ih =>
    rw [allCloseOff, Bool.and_eq_true] at h
    rcases List.mem_cons.mp hmem with rfl | hmem
    · exact h.1
    · exact ih hmem h.2

theorem closed_param {q : Param} {n : Nat} (hq : (q.type != .searchExpression) = true)
    (h : n ∈ Extent.ofType q.type (tokens.drop i)) : Extent.Closed (tokens.drop i) n :=
  Extent.closed_ofType (bne_iff_ne.mp hq) h

theorem Takes.lt_of_isSolid {pattern : Pattern} (h : Takes tokens pattern i j)
    (hsolid : pattern.isSolid = true) : i < j := by
  induction h using Takes.rec (motive_2 := fun _ _ _ _ _ _ => True) with
  | keyword _ => exact Nat.lt_succ_self _
  | param hmem => exact Nat.lt_add_of_pos_right (closed_param hsolid hmem).1
  | seqNil => cases hsolid
  | seqCons hitem hrest ih ihrest =>
    rw [isSolid, anySolid, Bool.or_eq_true] at hsolid
    rcases hsolid with hsolid | hsolid
    · exact Nat.lt_of_lt_of_le (ih hsolid) hrest.stretch.le
    · exact Nat.lt_of_le_of_lt hitem.stretch.le (ihrest hsolid)
  | absent | present | noOption | option => cases hsolid
  | choice hmem _ ih => exact ih (isSolid_of_mem hmem hsolid)
  | repeated hrounds hmin _ =>
    have hone : 0 < _ := of_decide_eq_true hsolid
    have hle := hrounds.add_le
    omega
  | none => trivial
  | item => trivial
  | separated => trivial

/-- A stretch of the tokens that does not end with a comma. -/
structure Sealed (tokens : List Token) (i j : Nat) : Prop where
  le : i ≤ j
  last : i < j → ∀ t, tokens[j - 1]? = some t → ¬ t.IsComma

namespace Sealed

theorem refl (i : Nat) : Sealed tokens i i :=
  ⟨Nat.le_refl i, fun h => absurd h (Nat.lt_irrefl i)⟩

theorem trans (h : Sealed tokens i j) (h' : Sealed tokens j k) : Sealed tokens i k := by
  refine ⟨Nat.le_trans h.le h'.le, fun hik => ?_⟩
  rcases Nat.eq_or_lt_of_le h'.le with rfl | hlt
  · exact h.last hik
  · exact h'.last hlt

/-- Only the last part matters if it takes a token. -/
theorem of_lt (hij : i ≤ j) (hjk : j < k) (h : Sealed tokens j k) : Sealed tokens i k :=
  ⟨Nat.le_trans hij h.le, fun _ => h.last hjk⟩

theorem of_closed {n : Nat} (h : Extent.Closed (tokens.drop i) n) : Sealed tokens i (i + n) := by
  obtain ⟨hn, t, ht, hcomma⟩ := h
  rw [List.getElem?_drop, ← Nat.add_sub_assoc hn] at ht
  refine ⟨Nat.le_add_right i n, fun _ u hu hcomma' => hcomma ?_⟩
  cases ht.symm.trans hu
  exact hcomma'.1

theorem keyword {text : String} (htext : Text.sameName "," text = false)
    (h : hasText tokens i text = true) : Sealed tokens i (i + 1) := by
  refine ⟨Nat.le_succ i, fun _ t ht hcomma => ?_⟩
  rw [hasText, show tokens[i]? = some t from ht, Option.any_some, hcomma.2, htext] at h
  cases h

end Sealed

/-- No stretch of such a pattern ends with a comma. -/
theorem Takes.sealed {pattern : Pattern} (h : Takes tokens pattern i j)
    (hcloses : pattern.closesOff = true) : Sealed tokens i j := by
  induction h using Takes.rec (motive_2 := fun item separator i _ j _ =>
      item.closesOff = true → (separator.isNone || item.isSolid) = true → Sealed tokens i j) with
  | keyword h => exact .keyword (by simpa [closesOff] using hcloses) h
  | param hmem => exact .of_closed (closed_param hcloses hmem)
  | seqNil => exact .refl _
  | seqCons _ _ ih ihrest =>
    rw [closesOff, allCloseOff, Bool.and_eq_true] at hcloses
    exact (ih hcloses.1).trans (ihrest hcloses.2)
  | absent => exact .refl _
  | present _ ih => exact ih hcloses
  | choice hmem _ ih => exact ih (closesOff_of_mem hmem hcloses)
  | repeated _ _ ih =>
    rw [closesOff, Bool.and_eq_true] at hcloses
    exact ih hcloses.1 hcloses.2
  | noOption => exact .refl _
  | option hat hvalue _ ih =>
    -- a word and an equals sign stand before the value, which takes a token
    have hword := Sealed.of_closed (Extent.closed_value? hvalue)
    exact (hword.of_lt (Nat.le_add_right _ 2)
      (Nat.lt_add_of_pos_right (Extent.closed_value? hvalue).1)).trans (ih hcloses)
  | none => exact .refl _
  | item _ _ _ ih ihitem hcloses hsolid => exact (ih hcloses hsolid).trans (ihitem hcloses)
  | separated hbefore _ hseparator hitem _ ih ihitem hcloses hsolid =>
    -- the separator is not the last token of the round, for the item takes one behind it
    refine (ih hcloses hsolid).trans ?_
    rcases Bool.or_eq_true_iff.mp hsolid with hnone | hitemSolid
    · rw [Option.isNone_iff_eq_none.mp hnone] at hseparator
      cases hseparator
    · exact (ihitem hcloses).of_lt (Nat.le_succ _) (hitem.lt_of_isSolid hitemSolid)

end Pattern

/-- **A stage that ends with a comma matches no pattern that closes off**, whatever stands before
the comma. -/
theorem interpretStage_trailing_comma {s : CommandSyntax} (hcloses : s.pattern.closesOff = true)
    {word comma : Token} {arguments : List Token} (hcomma : comma.IsComma) :
    (s.interpretStage (word :: (arguments ++ [comma]))).matched = false := by
  rw [CommandSyntax.interpretStage]
  split
  case isFalse => rfl
  case isTrue =>
    refine Bool.eq_false_iff.mpr fun hmatched => ?_
    have hsealed := (Pattern.takes_of_matched hmatched).sealed hcloses
    have hlast := hsealed.last (by simp) comma (by simp)
    exact hlast hcomma

/-- A list of fields with a comma behind it. -/
theorem interpretStage_trailing_comma_table :
    (Registry.value "fields" .fieldList).closesOff = true ∧
      Token.IsComma ⟨.comma, ",", default⟩ ∧
      (CommandSyntax.interpretStage ⟨"table", [], "", Registry.value "fields" .fieldList⟩
        [⟨.command .table, "table", default⟩, ⟨.identifier, "a", default⟩,
          ⟨.comma, ",", default⟩]).matched = false :=
  have hcloses : (Registry.value "fields" .fieldList).closesOff = true := by decide
  have hcomma : Token.IsComma ⟨.comma, ",", default⟩ := ⟨rfl, rfl⟩
  ⟨hcloses, hcomma, @interpretStage_trailing_comma
    ⟨"table", [], "", Registry.value "fields" .fieldList⟩ hcloses _ _
    [⟨.identifier, "a", default⟩] hcomma⟩

/-- The commands with a shape of their own whose patterns close off. -/
example : ((CommandWord.all.filter fun w => Grammar.shapeOf w != .keywordCommand).filter fun w =>
    (CommandSyntax.find? w.spelling).any (·.pattern.closesOff)).map (·.spelling) =
      ["where", "eval", "fieldformat", "rename", "rex", "regex", "lookup", "table", "fields",
        "head", "return", "strcat", "replace", "trendline"] := by
  decide +kernel

/-- The patterns accept less than the grammar. -/
theorem no_permissive_patterns : ¬ ∀ (stage : String) (limit : Nat) (w : CommandWord),
    Grammar.shapeOf w ≠ .keywordCommand →
      (tokenize stage).tokens.head?.map (·.kind) = some (.command w) →
      (parseQuery ("| " ++ stage) limit).success = true →
      (parseQuery ("| " ++ stage) limit).query.stages.length = 1 →
      (CommandSyntax.find? w.spelling).any
        (fun s => (s.interpretStage (tokenize stage).tokens).matched) = true := by
  intro h
  have hmatched := h "eval a=1," 2 .eval (by decide) (by decide +kernel) (by decide +kernel)
    (by decide +kernel)
  exact absurd hmatched (by decide +kernel)

end SplQuery

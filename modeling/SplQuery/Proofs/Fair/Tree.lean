import SplQuery.Diagnostic.Basic
import SplQuery.Meaning.Pipeline
import SplQuery.Proofs.Made.Alike
import SplQuery.Proofs.Tree.Cores

/-!
# Fair trees

What a parse owes to those who read its tree. A node of most shapes has a lexeme that is no trivia;
one that may have none, a search or a query, then has nothing in it at all, and stands directly
beside a lexeme. What gets another name comes first under its node. What was passed over is under an
`error` node, and its place has been told. Where nothing was found wrong, a query has one stage for
each pipe, and one more if it does not begin with a pipe.

* `Tree.Fair` — a node of this kind, given what has been reported.
* `Told` — what is at a place has been told.
* `Tree.SeatedSoFar` — trees that are put after one another.
-/

namespace SplQuery

namespace Shape

/-- A node of this shape is put in by any production, or it is a query between brackets. -/
def isPlain (s : Shape) : Bool := !s.isSpecial || s == .subsearch

/-- A node of this shape has a lexeme that is no trivia. -/
def isSolid (s : Shape) : Bool := !s.mayBeHollow && (s.isPlain || s == .aliasedField)

theorem isPlain_of_not_special {s : Shape} (h : s.isSpecial = false) : s.isPlain = true := by
  rw [isPlain, h]
  rfl

theorem isSolid_of_hollow {s : Shape} (h : s.mayBeHollow = true) : s.isSolid = false := by
  rw [isSolid, h]
  rfl

end Shape

/-- A diagnostic is about the place, or the limit on nesting was reported. -/
def Told (reports : List Diagnostic) (place : Nat) : Prop :=
  ∃ d ∈ reports, d.kind = .recursionLimitExceeded ∨ d.span.start ≤ place ∧ place < d.span.stop

theorem Told.mono {reports reports' : List Diagnostic} {place : Nat}
    (hreports : ∀ d ∈ reports, d ∈ reports') (h : Told reports place) : Told reports' place := by
  obtain ⟨d, hd, htold⟩ := h
  exact ⟨d, hreports d hd, htold⟩

theorem eq_nil_of_reports {reports reports' : List Diagnostic}
    (hreports : ∀ d ∈ reports, d ∈ reports') (hnone : reports' = []) : reports = [] := by
  have hsubset : reports ⊆ reports' := fun _ hd => hreports _ hd
  exact List.subset_nil.mp (hnone ▸ hsubset)

/-! ## Nodes -/

namespace Tree

/-- A search or a query with nothing in it. -/
def isVoid : Tree → Bool
  | .node .pipeline [] | .node .searchExpr [] => true
  | _ => false

theorem isVoid_of_plain {shape : Shape} {children : List Tree} (h : shape.isPlain = true) :
    (node shape children).isVoid = false := by
  cases shape <;> first | rfl | cases h

theorem isVoid_of_token {shape : Shape} {children : List Tree} (h : hasToken children = true) :
    (node shape children).isVoid = false := by
  cases children with
  | nil => cases h
  | cons t ts => cases shape <;> rfl

/-- What stands for a stage of a query. -/
def isStage (t : Tree) : Bool := (Part.mk (t.place 0) (t.place 0).meaning).stage?.isSome

theorem isStage_node {shape : Shape} {children : List Tree}
    (h : (shape == .searchExpr || shape.isCommand) = true) :
    (node shape children).isStage = true := by
  cases shape <;> first | rfl | cases h

/-- A pipe by itself. -/
def isPipe : Tree → Bool
  | .leaf kind _ => kind == .pipe
  | .node _ _ => false

/-- The number of stages of a query before its first pipe: one, unless a pipe or nothing comes
first. -/
def leading (ts : List Tree) : Nat :=
  if ((leavesOfAll ts).find? (!·.1.isTrivia)).any (·.1 != .pipe) then 1 else 0

/-- The trees end with a lexeme that is no trivia. -/
def EndsSolid (ts : List Tree) : Prop :=
  ∃ us kind text, ts = us ++ [.leaf kind text] ∧ kind.isTrivia = false

/-- The trees begin with a lexeme that is no trivia. -/
def BeginsSolid (ts : List Tree) : Prop :=
  ∃ kind text, (leavesOfAll ts).head? = some (kind, text) ∧ kind.isTrivia = false

theorem hasToken_of_begins {ts : List Tree} (h : BeginsSolid ts) : hasToken ts = true := by
  obtain ⟨kind, text, hhead, hkind⟩ := h
  refine List.any_eq_true.mpr ⟨(kind, text), List.mem_of_mem_head? hhead, ?_⟩
  rw [hkind]
  rfl

/-- What has nothing in it stands directly beside a lexeme. -/
def Seated (ts : List Tree) : Prop :=
  ∀ pre t post, ts = pre ++ t :: post → t.isVoid = true → EndsSolid pre ∨ BeginsSolid post

/-- What a parse owes of a node, given its reports, where the node starts, its shape and its
children. -/
structure Fair (reports : List Diagnostic) (start : Nat) (shape : Shape) (children : List Tree) :
    Prop where
  solid : shape.isSolid = true → hasToken children = true
  bare : shape = .pipeline ∨ shape = .searchExpr → hasToken children = true ∨ children = []
  seated : shape.isWrapped = false → Seated children
  told : shape = .error → reports ≠ [] ∧
    ∀ c ∈ Placed.coreOfAll (placeAll start children), Told reports c.start
  balanced : shape = .pipeline → reports = [] →
    children.countP isStage = children.countP isPipe + leading children
  inner : shape ≠ .root
  named : shape = .aliasedField →
    ∃ part inside rest, children = node part inside :: rest ∧ hasToken inside = true

/-- Reports that are added do not make a node less fair. -/
theorem Fair.mono {reports reports' : List Diagnostic} {start : Nat} {shape : Shape}
    {children : List Tree} (hreports : ∀ d ∈ reports, d ∈ reports')
    (h : Fair reports start shape children) : Fair reports' start shape children := by
  have hnil := eq_nil_of_reports hreports
  exact ⟨h.solid, h.bare, h.seated,
    fun herror => ⟨fun hnone => (h.told herror).1 (hnil hnone),
      fun c hc => ((h.told herror).2 c hc).mono hreports⟩,
    fun hpipeline hnone => h.balanced hpipeline (hnil hnone), h.inner, h.named⟩

/-- A node whose shape asks for nothing else is fair with a lexeme that is no trivia in it. -/
theorem fair_of_plain {reports : List Diagnostic} {start : Nat} {shape : Shape}
    {children : List Tree} (hplain : shape.isPlain = true)
    (htoken : shape.isSolid = true → hasToken children = true)
    (hseated : shape.isWrapped = false → Seated children) :
    Fair reports start shape children := by
  refine ⟨htoken, ?_, hseated, ?_, ?_, ?_, ?_⟩
  · rintro (rfl | rfl) <;> cases hplain
  all_goals
    rintro rfl
    cases hplain

/-! ## Trees that are put after one another -/

/-- As `Seated`, of trees of which the last comes first, and which others may follow. -/
def SeatedSoFar : List Tree → Prop
  | [] => True
  | t :: ts => (t.isVoid = true → EndsSolid ts.reverse) ∧ SeatedSoFar ts

theorem SeatedSoFar.seated {ts : List Tree} (h : SeatedSoFar ts) : Seated ts.reverse := by
  induction ts with
  | nil =>
    intro pre t post hts
    rw [List.reverse_nil, List.nil_eq_append_iff] at hts
    cases hts.2
  | cons t ts ih =>
    intro pre u post hts hu
    rw [List.reverse_cons] at hts
    rcases List.eq_nil_or_concat post with rfl | ⟨post, v, rfl⟩
    · obtain ⟨hpre, hlast⟩ := List.append_inj' hts rfl
      cases hlast
      exact .inl (hpre ▸ h.1 hu)
    · rw [List.concat_eq_append, ← List.cons_append, ← List.append_assoc] at hts
      obtain ⟨hpre, hlast⟩ := List.append_inj' hts rfl
      refine (ih h.2 pre u post hpre hu).imp_right fun ⟨kind, text, hhead, hkind⟩ => ?_
      refine ⟨kind, text, ?_, hkind⟩
      rw [List.concat_eq_append, leavesOfAll_append, List.head?_append, hhead]
      rfl

theorem seatedSoFar_leaves (ls : List Lexeme) {ts : List Tree} (h : SeatedSoFar ts) :
    SeatedSoFar ((ls.map State.leaf).reverse ++ ts) := by
  induction ls generalizing ts with
  | nil => exact h
  | cons l ls ih =>
    rw [List.map_cons, List.reverse_cons, List.append_assoc]
    have hleaf : (State.leaf l).isVoid = true → EndsSolid ts.reverse := fun hvoid => by cases hvoid
    exact ih ⟨hleaf, h⟩

theorem SeatedSoFar.drop {ts : List Tree} (h : SeatedSoFar ts) (n : Nat) :
    SeatedSoFar (ts.drop n) := by
  induction n generalizing ts with
  | zero => exact h
  | succ n ih =>
    cases ts with
    | nil => trivial
    | cons t ts => exact ih h.2

/-- Without a node that has nothing in it there is nothing to stand beside a lexeme. -/
theorem seated_of_none {ts : List Tree} (h : ∀ t ∈ ts, t.isVoid = false) : Seated ts := by
  rintro pre t post rfl ht
  rw [h t (List.mem_append_right _ List.mem_cons_self)] at ht
  cases ht

/-- Trees may follow among which there is no node with nothing in it. -/
theorem Seated.append {ts us : List Tree} (h : Seated ts) (hus : ∀ u ∈ us, u.isVoid = false) :
    Seated (ts ++ us) := by
  intro pre t post hsplit ht
  rcases List.append_eq_append_iff.mp hsplit.symm with ⟨mid, rfl, hpost⟩ | ⟨mid, -, hus'⟩
  · rcases mid with _ | ⟨u, mid⟩
    · rw [List.nil_append] at hpost
      rw [hus t (hpost ▸ List.mem_cons_self)] at ht
      cases ht
    · obtain ⟨rfl, rfl⟩ := List.cons.inj hpost
      refine (h pre t mid rfl ht).imp_right fun ⟨kind, text, hhead, hkind⟩ =>
        ⟨kind, text, ?_, hkind⟩
      change (leavesOfAll (mid ++ us)).head? = _
      rw [leavesOfAll_append, List.head?_append, hhead]
      rfl
  · rw [hus t (hus' ▸ List.mem_append_right _ List.mem_cons_self)] at ht
    cases ht

/-- A node with nothing in it may stand directly before a lexeme. -/
theorem seated_of_begins {ts : List Tree} {t : Tree} (us : List Tree)
    (hts : ∀ u ∈ ts, u.isVoid = false)
    (hus : ∀ u ∈ us, u.isVoid = false) (hbegins : BeginsSolid us) : Seated (ts ++ t :: us) := by
  intro pre u post hsplit hu
  rcases List.append_eq_append_iff.mp hsplit.symm with ⟨mid, rfl, hpost⟩ | ⟨mid, rfl, hpost⟩
  · rcases mid with _ | ⟨v, mid⟩
    · obtain ⟨-, rfl⟩ := List.cons.inj hpost
      exact .inr hbegins
    · obtain ⟨rfl, -⟩ := List.cons.inj hpost
      rw [hts u (List.mem_append_right _ List.mem_cons_self)] at hu
      cases hu
  · rcases mid with _ | ⟨v, mid⟩
    · obtain ⟨-, rfl⟩ := List.cons.inj hpost
      exact .inr hbegins
    · obtain ⟨-, rfl⟩ := List.cons.inj hpost
      rw [hus u (List.mem_append_right _ List.mem_cons_self)] at hu
      cases hu

/-! ## Stages and pipes -/

/-- How many more stages there are than pipes. -/
def balance (ts : List Tree) : Int := ts.countP isStage - ts.countP isPipe

theorem balance_append (ts us : List Tree) : balance (ts ++ us) = balance ts + balance us := by
  rw [balance, balance, balance, List.countP_append, List.countP_append]
  omega

theorem balance_reverse (ts : List Tree) : balance ts.reverse = balance ts := by
  rw [balance, balance, List.countP_reverse, List.countP_reverse]

theorem balance_trivia {ls : List Lexeme} (h : ∀ l ∈ ls, l.isTrivia = true) :
    balance (ls.map State.leaf) = 0 := by
  induction ls with
  | nil => rfl
  | cons l ls ih =>
    have hl : l.kind.isTrivia = true := h l List.mem_cons_self
    have hleaf : balance [State.leaf l] = 0 := by
      have hpipe : (State.leaf l).isPipe = false := beq_eq_false_iff_ne.mpr fun hkind => by
        rw [hkind] at hl
        cases hl
      rw [balance, List.countP_singleton, List.countP_singleton, hpipe]
      rfl
    rw [List.map_cons, ← List.singleton_append, balance_append, hleaf,
      ih fun m hm => h m (List.mem_cons_of_mem l hm)]
    rfl

end Tree

end SplQuery

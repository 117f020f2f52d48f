import SplQuery.Proofs.Tree.Cores
import SplQuery.Query.Pipeline

/-!
# Queries that lie within stretches

A query says of its parts where they stand. `Lies` says of a part that it stands within a stretch,
and that all that it is made of stands within it in turn, each part within the part that it belongs
to. The stages of a query come one after another. Parts that do not say where they stand, such as a
command, are looked through: what they are made of lies within the same stretch.

* `Expression.Lies`, `SimpleCommand.Lies`, `Pipeline.Lies` — what lies within a stretch.
* `Expression.Lies.mono`, `Term.Lies.mono`, … — and so within a wider one.
-/

namespace SplQuery

open SplQuery.Span

/-! ## Expressions -/

/-- The field stands within a stretch. -/
def FieldRef.Lies (outer : Span) (r : FieldRef) : Prop := r.span.Within outer

namespace Expression

mutual

/-- The expression stands within a stretch, and all under it stands within what it belongs to. -/
def Lies (outer : Span) : Expression → Prop
  | .binary _ left right span => span.Within outer ∧ left.Lies span ∧ right.Lies span
  | .unary _ operand span => span.Within outer ∧ operand.Lies span
  | .call _ arguments span => span.Within outer ∧ LiesAll span arguments
  | .field ref => ref.Lies outer
  | .string _ span | .number _ span | .boolean _ span | .time _ span => span.Within outer

/-- The expressions lie within a stretch. -/
def LiesAll (outer : Span) : List Expression → Prop
  | [] => True
  | e :: es => e.Lies outer ∧ LiesAll outer es

end

variable {outer wider : Span}

theorem liesAll_iff {es : List Expression} : LiesAll outer es ↔ ∀ e ∈ es, e.Lies outer := by
  induction es with
  | nil => exact ⟨fun _ => nofun, fun _ => trivial⟩
  | cons e es ih => rw [LiesAll, ih, List.forall_mem_cons]

theorem Lies.mono {e : Expression} (h : e.Lies outer) (hwider : outer.Within wider) :
    e.Lies wider := by
  cases e with
  | binary => exact ⟨h.1.trans hwider, h.2⟩
  | unary => exact ⟨h.1.trans hwider, h.2⟩
  | call => exact ⟨h.1.trans hwider, h.2⟩
  | field ref => exact Within.trans (s := ref.span) h hwider
  | string => exact Within.trans h hwider
  | number => exact Within.trans h hwider
  | boolean => exact Within.trans h hwider
  | time => exact Within.trans h hwider

end Expression

/-! ## Parts of commands -/

/-- The assignment stands within a stretch, and the expression within it. -/
def Assignment.Lies (outer : Span) (a : Assignment) : Prop :=
  a.span.Within outer ∧ a.expression.Lies a.span

/-- The aggregation stands within a stretch, and the arguments within it. -/
def Aggregation.Lies (outer : Span) (a : Aggregation) : Prop :=
  a.span.Within outer ∧ ∀ e ∈ a.arguments, e.Lies a.span

/-- Something to sort by stands within a stretch. -/
def SortKey.Lies (outer : Span) (k : SortKey) : Prop := k.span.Within outer

/-- The conversion stands within a stretch. -/
def Conversion.Lies (outer : Span) (c : Conversion) : Prop := c.span.Within outer

/-- The renaming stands within a stretch. -/
def Renaming.Lies (outer : Span) (r : Renaming) : Prop := r.span.Within outer

/-- What a command without nested queries is made of lies within a stretch. -/
def SimpleCommand.Lies (outer : Span) : SimpleCommand → Prop
  | .eval assignments | .fieldformat assignments => ∀ a ∈ assignments, a.Lies outer
  | .convert _ conversions => ∀ c ∈ conversions, c.Lies outer
  | .strcat sources _ _ => ∀ e ∈ sources, e.Lies outer
  | .whereCommand condition | .head _ condition _ => ∀ e ∈ condition, e.Lies outer
  | .table listed | .fields _ listed => ∀ r ∈ listed, r.Lies outer
  | .dedup _ listed sortBy _ => (∀ r ∈ listed, r.Lies outer) ∧ ∀ k ∈ sortBy, k.Lies outer
  | .sort _ keys _ => ∀ k ∈ keys, k.Lies outer
  | .rename renamings => ∀ r ∈ renamings, r.Lies outer
  | .stats _ aggregations byFields overField _ =>
    (∀ a ∈ aggregations, a.Lies outer) ∧ (∀ r ∈ byFields, r.Lies outer) ∧
      ∀ r ∈ overField, r.Lies outer
  | .top _ _ listed byFields _ =>
    (∀ r ∈ listed, r.Lies outer) ∧ ∀ r ∈ byFields, r.Lies outer
  | _ => True

/-! ## Queries -/

mutual

/-- The query stands within a stretch, its stages lie within it, and each ends before the next one
starts. -/
def Pipeline.Lies (outer : Span) : Pipeline → Prop
  | .mk stages span => span.Within outer ∧ Stage.LiesAll span stages ∧
    stages.Pairwise fun s t => s.span.stop ≤ t.span.start

/-- The stage stands within a stretch, and what it is made of within it. -/
def Stage.Lies (outer : Span) : Stage → Prop
  | .search search => search.Lies outer
  | .command command span => span.Within outer ∧ command.Lies span

/-- The stages lie within a stretch. -/
def Stage.LiesAll (outer : Span) : List Stage → Prop
  | [] => True
  | s :: ss => s.Lies outer ∧ Stage.LiesAll outer ss

/-- The search stands within a stretch, and its terms lie within it. -/
def Search.Lies (outer : Span) : Search → Prop
  | .mk terms span => span.Within outer ∧ Term.LiesAll span terms

/-- The term stands within a stretch, and what it is made of within it. -/
def Term.Lies (outer : Span) : Term → Prop
  | .or operands span => span.Within outer ∧ Term.LiesAll span operands
  | .not operand span => span.Within outer ∧ operand.Lies span
  | .group terms span => span.Within outer ∧ Term.LiesAll span terms
  | .comparison _ _ _ span | .oneOf _ _ span | .keyword _ _ span | .macroCall _ _ span =>
    span.Within outer
  | .subsearch query span => span.Within outer ∧ query.Lies span

/-- The terms lie within a stretch. -/
def Term.LiesAll (outer : Span) : List Term → Prop
  | [] => True
  | t :: ts => t.Lies outer ∧ Term.LiesAll outer ts

/-- What the command is made of lies within a stretch. -/
def Command.Lies (outer : Span) : Command → Prop
  | .simple command => command.Lies outer
  | .search search => search.Lies outer
  | .tstats aggregations _ condition byFields _ =>
    (∀ a ∈ aggregations, a.Lies outer) ∧ Search.Lies? outer condition ∧
      ∀ r ∈ byFields, r.Lies outer
  | .inputlookup _ condition _ => Search.Lies? outer condition
  | .join _ fields _ query => (∀ r ∈ fields, r.Lies outer) ∧ Pipeline.Lies? outer query
  | .append _ _ query | .map _ _ query => Pipeline.Lies? outer query
  | .foreach fields _ body => (∀ r ∈ fields, r.Lies outer) ∧ Pipeline.Lies? outer body
  | .union _ _ queries | .multisearch queries | .generic _ _ _ queries =>
    Pipeline.LiesAll outer queries

/-- The search, if there is one, lies within a stretch. -/
def Search.Lies? (outer : Span) : Option Search → Prop
  | none => True
  | some s => s.Lies outer

/-- The query, if there is one, lies within a stretch. -/
def Pipeline.Lies? (outer : Span) : Option Pipeline → Prop
  | none => True
  | some p => p.Lies outer

/-- The queries lie within a stretch. -/
def Pipeline.LiesAll (outer : Span) : List Pipeline → Prop
  | [] => True
  | p :: ps => p.Lies outer ∧ Pipeline.LiesAll outer ps

end

variable {outer wider : Span}

theorem Stage.liesAll_iff {ss : List Stage} : Stage.LiesAll outer ss ↔ ∀ s ∈ ss, s.Lies outer := by
  induction ss with
  | nil => exact ⟨fun _ => nofun, fun _ => trivial⟩
  | cons s ss ih => rw [LiesAll, ih, List.forall_mem_cons]

theorem Term.liesAll_iff {ts : List Term} : Term.LiesAll outer ts ↔ ∀ t ∈ ts, t.Lies outer := by
  induction ts with
  | nil => exact ⟨fun _ => nofun, fun _ => trivial⟩
  | cons t ts ih => rw [LiesAll, ih, List.forall_mem_cons]

theorem Pipeline.liesAll_iff {ps : List Pipeline} :
    Pipeline.LiesAll outer ps ↔ ∀ p ∈ ps, p.Lies outer := by
  induction ps with
  | nil => exact ⟨fun _ => nofun, fun _ => trivial⟩
  | cons p ps ih => rw [LiesAll, ih, List.forall_mem_cons]

theorem Search.lies?_iff {s : Option Search} : Search.Lies? outer s ↔ ∀ t ∈ s, t.Lies outer := by
  cases s with
  | none => exact ⟨fun _ => nofun, fun _ => trivial⟩
  | some s => exact ⟨fun h _ ht => Option.some.inj ht ▸ h, fun h => h s rfl⟩

theorem Pipeline.lies?_iff {p : Option Pipeline} :
    Pipeline.Lies? outer p ↔ ∀ q ∈ p, q.Lies outer := by
  cases p with
  | none => exact ⟨fun _ => nofun, fun _ => trivial⟩
  | some p => exact ⟨fun h _ hq => Option.some.inj hq ▸ h, fun h => h p rfl⟩

/-! ## Wider stretches -/

theorem Assignment.Lies.mono {a : Assignment} (h : a.Lies outer) (hwider : outer.Within wider) :
    a.Lies wider := ⟨h.1.trans hwider, h.2⟩

theorem Aggregation.Lies.mono {a : Aggregation} (h : a.Lies outer) (hwider : outer.Within wider) :
    a.Lies wider := ⟨h.1.trans hwider, h.2⟩

theorem Pipeline.Lies.mono {p : Pipeline} (h : p.Lies outer) (hwider : outer.Within wider) :
    p.Lies wider := by
  cases p with
  | mk => exact ⟨h.1.trans hwider, h.2⟩

theorem Search.Lies.mono {s : Search} (h : s.Lies outer) (hwider : outer.Within wider) :
    s.Lies wider := by
  cases s with
  | mk => exact ⟨h.1.trans hwider, h.2⟩

theorem Term.Lies.mono {t : Term} (h : t.Lies outer) (hwider : outer.Within wider) :
    t.Lies wider := by
  cases t with
  | or => exact ⟨h.1.trans hwider, h.2⟩
  | not => exact ⟨h.1.trans hwider, h.2⟩
  | group => exact ⟨h.1.trans hwider, h.2⟩
  | comparison => exact Within.trans h hwider
  | oneOf => exact Within.trans h hwider
  | keyword => exact Within.trans h hwider
  | macroCall => exact Within.trans h hwider
  | subsearch => exact ⟨h.1.trans hwider, h.2⟩

end SplQuery

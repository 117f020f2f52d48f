import SplQuery.Query.Pipeline

/-!
# Queries in other places

A query says of each of its parts where it stands. `Pipeline.relocate f` is the query with every
stretch changed by `f`: what is left when `f` forgets all places is the query up to places, and a
query further on in a longer text is the query with every stretch shifted.

* `Pipeline.relocate`, `Term.relocate`, `Expression.relocate` — all stretches changed.
* `Term.unplaced` — a term up to places.
-/

namespace SplQuery

variable (f : Span → Span)

/-! ## Expressions -/

/-- A field with its stretch changed. -/
def FieldRef.relocate (r : FieldRef) : FieldRef := ⟨r.name, f r.span⟩

namespace Expression

mutual

/-- An expression with all stretches changed. -/
@[simp] def relocate : Expression → Expression
  | .binary op left right span => .binary op left.relocate right.relocate (f span)
  | .unary op operand span => .unary op operand.relocate (f span)
  | .call name arguments span => .call name (relocateAll arguments) (f span)
  | .field ref => .field (ref.relocate f)
  | .string value span => .string value (f span)
  | .number digits span => .number digits (f span)
  | .boolean value span => .boolean value (f span)
  | .time value span => .time value (f span)

/-- Expressions with all stretches changed. -/
def relocateAll : List Expression → List Expression
  | [] => []
  | e :: es => e.relocate :: relocateAll es

end

theorem relocateAll_eq_map (es : List Expression) :
    relocateAll f es = es.map (relocate f) := by
  induction es with
  | nil => rfl
  | cons e es ih => rw [relocateAll, ih, List.map_cons]

end Expression

/-! ## Parts of commands -/

/-- An assignment with all stretches changed. -/
def Assignment.relocate (a : Assignment) : Assignment :=
  ⟨a.target, a.expression.relocate f, f a.span⟩

/-- An aggregation with all stretches changed. -/
def Aggregation.relocate (a : Aggregation) : Aggregation :=
  { a with arguments := a.arguments.map (·.relocate f), span := f a.span }

/-- Something to sort by with its stretch changed. -/
def SortKey.relocate (k : SortKey) : SortKey := { k with span := f k.span }

/-- A conversion with its stretch changed. -/
def Conversion.relocate (c : Conversion) : Conversion := { c with span := f c.span }

/-- A renaming with its stretch changed. -/
def Renaming.relocate (r : Renaming) : Renaming := { r with span := f r.span }

/-- A command without nested queries with all stretches changed. -/
@[simp] def SimpleCommand.relocate : SimpleCommand → SimpleCommand
  | .eval assignments => .eval (assignments.map (·.relocate f))
  | .fieldformat assignments => .fieldformat (assignments.map (·.relocate f))
  | .convert timeformat conversions => .convert timeformat (conversions.map (·.relocate f))
  | .strcat sources target allRequired =>
    .strcat (sources.map (·.relocate f)) target allRequired
  | .whereCommand condition => .whereCommand (condition.map (·.relocate f))
  | .table listed => .table (listed.map (·.relocate f))
  | .fields mode listed => .fields mode (listed.map (·.relocate f))
  | .dedup count listed sortBy options =>
    .dedup count (listed.map (·.relocate f)) (sortBy.map (·.relocate f)) options
  | .sort limit keys reversed => .sort limit (keys.map (·.relocate f)) reversed
  | .head limit condition options => .head limit (condition.map (·.relocate f)) options
  | .rename renamings => .rename (renamings.map (·.relocate f))
  | .stats variant aggregations byFields overField options =>
    .stats variant (aggregations.map (·.relocate f)) (byFields.map (·.relocate f))
      (overField.map (·.relocate f)) options
  | .top variant limit listed byFields options =>
    .top variant limit (listed.map (·.relocate f)) (byFields.map (·.relocate f)) options
  | c => c

/-! ## Queries -/

mutual

/-- A query with all stretches changed. -/
@[simp] def Pipeline.relocate : Pipeline → Pipeline
  | .mk stages span => .mk (Stage.relocateAll stages) (f span)

/-- A stage with all stretches changed. -/
@[simp] def Stage.relocate : Stage → Stage
  | .search search => .search search.relocate
  | .command command span => .command command.relocate (f span)

/-- Stages with all stretches changed. -/
def Stage.relocateAll : List Stage → List Stage
  | [] => []
  | s :: ss => s.relocate :: Stage.relocateAll ss

/-- A search with all stretches changed. -/
@[simp] def Search.relocate : Search → Search
  | .mk terms span => .mk (Term.relocateAll terms) (f span)

/-- A term with all stretches changed. -/
@[simp] def Term.relocate : Term → Term
  | .or operands span => .or (Term.relocateAll operands) (f span)
  | .not operand span => .not operand.relocate (f span)
  | .group terms span => .group (Term.relocateAll terms) (f span)
  | .comparison field operator value span => .comparison field operator value (f span)
  | .oneOf field values span => .oneOf field values (f span)
  | .keyword text quoted span => .keyword text quoted (f span)
  | .macroCall name arguments span => .macroCall name arguments (f span)
  | .subsearch query span => .subsearch query.relocate (f span)

/-- Terms with all stretches changed. -/
def Term.relocateAll : List Term → List Term
  | [] => []
  | t :: ts => t.relocate :: Term.relocateAll ts

/-- A command with all stretches changed. -/
@[simp] def Command.relocate : Command → Command
  | .simple command => .simple (command.relocate f)
  | .search search => .search search.relocate
  | .tstats aggregations datamodel condition byFields options =>
    .tstats (aggregations.map (·.relocate f)) datamodel (Search.relocate? condition)
      (byFields.map (·.relocate f)) options
  | .inputlookup table condition options =>
    .inputlookup table (Search.relocate? condition) options
  | .join mode fields options query =>
    .join mode (fields.map (·.relocate f)) options (Pipeline.relocate? query)
  | .append variant options query => .append variant options (Pipeline.relocate? query)
  | .union datasets options queries => .union datasets options (Pipeline.relocateAll queries)
  | .multisearch queries => .multisearch (Pipeline.relocateAll queries)
  | .foreach fields options body =>
    .foreach (fields.map (·.relocate f)) options (Pipeline.relocate? body)
  | .map search options query => .map search options (Pipeline.relocate? query)
  | .generic name options arguments queries =>
    .generic name options arguments (Pipeline.relocateAll queries)

/-- A search, if there is one, with all stretches changed. -/
def Search.relocate? : Option Search → Option Search
  | none => none
  | some s => some s.relocate

/-- A query, if there is one, with all stretches changed. -/
def Pipeline.relocate? : Option Pipeline → Option Pipeline
  | none => none
  | some p => some p.relocate

/-- Queries with all stretches changed. -/
def Pipeline.relocateAll : List Pipeline → List Pipeline
  | [] => []
  | p :: ps => p.relocate :: Pipeline.relocateAll ps

end

theorem Stage.relocateAll_eq_map (ss : List Stage) :
    Stage.relocateAll f ss = ss.map (relocate f) := by
  induction ss with
  | nil => rfl
  | cons s ss ih => rw [relocateAll, ih, List.map_cons]

theorem Term.relocateAll_eq_map (ts : List Term) :
    Term.relocateAll f ts = ts.map (relocate f) := by
  induction ts with
  | nil => rfl
  | cons t ts ih => rw [relocateAll, ih, List.map_cons]

theorem Pipeline.relocateAll_eq_map (ps : List Pipeline) :
    Pipeline.relocateAll f ps = ps.map (relocate f) := by
  induction ps with
  | nil => rfl
  | cons p ps ih => rw [relocateAll, ih, List.map_cons]

theorem Search.relocate?_eq_map (s : Option Search) :
    Search.relocate? f s = s.map (relocate f) := by
  cases s <;> rfl

theorem Pipeline.relocate?_eq_map (p : Option Pipeline) :
    Pipeline.relocate? f p = p.map (relocate f) := by
  cases p <;> rfl

/-! ## Forgetting places -/

/-- A term up to places. -/
def Term.unplaced : Term → Term := relocate fun _ => default

end SplQuery

import Mathlib.Data.List.Induction
import SplQuery.Query.Record

/-!
# Which fields are read

A path leads from an expression, or from the terms of a search, to what stands under it: each number
on it says which operand, argument or member comes next. Paths in lexicographic order are places in
pre-order, a place before those under it. The fields that an expression reads, and those that a
search compares, are listed by where they first occur.

* `Expression.At`, `Term.At` — what stands at a path.
* `FirstOccurrences` — names, each once, in the order of their first paths.
* `firstOccurrences_foldl` — adding names in the order of their paths lists them so.
* `Expression.reads`, `Term.comparisons` — the names that a walk comes by, with their paths.
-/

namespace SplQuery

/-! ## What stands at a path -/

/-- An expression stands at a path under another. -/
inductive Expression.At : Expression → List Nat → Expression → Prop where
  | here (e : Expression) : e.At [] e
  | left {op left right span path e} (h : left.At path e) :
    (Expression.binary op left right span).At (0 :: path) e
  | right {op left right span path e} (h : right.At path e) :
    (Expression.binary op left right span).At (1 :: path) e
  | operand {op operand span path e} (h : operand.At path e) :
    (Expression.unary op operand span).At (0 :: path) e
  | argument {f arguments span path e a} {i : Nat} (hi : arguments[i]? = some a)
    (h : a.At path e) : (Expression.call f arguments span).At (i :: path) e

/-- A term stands at a path under another. Queries between brackets have no terms under them. -/
inductive Term.At : Term → List Nat → Term → Prop where
  | here (t : Term) : t.At [] t
  | operand {operands span path t s} {i : Nat} (hi : operands[i]? = some s) (h : s.At path t) :
    (Term.or operands span).At (i :: path) t
  | negated {operand span path t} (h : operand.At path t) :
    (Term.not operand span).At (0 :: path) t
  | member {terms span path t s} {i : Nat} (hi : terms[i]? = some s) (h : s.At path t) :
    (Term.group terms span).At (i :: path) t

/-- A path to a field of this name, no pattern. -/
def Expression.Reads (e : Expression) (path : List Nat) (name : String) : Prop :=
  ∃ span, e.At path (.field ⟨name, span⟩) ∧ '*' ∉ name.toList

/-- A term compares the field of this name with a value or with several. -/
inductive Term.Compares : Term → String → Prop where
  | comparison {name op value span} : (Term.comparison name op value span).Compares name
  | oneOf {name values span} : (Term.oneOf name values span).Compares name

/-- A path to a term that compares the field of this name, no pattern. -/
def Search.Compares (s : Search) (path : List Nat) (name : String) : Prop :=
  ∃ i rest t d, path = i :: rest ∧ s.terms[i]? = some t ∧ t.At rest d ∧ d.Compares name ∧
    '*' ∉ name.toList

/-- The names that occur, each once, in the order of the paths where they first occur. -/
structure FirstOccurrences (Occurs : List Nat → String → Prop) (names : List String) : Prop where
  mem_iff : ∀ name, name ∈ names ↔ ∃ path, Occurs path name
  nodup : names.Nodup
  ordered : names.Pairwise fun a b => ∃ path, Occurs path a ∧ ∀ other, Occurs other b → path < other

theorem FirstOccurrences.congr {Occurs Occurs' : List Nat → String → Prop} {names : List String}
    (hiff : ∀ path name, Occurs path name ↔ Occurs' path name) (h : FirstOccurrences Occurs names) :
    FirstOccurrences Occurs' names := by
  obtain rfl : Occurs = Occurs' := funext fun path => funext fun name => propext (hiff path name)
  exact h

/-! ## Adding names in the order of their paths -/

section Added

variable {occurrences : List (List Nat × String)} {names : List String} {path : List Nat}
  {name : String}

/-- The names after one that occurs behind all others. -/
theorem FirstOccurrences.add (h : FirstOccurrences (fun p n => (p, n) ∈ occurrences) names)
    (hlast : ∀ o ∈ occurrences, o.1 < path) :
    FirstOccurrences (fun p n => (p, n) ∈ occurrences ++ [(path, name)])
      (Expression.addName names name) := by
  -- a pair that was in order stays so, as the new path is behind the first one of the pair
  have hkeeps {a b : String}
      (hab : ∃ p, (p, a) ∈ occurrences ∧ ∀ o, (o, b) ∈ occurrences → p < o) :
      ∃ p, (p, a) ∈ occurrences ++ [(path, name)] ∧
        ∀ o, (o, b) ∈ occurrences ++ [(path, name)] → p < o := by
    obtain ⟨p, hp, hfirst⟩ := hab
    refine ⟨p, List.mem_append_left _ hp, fun o ho => ?_⟩
    rcases List.mem_append.mp ho with ho | ho
    · exact hfirst o ho
    · obtain ⟨rfl, rfl⟩ := Prod.mk.inj (List.mem_singleton.mp ho)
      exact hlast _ hp
  unfold Expression.addName
  by_cases hmem : name ∈ names
  · rw [if_pos (List.contains_iff_mem.mpr hmem)]
    refine ⟨fun n => (h.mem_iff n).trans ?_, h.nodup, h.ordered.imp hkeeps⟩
    constructor
    · rintro ⟨p, hp⟩
      exact ⟨p, List.mem_append_left _ hp⟩
    · rintro ⟨p, hp⟩
      rcases List.mem_append.mp hp with hp | hp
      · exact ⟨p, hp⟩
      · obtain ⟨-, rfl⟩ := Prod.mk.inj (List.mem_singleton.mp hp)
        exact (h.mem_iff _).mp hmem
  · rw [if_neg (fun hc => hmem (List.contains_iff_mem.mp hc))]
    refine ⟨fun n => ?_, ?_, ?_⟩
    · simp only [List.mem_append, List.mem_singleton, Prod.mk.injEq, h.mem_iff n, exists_or,
        exists_and_right]
      simp
    · exact List.nodup_append.mpr ⟨h.nodup, List.pairwise_singleton _ _, fun a ha b hb hab =>
        hmem (List.mem_singleton.mp hb ▸ hab ▸ ha)⟩
    · refine List.pairwise_append.mpr ⟨h.ordered.imp hkeeps, List.pairwise_singleton _ _, ?_⟩
      intro a ha b hb
      obtain rfl := List.mem_singleton.mp hb
      obtain ⟨p, hp⟩ := (h.mem_iff a).mp ha
      refine hkeeps ⟨p, hp, fun o ho => ?_⟩
      exact absurd ((h.mem_iff b).mpr ⟨o, ho⟩) hmem

/-- Names that are added in the order of their paths are listed by where they first occur. -/
theorem firstOccurrences_foldl (h : (occurrences.map (·.1)).Pairwise (· < ·)) :
    FirstOccurrences (fun p n => (p, n) ∈ occurrences)
      ((occurrences.map (·.2)).foldl Expression.addName []) := by
  induction occurrences using List.reverseRecOn with
  | nil => exact ⟨by simp, List.nodup_nil, .nil⟩
  | append_singleton occurrences o ih =>
    rw [List.map_append, List.pairwise_append] at h
    rw [List.map_append, List.foldl_append]
    refine (ih h.1).add fun q hq => ?_
    exact h.2.2 q.1 (List.mem_map_of_mem hq) o.1 (List.mem_singleton_self _)

end Added

/-! ## Paths under several things -/

section Numbered

variable {α : Type} {lists : List (List (List Nat × α))}

/-- What is found under several things, each path with the number of the thing in front. -/
def numbered (lists : List (List (List Nat × α))) : List (List Nat × α) :=
  lists.zipIdx.flatMap fun l => l.1.map fun o => (l.2 :: o.1, o.2)

theorem map_snd_numbered : (numbered lists).map (·.2) = lists.flatMap (·.map (·.2)) := by
  rw [numbered, List.map_flatMap]
  simp only [List.map_map, Function.comp_def]
  conv_rhs => rw [← List.zipIdx_map_fst 0 lists, List.flatMap_map]

theorem mem_numbered {path : List Nat} {a : α} :
    (path, a) ∈ numbered lists ↔
      ∃ i rest l, path = i :: rest ∧ lists[i]? = some l ∧ (rest, a) ∈ l := by
  simp only [numbered, List.mem_flatMap, List.mem_map, Prod.exists, Prod.mk.injEq,
    List.mem_zipIdx_iff_getElem?]
  constructor
  · rintro ⟨l, i, hl, rest, b, hb, rfl, rfl⟩
    exact ⟨i, rest, l, rfl, hl, hb⟩
  · rintro ⟨i, rest, l, rfl, hl, ha⟩
    exact ⟨l, i, hl, rest, a, ha, rfl, rfl⟩

theorem sorted_numbered (h : ∀ l ∈ lists, (l.map (·.1)).Pairwise (· < ·)) :
    ((numbered lists).map (·.1)).Pairwise (· < ·) := by
  rw [numbered, List.map_flatMap, List.pairwise_flatMap]
  refine ⟨fun l hl => ?_, ?_⟩
  · have hsorted := h l.1 (List.fst_mem_of_mem_zipIdx hl)
    rw [List.pairwise_map] at hsorted
    simp only [List.map_map, List.pairwise_map, Function.comp_apply]
    exact hsorted.imp fun hlt => List.cons_lt_cons_iff.mpr (.inr ⟨rfl, hlt⟩)
  · have hnumbers : (lists.zipIdx.map (·.2)).Pairwise (· < ·) := by
      rw [List.zipIdx_map_snd]
      exact List.pairwise_lt_range'
    rw [List.pairwise_map] at hnumbers
    refine hnumbers.imp fun hlt p hp q hq => ?_
    simp only [List.map_map, List.mem_map, Function.comp_apply] at hp hq
    obtain ⟨_, -, rfl⟩ := hp
    obtain ⟨_, -, rfl⟩ := hq
    exact List.cons_lt_cons_iff.mpr (.inl hlt)

end Numbered

/-- A name that is no pattern, with the path to where a walk begins. -/
def named (name : String) : List (List Nat × String) :=
  if FieldRef.nameIsPattern name then [] else [([], name)]

theorem mem_named {path : List Nat} {name other : String} :
    (path, other) ∈ named name ↔ path = [] ∧ other = name ∧ '*' ∉ name.toList := by
  unfold named FieldRef.nameIsPattern
  by_cases h : '*' ∈ name.toList <;> simp [h]

theorem map_snd_named (name : String) :
    (named name).map (·.2) = [name].filter (!FieldRef.nameIsPattern ·) := by
  unfold named
  cases h : FieldRef.nameIsPattern name <;> simp [h]

theorem sorted_named (name : String) : ((named name).map (·.1)).Pairwise (· < ·) := by
  unfold named
  split
  · exact .nil
  · exact List.pairwise_singleton _ _

/-! ## Expressions -/

namespace Expression

mutual

/-- The names that an expression reads, as often as it does, with their paths. -/
def reads : Expression → List (List Nat × String)
  | .field ref => named ref.name
  | .binary _ left right _ => numbered [left.reads, right.reads]
  | .unary _ operand _ => numbered [operand.reads]
  | .call _ arguments _ => numbered (readsOfAll arguments)
  | .string .. | .number .. | .boolean .. | .time .. => []

/-- The names that each of several expressions reads. -/
def readsOfAll : List Expression → List (List (List Nat × String))
  | [] => []
  | e :: es => e.reads :: readsOfAll es

end

variable {e d : Expression} {path : List Nat} {name : String}

theorem readsOfAll_eq_map (es : List Expression) : readsOfAll es = es.map reads := by
  induction es with
  | nil => rfl
  | cons e es ih => rw [readsOfAll, ih, List.map_cons]

theorem mem_reads_of_at (h : e.At path d) {span : Span} (hd : d = .field ⟨name, span⟩)
    (hplain : '*' ∉ name.toList) : (path, name) ∈ e.reads := by
  induction h with
  | here e =>
    subst hd
    rw [reads]
    exact mem_named.mpr ⟨rfl, rfl, hplain⟩
  | left _ ih =>
    rw [reads]
    exact mem_numbered.mpr ⟨0, _, _, rfl, rfl, ih hd⟩
  | right _ ih =>
    rw [reads]
    exact mem_numbered.mpr ⟨1, _, _, rfl, rfl, ih hd⟩
  | operand _ ih =>
    rw [reads]
    exact mem_numbered.mpr ⟨0, _, _, rfl, rfl, ih hd⟩
  | argument hi _ ih =>
    rw [reads, readsOfAll_eq_map]
    exact mem_numbered.mpr ⟨_, _, _, rfl, by rw [List.getElem?_map, hi, Option.map_some], ih hd⟩

theorem reads_of_mem (h : (path, name) ∈ e.reads) : e.Reads path name := by
  induction e using Expression.rec (motive_2 := fun es => ∀ e ∈ es, ∀ path,
    (path, name) ∈ e.reads → e.Reads path name) generalizing path with
  | binary op left right span ihl ihr =>
    rw [reads] at h
    obtain ⟨i, rest, l, rfl, hi, hl⟩ := mem_numbered.mp h
    match i, hi with
    | 0, hi =>
      obtain rfl := Option.some.inj hi
      obtain ⟨at', hat, hplain⟩ := ihl hl
      exact ⟨at', .left hat, hplain⟩
    | 1, hi =>
      obtain rfl := Option.some.inj hi
      obtain ⟨at', hat, hplain⟩ := ihr hl
      exact ⟨at', .right hat, hplain⟩
  | unary op operand span ih =>
    rw [reads] at h
    obtain ⟨i, rest, l, rfl, hi, hl⟩ := mem_numbered.mp h
    match i, hi with
    | 0, hi =>
      obtain rfl := Option.some.inj hi
      obtain ⟨at', hat, hplain⟩ := ih hl
      exact ⟨at', .operand hat, hplain⟩
  | call f arguments span ih =>
    rw [reads, readsOfAll_eq_map] at h
    obtain ⟨i, rest, l, rfl, hi, hl⟩ := mem_numbered.mp h
    rw [List.getElem?_map] at hi
    obtain ⟨a, ha, rfl⟩ := Option.map_eq_some_iff.mp hi
    obtain ⟨at', hat, hplain⟩ := ih a (List.mem_of_getElem? ha) rest hl
    exact ⟨at', .argument ha hat, hplain⟩
  | field ref =>
    rw [reads] at h
    obtain ⟨rfl, rfl, hplain⟩ := mem_named.mp h
    exact ⟨ref.span, .here _, hplain⟩
  | string | number | boolean | time => cases h
  | nil d hd => cases hd
  | cons e es ihe ihes d hd path h =>
    rcases List.mem_cons.mp hd with rfl | hd
    · exact ihe h
    · exact ihes d hd path h

/-- What a walk comes by is what is read. -/
theorem mem_reads : (path, name) ∈ e.reads ↔ e.Reads path name :=
  ⟨reads_of_mem, fun ⟨_, hat, hplain⟩ => mem_reads_of_at hat rfl hplain⟩

/-- The paths of a walk are in order. -/
theorem sorted_reads (e : Expression) : (e.reads.map (·.1)).Pairwise (· < ·) := by
  induction e using Expression.rec (motive_2 := fun es => ∀ l ∈ readsOfAll es,
    (l.map (·.1)).Pairwise (· < ·)) with
  | binary op left right span ihl ihr =>
    rw [reads]
    refine sorted_numbered (List.forall_mem_cons.mpr ⟨ihl, List.forall_mem_singleton.mpr ihr⟩)
  | unary op operand span ih =>
    rw [reads]
    exact sorted_numbered (List.forall_mem_singleton.mpr ih)
  | call f arguments span ih =>
    rw [reads]
    exact sorted_numbered ih
  | field ref =>
    rw [reads]
    exact sorted_named ref.name
  | string | number | boolean | time => exact .nil
  | nil l hl => cases hl
  | cons e es ihe ihes l hl =>
    rw [readsOfAll] at hl
    rcases List.mem_cons.mp hl with rfl | hl
    · exact ihe
    · exact ihes l hl

/-- The names of the fields that are no patterns among expressions. -/
def plainNames (es : List Expression) : List String :=
  ((es.filterMap field?).filter (!·.isPattern)).map (·.name)

theorem plainNames_append (es ds : List Expression) :
    plainNames (es ++ ds) = plainNames es ++ plainNames ds := by
  simp only [plainNames, List.filterMap_append, List.filter_append, List.map_append]

theorem plainNames_cons_of_field?_eq_none {e : Expression} (h : e.field? = none)
    (es : List Expression) : plainNames (e :: es) = plainNames es := by
  rw [plainNames, List.filterMap_cons_none h, plainNames]

theorem map_snd_reads (e : Expression) : e.reads.map (·.2) = plainNames e.walk := by
  induction e using Expression.rec (motive_2 := fun es =>
    (readsOfAll es).flatMap (·.map (·.2)) = plainNames (walkAll es)) with
  | binary op left right span ihl ihr =>
    rw [reads, map_snd_numbered, walk, plainNames_cons_of_field?_eq_none rfl, plainNames_append,
      ← ihl, ← ihr]
    simp only [List.flatMap_cons, List.flatMap_nil, List.append_nil]
  | unary op operand span ih =>
    rw [reads, map_snd_numbered, walk, plainNames_cons_of_field?_eq_none rfl, ← ih]
    simp only [List.flatMap_cons, List.flatMap_nil, List.append_nil]
  | call f arguments span ih =>
    rw [reads, map_snd_numbered, walk, plainNames_cons_of_field?_eq_none rfl, ← ih]
  | field ref =>
    rw [reads, map_snd_named, walk]
    · simp only [plainNames, field?, List.filterMap_cons, List.filterMap_nil, FieldRef.isPattern]
      cases h : FieldRef.nameIsPattern ref.name <;> simp [h]
    all_goals nofun
  | string | number | boolean | time => rfl
  | nil => rfl
  | cons e es ihe ihes =>
    rw [readsOfAll, walkAll, List.flatMap_cons, ihe, ihes, plainNames_append]

/-- The fields of an expression are those it reads, by where it first does. -/
theorem fields_firstOccurrences (e : Expression) : FirstOccurrences e.Reads e.fields := by
  have h := firstOccurrences_foldl e.sorted_reads
  rw [map_snd_reads, plainNames, List.foldl_map] at h
  exact h.congr fun _ _ => mem_reads

end Expression

/-! ## Searches -/

namespace Term

mutual

/-- The names that a term compares, as often as it does, with their paths. -/
def comparisons : Term → List (List Nat × String)
  | .comparison name _ _ _ | .oneOf name _ _ => named name
  | .or operands _ => numbered (comparisonsOfAll operands)
  | .not operand _ => numbered [operand.comparisons]
  | .group terms _ => numbered (comparisonsOfAll terms)
  | .keyword .. | .macroCall .. | .subsearch .. => []

/-- The names that each of several terms compares. -/
def comparisonsOfAll : List Term → List (List (List Nat × String))
  | [] => []
  | t :: ts => t.comparisons :: comparisonsOfAll ts

end

variable {t d : Term} {ts : List Term} {path : List Nat} {name : String}

theorem comparisonsOfAll_eq_map (ts : List Term) : comparisonsOfAll ts = ts.map comparisons := by
  induction ts with
  | nil => rfl
  | cons t ts ih => rw [comparisonsOfAll, ih, List.map_cons]

theorem mem_comparisonsOfAll : (path, name) ∈ numbered (comparisonsOfAll ts) ↔
    ∃ i rest t, path = i :: rest ∧ ts[i]? = some t ∧ (rest, name) ∈ t.comparisons := by
  rw [comparisonsOfAll_eq_map, mem_numbered]
  simp only [List.getElem?_map, Option.map_eq_some_iff]
  constructor
  · rintro ⟨i, rest, _, rfl, ⟨t, ht, rfl⟩, h⟩
    exact ⟨i, rest, t, rfl, ht, h⟩
  · rintro ⟨i, rest, t, rfl, ht, h⟩
    exact ⟨i, rest, _, rfl, ⟨t, ht, rfl⟩, h⟩

theorem mem_comparisons_of_at (h : t.At path d) (hd : d.Compares name)
    (hplain : '*' ∉ name.toList) : (path, name) ∈ t.comparisons := by
  induction h with
  | here t =>
    cases hd <;>
    · rw [comparisons]
      exact mem_named.mpr ⟨rfl, rfl, hplain⟩
  | operand hi _ ih | member hi _ ih =>
    rw [comparisons]
    exact mem_comparisonsOfAll.mpr ⟨_, _, _, rfl, hi, ih hd⟩
  | negated _ ih =>
    rw [comparisons]
    exact mem_numbered.mpr ⟨0, _, _, rfl, rfl, ih hd⟩

/-- The cases are those of `comparisons`; among several terms it is the one that the path begins
with. -/
theorem at_of_mem_comparisons (t : Term) {path : List Nat} (h : (path, name) ∈ t.comparisons) :
    ∃ d, t.At path d ∧ d.Compares name ∧ '*' ∉ name.toList := by
  match t with
  | .comparison .. =>
    rw [comparisons] at h
    obtain ⟨rfl, rfl, hplain⟩ := mem_named.mp h
    exact ⟨_, .here _, .comparison, hplain⟩
  | .oneOf .. =>
    rw [comparisons] at h
    obtain ⟨rfl, rfl, hplain⟩ := mem_named.mp h
    exact ⟨_, .here _, .oneOf, hplain⟩
  | .or operands span =>
    rw [comparisons] at h
    obtain ⟨i, rest, s, rfl, hi, hs⟩ := mem_comparisonsOfAll.mp h
    obtain ⟨d, hat, hd⟩ := at_of_mem_comparisons s hs
    exact ⟨d, .operand hi hat, hd⟩
  | .not operand span =>
    rw [comparisons] at h
    obtain ⟨i, rest, l, rfl, hi, hl⟩ := mem_numbered.mp h
    match i, hi with
    | 0, hi =>
      obtain rfl := Option.some.inj hi
      obtain ⟨d, hat, hd⟩ := at_of_mem_comparisons operand hl
      exact ⟨d, .negated hat, hd⟩
  | .group terms span =>
    rw [comparisons] at h
    obtain ⟨i, rest, s, rfl, hi, hs⟩ := mem_comparisonsOfAll.mp h
    obtain ⟨d, hat, hd⟩ := at_of_mem_comparisons s hs
    exact ⟨d, .member hi hat, hd⟩
  | .keyword .. | .macroCall .. | .subsearch .. =>
    rw [comparisons] at h
    cases h

mutual

/-- The paths of a walk are in order. -/
theorem sorted_comparisons (t : Term) : (t.comparisons.map (·.1)).Pairwise (· < ·) := by
  match t with
  | .comparison name _ _ _ | .oneOf name _ _ =>
    rw [comparisons]
    exact sorted_named name
  | .or ts _ | .group ts _ =>
    rw [comparisons]
    exact sorted_numbered (sorted_comparisonsOfAll ts)
  | .not operand _ =>
    rw [comparisons]
    exact sorted_numbered (List.forall_mem_singleton.mpr operand.sorted_comparisons)
  | .keyword .. | .macroCall .. | .subsearch .. =>
    rw [comparisons]
    exact .nil

theorem sorted_comparisonsOfAll (ts : List Term) :
    ∀ l ∈ comparisonsOfAll ts, (l.map (·.1)).Pairwise (· < ·) := by
  match ts with
  | [] =>
    rw [comparisonsOfAll]
    exact List.forall_mem_nil _
  | t :: ts =>
    rw [comparisonsOfAll]
    exact List.forall_mem_cons.mpr ⟨t.sorted_comparisons, sorted_comparisonsOfAll ts⟩

end

mutual

theorem map_snd_comparisons (t : Term) :
    t.comparisons.map (·.2) = t.comparedNames.filter (!FieldRef.nameIsPattern ·) := by
  match t with
  | .comparison name _ _ _ | .oneOf name _ _ =>
    rw [comparisons, comparedNames, map_snd_named]
  | .or ts _ | .group ts _ =>
    rw [comparisons, comparedNames, map_snd_comparisonsOfAll ts]
  | .not operand _ =>
    rw [comparisons, comparedNames, map_snd_numbered, List.flatMap_singleton,
      operand.map_snd_comparisons]
  | .keyword .. | .macroCall .. | .subsearch .. =>
    rw [comparisons, comparedNames]
    · rfl
    all_goals nofun

theorem map_snd_comparisonsOfAll (ts : List Term) : (numbered (comparisonsOfAll ts)).map (·.2) =
    (comparedNamesOfAll ts).filter (!FieldRef.nameIsPattern ·) := by
  rw [map_snd_numbered]
  match ts with
  | [] => rfl
  | t :: ts =>
    rw [comparisonsOfAll, comparedNamesOfAll, List.flatMap_cons, t.map_snd_comparisons,
      List.filter_append, ← map_snd_numbered, map_snd_comparisonsOfAll ts]

end

end Term

namespace Search

variable {s : Search} {path : List Nat} {name : String}

/-- What a walk comes by is what is compared. -/
theorem mem_comparisons : (path, name) ∈ numbered (Term.comparisonsOfAll s.terms) ↔
    s.Compares path name := by
  rw [Term.mem_comparisonsOfAll]
  constructor
  · rintro ⟨i, rest, t, rfl, ht, h⟩
    obtain ⟨d, hat, hd⟩ := t.at_of_mem_comparisons h
    exact ⟨i, rest, t, d, rfl, ht, hat, hd⟩
  · rintro ⟨i, rest, t, d, rfl, ht, hat, hd, hplain⟩
    exact ⟨i, rest, t, rfl, ht, Term.mem_comparisons_of_at hat hd hplain⟩

/-- The fields of a search are those it compares, by where it first does. -/
theorem fields_firstOccurrences (s : Search) : FirstOccurrences s.Compares s.fields := by
  have h := firstOccurrences_foldl (sorted_numbered (Term.sorted_comparisonsOfAll s.terms))
  rw [Term.map_snd_comparisonsOfAll] at h
  exact h.congr fun _ _ => mem_comparisons

end Search

/-! ## What queries are handed over with -/

/-- The member of a record under a name. -/
def Record.member? : Record → String → Option Record
  | .fields _ _ members, name => members.lookup name
  | _, _ => none

/-- Wherever a query is handed over with names of fields that are read, these are all that are
read, each once, by where they first are: the fields of every expression, those that an assignment
depends on, those of a condition, and those that a search compares, queries between brackets left
out. -/
theorem referencedFields_firstOccurrences (place : Places) :
    (∀ e : Expression, FirstOccurrences e.Reads e.fields) ∧
    (∀ a : Assignment, ∃ names, FirstOccurrences a.expression.Reads names ∧
      (a.record place).member? "depends_on" = some (.texts names)) ∧
    (∀ condition : Option Expression, ∃ names,
      FirstOccurrences (fun path name => ∃ e, condition = some e ∧ e.Reads path name) names ∧
      ((SimpleCommand.whereCommand condition).members place).lookup "referenced_fields" =
        some (.texts names)) ∧
    ∀ s : Search, ∃ names, FirstOccurrences s.Compares names ∧
      (s.record place).member? "referenced_fields" = some (.texts names) := by
  refine ⟨Expression.fields_firstOccurrences, fun a => ?_, fun condition => ?_, fun s => ?_⟩
  · exact ⟨a.expression.fields, a.expression.fields_firstOccurrences, rfl⟩
  · refine ⟨condition.elim [] (·.fields), ?_, rfl⟩
    cases condition with
    | none => exact ⟨by simp, List.nodup_nil, .nil⟩
    | some e =>
      refine e.fields_firstOccurrences.congr fun path name => ?_
      simp only [Option.some.injEq, exists_eq_left']
  · obtain ⟨terms, span⟩ := s
    exact ⟨_, Search.fields_firstOccurrences _, by rw [Search.record]; rfl⟩

end SplQuery

import Mathlib.Data.List.Induction
import Mathlib.Data.List.Nodup
import SplQuery.Diagnostic.Basic

/-!
# The diagnostics that are shown

Of some diagnostics one is shown for each place where any of them starts: the first of those whose
kind is the most important one at that place. Each step of the fold keeps this for the diagnostics
that it has passed, the sorting puts the places in order, and there is only one list that is chosen
in this way.

* `Diagnostic.Foremost` — the diagnostic that is shown of those that start where it does.
* `Diagnostic.Chosen` — what is shown of some diagnostics.
* `Diagnostic.filtered_exact` — the filter chooses exactly this.
* `Diagnostic.filtered_append` — diagnostics that start elsewhere are merged in.
-/

namespace SplQuery

theorem DiagnosticKind.suppresses_iff {k other : DiagnosticKind} :
    k.suppresses other = true ↔ k.rank < other.rank := decide_eq_true_iff

namespace Diagnostic

/-- The places where diagnostics start. -/
def starts (ds : List Diagnostic) : List Nat := ds.map (·.span.start)

/-- Among the diagnostics that start where this one does, its kind is the most important, and no
earlier one is of that kind. -/
def Foremost (ds : List Diagnostic) (d : Diagnostic) : Prop :=
  ∃ before after, ds = before ++ d :: after ∧
    (∀ e ∈ before, e.span.start = d.span.start → d.kind.rank < e.kind.rank) ∧
    ∀ e ∈ after, e.span.start = d.span.start → d.kind.rank ≤ e.kind.rank

/-- Some diagnostics are chosen from others: one for each place where those start, the foremost one,
and any two of their places are related. -/
structure Chosen (r : Nat → Nat → Prop) (ds ks : List Diagnostic) : Prop where
  order : (starts ks).Pairwise r
  covers : ∀ place, place ∈ starts ks ↔ place ∈ starts ds
  foremost : ∀ k ∈ ks, Foremost ds k

variable {r : Nat → Nat → Prop} {d e : Diagnostic} {ds es ks js : List Diagnostic}

theorem mem_starts {place : Nat} : place ∈ starts ds ↔ ∃ d ∈ ds, d.span.start = place :=
  List.mem_map

theorem starts_cons (d : Diagnostic) (ds : List Diagnostic) :
    starts (d :: ds) = d.span.start :: starts ds := rfl

theorem starts_append (ds es : List Diagnostic) : starts (ds ++ es) = starts ds ++ starts es :=
  List.map_append

/-! ## The foremost one -/

theorem Foremost.mem (h : Foremost ds d) : d ∈ ds := by
  obtain ⟨before, after, rfl, -, -⟩ := h
  exact List.mem_append_right before List.mem_cons_self

theorem Foremost.le (h : Foremost ds d) (he : e ∈ ds) (hstart : e.span.start = d.span.start) :
    d.kind.rank ≤ e.kind.rank := by
  obtain ⟨before, after, rfl, hbefore, hafter⟩ := h
  rcases List.mem_append.mp he with he | he
  · exact Nat.le_of_lt (hbefore e he hstart)
  · rcases List.mem_cons.mp he with rfl | he
    · exact Nat.le_refl _
    · exact hafter e he hstart

/-- It stays the foremost one when others come that do not start where it does, or are not more
important. -/
theorem Foremost.append (h : Foremost ds d)
    (hle : ∀ e ∈ es, e.span.start = d.span.start → d.kind.rank ≤ e.kind.rank) :
    Foremost (ds ++ es) d := by
  obtain ⟨before, after, rfl, hbefore, hafter⟩ := h
  refine ⟨before, after ++ es, List.append_assoc _ _ _, hbefore, fun e he hstart => ?_⟩
  rcases List.mem_append.mp he with he | he
  · exact hafter e he hstart
  · exact hle e he hstart

/-- One that is more important than all before it is the foremost one. -/
theorem Foremost.last (h : ∀ e ∈ ds, e.span.start = d.span.start → d.kind.rank < e.kind.rank) :
    Foremost (ds ++ [d]) d :=
  ⟨ds, [], rfl, h, List.forall_mem_nil _⟩

/-- What starts elsewhere may stand before it. -/
theorem Foremost.append_left (h : Foremost ds d) (hne : ∀ e ∈ es, e.span.start ≠ d.span.start) :
    Foremost (es ++ ds) d := by
  obtain ⟨before, after, rfl, hbefore, hafter⟩ := h
  refine ⟨es ++ before, after, (List.append_assoc _ _ _).symm, fun e he hstart => ?_, hafter⟩
  rcases List.mem_append.mp he with he | he
  · exact absurd hstart (hne e he)
  · exact hbefore e he hstart

/-- There is one foremost diagnostic at a place. -/
theorem Foremost.unique (hd : Foremost ds d) (he : Foremost ds e)
    (hstart : d.span.start = e.span.start) : d = e := by
  have hle : d.kind.rank ≤ e.kind.rank := hd.le he.mem hstart.symm
  have hge : e.kind.rank ≤ d.kind.rank := he.le hd.mem hstart
  obtain ⟨before, after, rfl, hbefore, -⟩ := hd
  obtain ⟨before', after', heq, hbefore', -⟩ := he
  -- neither of the two stands before the other
  obtain ⟨between, hb, ha⟩ | ⟨between, hb, ha⟩ := List.append_eq_append_iff.mp heq
  · cases between with
    | nil => exact (List.cons.inj ha).1
    | cons b between =>
      obtain ⟨rfl, -⟩ := List.cons.inj ha
      have hlt := hbefore' d (by rw [hb]; simp) hstart
      omega
  · cases between with
    | nil => exact (List.cons.inj ha).1.symm
    | cons b between =>
      obtain ⟨rfl, -⟩ := List.cons.inj ha
      have hlt := hbefore e (by rw [hb]; simp) hstart.symm
      omega

/-- Where no two start at one place, each is the foremost one. -/
theorem foremost_of_distinct (h : (starts ds).Pairwise (· ≠ ·)) (hd : d ∈ ds) : Foremost ds d := by
  obtain ⟨before, after, rfl⟩ := List.append_of_mem hd
  rw [starts_append] at h
  obtain ⟨-, hafter, hbefore⟩ := List.pairwise_append.mp h
  refine ⟨before, after, rfl, fun e he hstart => ?_, fun e he hstart => ?_⟩
  · exact absurd hstart (hbefore _ (List.mem_map_of_mem he) _ List.mem_cons_self)
  · exact absurd hstart.symm ((List.pairwise_cons.mp hafter).1 _ (List.mem_map_of_mem he))

/-! ## The fold -/

/-- A diagnostic is kept at the end where none has started before, or in the place of a less
important one. -/
theorem keep_cases (d : Diagnostic) (ks : List Diagnostic) :
    ((∀ k ∈ ks, k.span.start ≠ d.span.start) ∧ keep d ks = ks ++ [d]) ∨
      ∃ xs k ys, ks = xs ++ k :: ys ∧ k.span.start = d.span.start ∧
        keep d ks = xs ++ (if d.kind.suppresses k.kind then d else k) :: ys := by
  induction ks with
  | nil => exact .inl ⟨List.forall_mem_nil _, rfl⟩
  | cons k ks ih =>
    by_cases hstart : k.span.start = d.span.start
    · exact .inr ⟨[], k, ks, rfl, hstart, by rw [keep, if_pos hstart]; rfl⟩
    · rw [keep, if_neg hstart]
      obtain ⟨hne, hkeep⟩ | ⟨xs, l, ys, rfl, hl, hkeep⟩ := ih
      · exact .inl ⟨List.forall_mem_cons.mpr ⟨hstart, hne⟩, by rw [hkeep]; rfl⟩
      · exact .inr ⟨k :: xs, l, ys, rfl, hl, by rw [hkeep]; rfl⟩

/-- A diagnostic that starts where none has started is chosen too. -/
theorem Chosen.concat (h : Chosen (· ≠ ·) ds ks) (hne : ∀ k ∈ ks, k.span.start ≠ d.span.start) :
    Chosen (· ≠ ·) (ds ++ [d]) (ks ++ [d]) := by
  have hfresh : ∀ e ∈ ds, e.span.start ≠ d.span.start := fun e he heq => by
    obtain ⟨k, hk, hplace⟩ := mem_starts.mp ((h.covers _).mpr (mem_starts.mpr ⟨e, he, heq⟩))
    exact hne k hk hplace
  refine ⟨?_, fun place => ?_, fun k hk => ?_⟩
  · rw [starts_append]
    refine List.pairwise_append.mpr ⟨h.order, List.pairwise_singleton _ _, fun p hp q hq => ?_⟩
    obtain ⟨k, hk, rfl⟩ := mem_starts.mp hp
    rw [List.mem_singleton.mp hq]
    exact hne k hk
  · rw [starts_append, starts_append, List.mem_append, List.mem_append, h.covers]
  · rcases List.mem_append.mp hk with hk | hk
    · refine (h.foremost k hk).append (List.forall_mem_singleton.mpr fun heq => ?_)
      exact absurd heq.symm (hne k hk)
    · rw [List.mem_singleton.mp hk]
      exact .last fun e he heq => absurd heq (hfresh e he)

/-- Of the foremost diagnostic and another one behind all others, the more important is foremost. -/
theorem Foremost.replace (h : Foremost ds e) (hstart : e.span.start = d.span.start) :
    Foremost (ds ++ [d]) (if d.kind.suppresses e.kind then d else e) := by
  split
  · next hsuppresses =>
    have hlt := DiagnosticKind.suppresses_iff.mp hsuppresses
    exact .last fun c hc heq => Nat.lt_of_lt_of_le hlt (h.le hc (heq.trans hstart.symm))
  · next hsuppresses =>
    refine h.append (List.forall_mem_singleton.mpr fun _ => Nat.le_of_not_lt fun hlt => ?_)
    exact hsuppresses (DiagnosticKind.suppresses_iff.mpr hlt)

/-- A diagnostic that starts where one has started may take its place. -/
theorem Chosen.replace (h : Chosen (· ≠ ·) ds (ks ++ e :: js))
    (hstart : e.span.start = d.span.start) :
    Chosen (· ≠ ·) (ds ++ [d]) (ks ++ (if d.kind.suppresses e.kind then d else e) :: js) := by
  have he : e ∈ ks ++ e :: js := List.mem_append_right ks List.mem_cons_self
  have hstarts : starts (ks ++ (if d.kind.suppresses e.kind then d else e) :: js) =
      starts (ks ++ e :: js) := by
    rw [starts_append, starts_append, starts_cons, starts_cons]
    split
    · rw [hstart]
    · rfl
  -- the others start elsewhere
  have hother {k : Diagnostic} (hk : k ∈ ks ++ e :: js) (hne : e.span.start ≠ k.span.start) :
      Foremost (ds ++ [d]) k := by
    refine (h.foremost k hk).append (List.forall_mem_singleton.mpr fun heq => ?_)
    exact absurd (hstart.trans heq) hne
  have horder := h.order
  rw [starts_append, starts_cons] at horder
  obtain ⟨-, hjs, hks⟩ := List.pairwise_append.mp horder
  refine ⟨hstarts ▸ h.order, fun place => ?_, fun k hk => ?_⟩
  · rw [hstarts, h.covers, starts_append, List.mem_append, or_iff_left_of_imp]
    intro hplace
    rw [List.mem_singleton.mp hplace]
    exact (h.covers _).mp (mem_starts.mpr ⟨e, he, hstart⟩)
  · rcases List.mem_append.mp hk with hk | hk
    · refine hother (List.mem_append_left _ hk) (Ne.symm ?_)
      exact hks _ (List.mem_map_of_mem hk) _ List.mem_cons_self
    · rcases List.mem_cons.mp hk with rfl | hk
      · exact (h.foremost e he).replace hstart
      · refine hother (List.mem_append_right _ (List.mem_cons_of_mem e hk)) ?_
        exact (List.pairwise_cons.mp hjs).1 _ (List.mem_map_of_mem hk)

/-- A step of the fold: what is kept of the diagnostics up to one is chosen from them. -/
theorem Chosen.keep (h : Chosen (· ≠ ·) ds ks) (d : Diagnostic) :
    Chosen (· ≠ ·) (ds ++ [d]) (keep d ks) := by
  obtain ⟨hne, hkeep⟩ | ⟨ks, e, js, rfl, hstart, hkeep⟩ := keep_cases d ks
  · rw [hkeep]
    exact h.concat hne
  · rw [hkeep]
    exact h.replace hstart

/-- What is kept of all diagnostics is chosen from them. -/
theorem chosen_foldl (ds : List Diagnostic) :
    Chosen (· ≠ ·) ds (ds.foldl (fun kept d => keep d kept) []) := by
  induction ds using List.reverseRecOn with
  | nil => exact ⟨List.Pairwise.nil, fun _ => Iff.rfl, List.forall_mem_nil _⟩
  | append_singleton ds d ih =>
    rw [List.foldl_append]
    exact ih.keep d

/-! ## The order -/

/-- Whether a diagnostic starts no later than another. -/
abbrev startsBy (d e : Diagnostic) : Bool := d.span.start ≤ e.span.start

theorem startsBy_trans (a b c : Diagnostic) (hab : startsBy a b = true)
    (hbc : startsBy b c = true) : startsBy a c = true :=
  decide_eq_true (Nat.le_trans (of_decide_eq_true hab) (of_decide_eq_true hbc))

theorem startsBy_total (a b : Diagnostic) : (startsBy a b || startsBy b a) = true := by
  simpa using Nat.le_total a.span.start b.span.start

/-- Ascending places are in order. -/
theorem pairwise_startsBy (h : (starts ks).Pairwise (· < ·)) : ks.Pairwise (startsBy · ·) :=
  (List.pairwise_map.mp h).imp fun hlt => decide_eq_true (Nat.le_of_lt hlt)

/-- Diagnostics in the order of their places, no two at one. -/
theorem ascending_of_pairwise (horder : ks.Pairwise (startsBy · ·))
    (hdistinct : (starts ks).Nodup) : (starts ks).Pairwise (· < ·) := by
  have hle : (starts ks).Pairwise (· ≤ ·) := List.pairwise_map.mpr (horder.imp of_decide_eq_true)
  exact (hle.and hdistinct).imp fun h => Nat.lt_of_le_of_ne h.1 h.2

/-- Sorting what was chosen puts its places in order. -/
theorem Chosen.sorted (h : Chosen (· ≠ ·) ds ks) :
    Chosen (· < ·) ds (ks.mergeSort startsBy) := by
  have hperm : (starts (ks.mergeSort startsBy)).Perm (starts ks) := (List.mergeSort_perm _ _).map _
  refine ⟨ascending_of_pairwise ?_ (hperm.nodup_iff.mpr h.order), fun place => ?_, fun k hk => ?_⟩
  · exact List.pairwise_mergeSort startsBy_trans startsBy_total ks
  · rw [hperm.mem_iff, h.covers]
  · exact h.foremost k (List.mem_mergeSort.mp hk)

/-- There is only one way to choose diagnostics in the order of their places. -/
theorem Chosen.unique (hks : Chosen (· < ·) ds ks) (hjs : Chosen (· < ·) ds js) : ks = js := by
  have hsub {ks js : List Diagnostic} (hks : Chosen (· < ·) ds ks) (hjs : Chosen (· < ·) ds js) :
      ∀ k ∈ ks, k ∈ js := by
    intro k hk
    obtain ⟨j, hj, hstart⟩ := mem_starts.mp
      ((hjs.covers _).mpr ((hks.covers _).mp (mem_starts.mpr ⟨k, hk, rfl⟩)))
    rwa [(hks.foremost k hk).unique (hjs.foremost j hj) hstart.symm]
  have horder {ks : List Diagnostic} (hks : Chosen (· < ·) ds ks) :
      ks.Pairwise fun d e => d.span.start < e.span.start := List.pairwise_map.mp hks.order
  have hperm : ks.Perm js := by
    refine (List.perm_ext_iff_of_nodup ?_ ?_).mpr fun k => ⟨hsub hks hjs k, hsub hjs hks k⟩
    · exact List.Nodup.of_map _ (hks.order.imp Nat.ne_of_lt)
    · exact List.Nodup.of_map _ (hjs.order.imp Nat.ne_of_lt)
  exact hperm.eq_of_pairwise (fun _ _ _ _ hlt hgt => absurd hlt (Nat.lt_asymm hgt))
    (horder hks) (horder hjs)

/-- Nothing is chosen only where there is nothing. -/
theorem Chosen.eq_nil_iff (h : Chosen r ds ks) : ks = [] ↔ ds = [] := by
  have hstarts (es : List Diagnostic) : es = [] ↔ ∀ place, place ∉ starts es := by
    rw [← List.eq_nil_iff_forall_not_mem, starts, List.map_eq_nil_iff]
  rw [hstarts, hstarts ds]
  exact forall_congr' fun place => not_congr (h.covers place)

/-- Of diagnostics in the order of their places, no two at one, all are chosen. -/
theorem chosen_self (h : (starts ds).Pairwise (· < ·)) : Chosen (· < ·) ds ds :=
  ⟨h, fun _ => Iff.rfl, fun _ hd => foremost_of_distinct (h.imp Nat.ne_of_lt) hd⟩

/-! ## The filter -/

theorem chosen_filtered (ds : List Diagnostic) : Chosen (· < ·) ds (filtered ds) :=
  (chosen_foldl ds).sorted

/-- Diagnostics at places of their own are merged with what is shown of the others. -/
theorem filtered_append (hds : (starts ds).Pairwise (· < ·))
    (hapart : ∀ d ∈ ds, ∀ e ∈ es, d.span.start ≠ e.span.start) :
    filtered (ds ++ es) = ds.merge (filtered es) startsBy := by
  refine (chosen_filtered _).unique ?_
  have hes := chosen_filtered es
  have hperm :
      (starts (ds.merge (filtered es) startsBy)).Perm (starts ds ++ starts (filtered es)) :=
    starts_append ds (filtered es) ▸ (List.merge_perm_append _).map _
  have hmem (k : Diagnostic) (hk : k ∈ filtered es) : k ∈ es := (hes.foremost k hk).mem
  refine ⟨ascending_of_pairwise ?_ (hperm.nodup_iff.mpr ?_), fun place => ?_, fun k hk => ?_⟩
  · exact List.pairwise_merge startsBy_trans startsBy_total _ _ (pairwise_startsBy hds)
      (pairwise_startsBy hes.order)
  · refine List.nodup_append.mpr ⟨hds.imp Nat.ne_of_lt, hes.order.imp Nat.ne_of_lt, ?_⟩
    intro p hp q hq
    obtain ⟨d, hd, rfl⟩ := mem_starts.mp hp
    obtain ⟨e, he, rfl⟩ := mem_starts.mp hq
    exact hapart d hd e (hmem e he)
  · rw [hperm.mem_iff, starts_append, List.mem_append, List.mem_append, hes.covers]
  · rcases List.mem_merge.mp hk with hk | hk
    · refine (foremost_of_distinct (hds.imp Nat.ne_of_lt) hk).append fun e he heq => ?_
      exact absurd heq.symm (hapart k hk e he)
    · exact (hes.foremost k hk).append_left fun d hd => hapart d hd k (hmem k hk)

/-- **The filter is exact.** What it shows starts at places in ascending order, which are the places
where any diagnostic starts, and at each of them it is the earliest of those whose kind is the most
important there. It is the only such list. What is shown is shown again, and nothing is shown only
where nothing is wrong. -/
theorem filtered_exact (ds : List Diagnostic) :
    Chosen (· < ·) ds (filtered ds) ∧
      (∀ ks, Chosen (· < ·) ds ks → ks = filtered ds) ∧
      filtered (filtered ds) = filtered ds ∧
      (filtered ds = [] ↔ ds = []) := by
  have hchosen := chosen_filtered ds
  refine ⟨hchosen, fun ks hks => hks.unique hchosen, ?_, hchosen.eq_nil_iff⟩
  exact (chosen_filtered _).unique (chosen_self hchosen.order)

end Diagnostic

end SplQuery

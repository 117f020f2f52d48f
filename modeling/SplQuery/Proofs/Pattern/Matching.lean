import Mathlib.Order.Bounds.Defs
import SplQuery.Proofs.Pattern.Found

/-!
# What the matcher does

The matcher finds the places that `Finds` describes, each once, and refuses the tokens that
`Refuses` describes, whatever has been refused before. So it decides the language of the patterns in
which no repetition asks for more than one round. Where more are asked for, it finds the places to
which no fewer lead, and more rounds to a place that fewer have reached as well are of no use.

* `Furthest` — the furthest of a place and of others.
* `Performs` — what a step of matching answers and what it refuses.
* `Reaches` — progresses that have reached some places.
* `Searched` — repetition: the frontier is what the rounds made so far reach and no fewer.
* `performs_follow` — the matcher finds and refuses what it should.
* `follow_takes` — the matcher decides the language of a pattern.
* `follow_repeated` — a repetition finds the places to which no fewer rounds lead than it asks for.
-/

namespace SplQuery.Pattern

variable {α β : Type} {tokens : List Token}

/-! ## Refusals -/

/-- The furthest of the place `i` and the places of `R` is `k`. -/
def Furthest (i : Nat) (R : Nat → Prop) (k : Nat) : Prop := IsGreatest {j | j = i ∨ R j} k

namespace Furthest

variable {i j k : Nat} {R R' : Nat → Prop}

theorem refl (i : Nat) : Furthest i (fun _ => False) i :=
  ⟨.inl rfl, fun _ hj => hj.elim Nat.le_of_eq False.elim⟩

theorem trans (h : Furthest i R j) (h' : Furthest j R' k) : Furthest i (fun l => R l ∨ R' l) k := by
  have hjk : j ≤ k := h'.2 (.inl rfl)
  refine ⟨?_, fun l hl => ?_⟩
  · rcases h'.1 with rfl | hk
    · exact h.1.imp_right .inl
    · exact .inr (.inr hk)
  · rcases hl with hl | hl | hl
    · exact Nat.le_trans (h.2 (.inl hl)) hjk
    · exact Nat.le_trans (h.2 (.inr hl)) hjk
    · exact h'.2 (.inr hl)

/-- Of two places. -/
theorem max (i j : Nat) : Furthest i (· = j) (Nat.max i j) := by
  refine ⟨?_, fun l hl => ?_⟩
  · rcases Nat.le_total j i with hle | hle
    · exact .inl (Nat.max_eq_left hle)
    · exact .inr (Nat.max_eq_right hle)
  · rcases hl with rfl | rfl
    · exact Nat.le_max_left _ _
    · exact Nat.le_max_right _ _

theorem congr (h : Furthest i R k) (hR : ∀ l, R l ↔ R' l) : Furthest i R' k :=
  (funext fun l => propext (hR l) : R = R') ▸ h

end Furthest

theorem furthest_refuse (pos : Nat) (what : String) (t : Trace) :
    (refuse pos what t).2.furthest = Nat.max t.furthest pos := by
  have hmax : Nat.max t.furthest pos = if pos > t.furthest then pos else t.furthest := by
    split
    case isTrue hlt => exact Nat.max_eq_right (Nat.le_of_lt hlt)
    case isFalse hle => exact Nat.max_eq_left (Nat.le_of_not_lt hle)
  rw [hmax]
  simp only [refuse, modify, modifyGet, MonadStateOf.modifyGet, StateT.modifyGet]
  dsimp only [Pure.pure]
  split <;> split <;> rfl

/-- The step answers something of which `Q` holds and refuses the tokens at the places of `R`,
whatever has been refused before. -/
def Performs (m : Matcher α) (Q : α → Prop) (R : Nat → Prop) : Prop :=
  ∀ t, Q (m t).1 ∧ Furthest t.furthest R (m t).2.furthest

namespace Performs

variable {m : Matcher α} {f : α → Matcher β} {P Q : α → Prop} {Q' : β → Prop} {R R' : Nat → Prop}

theorem pure {a : α} (h : Q a) : Performs (pure a) Q fun _ => False :=
  fun t => ⟨h, .refl t.furthest⟩

theorem bind (h : Performs m P R) (hf : ∀ a, P a → Performs (f a) Q' R') :
    Performs (m >>= f) Q' fun k => R k ∨ R' k := fun t =>
  have hf := hf _ (h t).1 (m t).2
  ⟨hf.1, (h t).2.trans hf.2⟩

theorem mono (h : Performs m P R) (hPQ : ∀ a, P a → Q a) : Performs m Q R :=
  fun t => ⟨hPQ _ (h t).1, (h t).2⟩

theorem refusing (h : Performs m Q R) (hR : ∀ k, R k ↔ R' k) : Performs m Q R' :=
  fun t => ⟨(h t).1, (h t).2.congr hR⟩

/-- The last step refuses nothing. -/
theorem map {g : α → β} (h : Performs m P R) (hg : ∀ a, P a → Q' (g a)) :
    Performs (m >>= fun a => Pure.pure (g a)) Q' R :=
  (h.bind fun a ha => .pure (hg a ha)).refusing fun _ => iff_of_eq (or_false _)

theorem refuse (pos : Nat) (what : String) :
    Performs (Pattern.refuse pos what) (fun _ => True) (· = pos) := fun t =>
  ⟨trivial, furthest_refuse pos what t ▸ .max t.furthest pos⟩

/-- Several refusals at one place. -/
theorem refuses (what : β → String) (pos : Nat) (offered : List β) :
    Performs (offered.forM fun o => Pattern.refuse pos (what o)) (fun _ => True)
      fun k => offered ≠ [] ∧ k = pos := by
  induction offered with
  | nil => exact (pure trivial).refusing fun k => by simp
  | cons o offered ih =>
    refine ((refuse pos (what o)).bind fun _ _ => ih).refusing fun k => ?_
    simp only [ne_eq, reduceCtorEq, not_false_eq_true, true_and]
    exact or_iff_left_of_imp And.right

end Performs

/-! ## Places reached -/

/-- The places that progresses have reached. -/
def places (ps : List Progress) : List Nat := ps.map (·.pos)

@[simp]
theorem places_nil : places [] = [] := rfl

@[simp]
theorem places_cons (p : Progress) (ps : List Progress) :
    places (p :: ps) = p.pos :: places ps := rfl

@[simp]
theorem places_append (ps qs : List Progress) : places (ps ++ qs) = places ps ++ places qs :=
  List.map_append

theorem mem_places {p : Progress} {ps : List Progress} (h : p ∈ ps) : p.pos ∈ places ps :=
  List.mem_map_of_mem h

/-- Of the progresses at one place the first is kept. -/
theorem places_distinct (ps : List Progress) :
    (places (distinct ps)).Nodup ∧ ∀ j, j ∈ places (distinct ps) ↔ j ∈ places ps := by
  suffices h : ∀ kept : List Progress, (places kept).Nodup →
      (places (ps.foldl (fun kept p => if kept.any (·.pos == p.pos) then kept else kept ++ [p])
        kept)).Nodup ∧
      ∀ j, j ∈ places (ps.foldl (fun kept p => if kept.any (·.pos == p.pos) then kept
        else kept ++ [p]) kept) ↔ j ∈ places kept ∨ j ∈ places ps by
    obtain ⟨hnodup, hmem⟩ := h [] List.nodup_nil
    exact ⟨hnodup, fun j => (hmem j).trans (by simp)⟩
  induction ps with
  | nil => exact fun kept h => ⟨h, fun j => by simp⟩
  | cons p ps ih =>
    intro kept hkept
    have hany : kept.any (·.pos == p.pos) = true ↔ p.pos ∈ places kept := by
      simp [places, List.any_eq_true]
    rw [List.foldl_cons]
    split
    case isTrue hp =>
      obtain ⟨hnodup, hmem⟩ := ih kept hkept
      refine ⟨hnodup, fun j => (hmem j).trans ?_⟩
      have hp := hany.mp hp
      rw [places_cons, List.mem_cons]
      grind
    case isFalse hp =>
      have hp : p.pos ∉ places kept := fun h => hp (hany.mpr h)
      have hkept : (places (kept ++ [p])).Nodup := by
        rw [places_append, List.nodup_append]
        refine ⟨hkept, List.pairwise_singleton _ _, fun a ha b hb hab => hp ?_⟩
        have hap : a = p.pos := hab.trans (List.mem_singleton.mp hb)
        exact hap ▸ ha
      obtain ⟨hnodup, hmem⟩ := ih (kept ++ [p]) hkept
      refine ⟨hnodup, fun j => (hmem j).trans ?_⟩
      simp [or_assoc]

/-- The progresses have reached the places of `L` and no others. -/
def Reaches (L : Nat → Prop) (ps : List Progress) : Prop := ∀ j, j ∈ places ps ↔ L j

namespace Reaches

variable {L L' : Nat → Prop} {ps qs : List Progress}

theorem congr (h : Reaches L ps) (hL : ∀ j, L j ↔ L' j) : Reaches L' ps :=
  fun j => (h j).trans (hL j)

theorem nil (h : ∀ j, ¬L j) : Reaches L [] := fun j => iff_of_false List.not_mem_nil (h j)

theorem singleton (p : Progress) : Reaches (· = p.pos) [p] := fun _ => List.mem_singleton

theorem append (h : Reaches L ps) (h' : Reaches L' qs) :
    Reaches (fun j => L j ∨ L' j) (ps ++ qs) := fun j => by
  rw [places_append, List.mem_append, h j, h' j]

/-- Progresses dropped by their places. -/
theorem filter (h : Reaches L ps) (keep : Nat → Bool) :
    Reaches (fun j => L j ∧ keep j = true) (ps.filter fun p => keep p.pos) := fun j => by
  have hplaces : places (ps.filter fun p => keep p.pos) = (places ps).filter keep :=
    List.filter_map.symm
  rw [hplaces, List.mem_filter, h j]

theorem distinct (h : Reaches L ps) : Reaches L (distinct ps) :=
  fun j => ((places_distinct ps).2 j).trans (h j)

end Reaches

/-- A step taken from each of several progresses. -/
theorem performs_flatMapM {M R : Nat → Nat → Prop} {f : Progress → Matcher (List Progress)}
    (hf : ∀ p, Performs (f p) (Reaches (M p.pos)) (R p.pos)) (ps : List Progress) :
    Performs (ps.flatMapM f) (Reaches fun j => ∃ i ∈ places ps, M i j)
      fun k => ∃ i ∈ places ps, R i k := by
  suffices h : ∀ (before : List (List Progress)) (L : Nat → Prop),
      Reaches L before.reverse.flatten → Performs (List.flatMapM.loop f ps before)
        (Reaches fun j => L j ∨ ∃ i ∈ places ps, M i j) fun k => ∃ i ∈ places ps, R i k from
    (h [] (fun _ => False) (.nil fun _ => id)).mono fun _ h => h.congr fun j => by simp
  induction ps with
  | nil =>
    exact fun before L h => (Performs.pure (h.congr fun j => by simp)).refusing fun k => by simp
  | cons p ps ih =>
    intro before L h
    have hrest (qs : List Progress) (hqs : Reaches (M p.pos) qs) :
        Performs (List.flatMapM.loop f ps (qs :: before))
          (Reaches fun j => L j ∨ ∃ i ∈ places (p :: ps), M i j)
          fun k => ∃ i ∈ places ps, R i k := by
      refine (ih (qs :: before) (fun j => L j ∨ M p.pos j) ?_).mono
        fun _ h => h.congr fun j => by simp [or_assoc]
      rw [List.reverse_cons, List.flatten_append, List.flatten_singleton]
      exact h.append hqs
    exact ((hf p).bind hrest).refusing fun k => by simp

/-! ## Parameters and options -/

/-- The places found for a parameter rise with the lengths of its values. -/
theorem performs_followParam (q : Param) (p : Progress) :
    Performs (followParam tokens q p)
      (fun qs => Reaches (Finds tokens (.param q) p.pos) qs ∧ (places qs).Nodup)
      (Refuses tokens (.param q) p.pos) := by
  rw [followParam]
  generalize hlengths : Extent.ofType q.type (tokens.drop p.pos) = lengths
  have hplaces : places (lengths.map fun n =>
      ⟨p.pos + n, p.bindings ++ [bind tokens q.name q.type q.effect p.pos n]⟩) =
      lengths.map (p.pos + ·) := by
    rw [places, List.map_map]
    rfl
  have hfound : Reaches (Finds tokens (.param q) p.pos) (lengths.map fun n =>
      ⟨p.pos + n, p.bindings ++ [bind tokens q.name q.type q.effect p.pos n]⟩) := fun j => by
    rw [hplaces, List.mem_map, Finds, Takes.param_iff, hlengths]
    simp only [eq_comm]
  have hnodup : (places (lengths.map fun n =>
      ⟨p.pos + n, p.bindings ++ [bind tokens q.name q.type q.effect p.pos n]⟩)).Nodup := by
    rw [hplaces]
    exact List.Pairwise.map _ (fun a b hab => by omega) (hlengths ▸ Extent.pairwise_ofType q.type _)
  dsimp only
  split
  case isTrue hempty =>
    refine ((Performs.refuse _ _).map fun _ _ => ⟨hfound, hnodup⟩).refusing fun k => ?_
    simp only [Refuses, hlengths, List.isEmpty_iff.mp hempty, true_and]
  case isFalse hempty =>
    refine (Performs.pure ⟨hfound, hnodup⟩).refusing fun k => ?_
    simp only [Refuses, hlengths, false_iff]
    exact fun ⟨hnil, _⟩ => hempty (List.isEmpty_iff.mpr hnil)

/-- Options are passed one by one, fewer than `fuel` of them. -/
theorem performs_followOptions (offered : List OptionSpec) {fuel : Nat} {passed : List Progress}
    {p : Progress} (hfuel : 0 < fuel) (hlength : tokens.length < p.pos + fuel)
    (hpassed : ∀ i ∈ places passed, i < p.pos) (hnodup : (places passed).Nodup) :
    Performs (followOptions tokens offered fuel passed p)
      (fun qs => Reaches (fun j => Finds tokens (.options offered) p.pos j ∨ j ∈ places passed) qs ∧
        (places qs).Nodup)
      (Refuses tokens (.options offered) p.pos) := by
  induction fuel generalizing passed p with
  | zero => exact absurd hfuel (Nat.lt_irrefl 0)
  | succ fuel ih =>
    have hkept : (places (p :: passed)).Nodup :=
      List.nodup_cons.mpr ⟨fun h => Nat.lt_irrefl _ (hpassed _ h), hnodup⟩
    -- no further option is passed
    have hlast (hno : Extent.atOption (tokens.drop p.pos) = true →
        Extent.value? (tokens.drop (p.pos + 2)) = none) :
        (Reaches (fun j => Finds tokens (.options offered) p.pos j ∨ j ∈ places passed)
          (p :: passed) ∧ (places (p :: passed)).Nodup) ∧
        ∀ k, Refuses tokens (.options offered) p.pos k ↔ RefusesOption tokens offered p.pos k := by
      have hstay (j : Nat) : Takes tokens (.options offered) p.pos j ↔ j = p.pos := by
        refine ⟨fun h => ?_, fun h => h ▸ .noOption⟩
        rcases Takes.options_iff.mp h with h | ⟨hat, n, hvalue, -⟩
        · exact h.symm
        · rw [hno hat] at hvalue
          cases hvalue
      refine ⟨⟨fun j => ?_, hkept⟩, fun k => ?_⟩
      · simp only [places_cons, List.mem_cons, Finds, hstay]
      · simp only [Refuses, hstay, exists_eq_left]
    rw [followOptions]
    dsimp only
    rw [List.drop_drop]
    split
    case isTrue hat =>
      rw [Bool.not_eq_true'] at hat
      obtain ⟨hreaches, hrefuses⟩ := hlast fun h => absurd (hat ▸ h) Bool.false_ne_true
      refine (Performs.map (.refuses _ p.pos offered) fun _ _ => hreaches).refusing fun k => ?_
      simp [hrefuses, RefusesOption, hat]
    case isFalse hat =>
      have hat : Extent.atOption (tokens.drop p.pos) = true := by simpa using hat
      split
      case h_1 hvalue =>
        obtain ⟨hreaches, hrefuses⟩ := hlast fun _ => hvalue
        refine ((Performs.refuse _ _).map fun _ _ => hreaches).refusing fun k => ?_
        simp [hrefuses, RefusesOption, hat, hvalue]
      case h_2 n hvalue =>
        have htaken := Extent.value?_le hvalue
        have hword := atOption_lt hat
        rw [List.length_drop] at htaken
        have htakes (j : Nat) : Takes tokens (.options offered) p.pos j ↔
            p.pos = j ∨ Takes tokens (.options offered) (p.pos + 2 + n) j := by
          rw [Takes.options_iff]
          simp [hat, hvalue]
        have hpassed : ∀ i ∈ places (p :: passed), i < p.pos + 2 + n := fun i hi => by
          rcases List.mem_cons.mp hi with hi | hi
          · dsimp only at hi
            omega
          · have hi := hpassed i hi
            omega
        refine ((ih (by omega) (by dsimp only; omega) hpassed hkept).mono fun qs hqs =>
          ⟨hqs.1.congr fun j => ?_, hqs.2⟩).refusing fun k => ?_
        · -- behind an option nothing is refused before the next one
          have hnot : ¬RefusesOption tokens offered p.pos k := by
            simp [RefusesOption, hat, hvalue]
          simp only [Refuses, htakes, or_and_right, exists_or, exists_eq_left', hnot, false_or]
        · simp only [Finds, htakes j, places_cons, List.mem_cons]
          grind

/-! ## Repetition -/

section Repetition

variable {step refusal : Nat → Nat → Prop} {separator : Option String}
  {follow : Progress → Matcher (List Progress)}

/-- One more round from each progress. -/
theorem performs_followItems
    (hfollow : ∀ p, Performs (follow p) (Reaches (step p.pos)) (refusal p.pos)) (first : Bool)
    (ps : List Progress) :
    Performs (followItems tokens follow separator first ps)
      (Reaches fun j => ∃ i ∈ places ps, i < j ∧ ∃ s, Begins tokens separator first i s ∧ step s j)
      fun k => ∃ i ∈ places ps, ∃ s, Begins tokens separator first i s ∧ refusal s k := by
  induction ps with
  | nil => exact (Performs.pure (.nil fun j => by simp)).refusing fun k => by simp
  | cons p ps ih =>
    have hstarts (s : Nat) : s ∈ places
        (if (!first && separator.any (hasText tokens p.pos)) = true then
          [⟨p.pos + 1, p.bindings⟩, p] else [p]) ↔ Begins tokens separator first p.pos s := by
      rw [Begins]
      split
      case isTrue h =>
        rw [Bool.and_eq_true, Bool.not_eq_true'] at h
        simp [h.1, h.2, or_comm]
      case isFalse h =>
        rw [Bool.and_eq_true, Bool.not_eq_true'] at h
        rw [places_cons, places_nil, List.mem_singleton]
        exact (or_iff_left fun hbegins => h ⟨hbegins.1, hbegins.2.1⟩).symm
    rw [followItems]
    refine ((performs_flatMapM hfollow _).bind fun ends hends => ih.map fun rest hrest =>
      ((hends.filter (p.pos < ·)).append hrest).congr fun j => ?_).refusing fun k => ?_
    · simp only [hstarts, decide_eq_true_iff, places_cons, List.mem_cons, exists_eq_or_imp]
      grind
    · simp only [hstarts, places_cons, List.mem_cons, exists_eq_or_imp]

/-- What is known of the search for the places to which rounds lead from `start`, when `count` of
them have been made: which places have been seen, which the last round was the first to reach, and
which are answered so far. -/
structure Searched (tokens : List Token) (step : Nat → Nat → Prop) (separator : Option String)
    (min start count : Nat) (seen : List Nat) (frontier found : List Progress) : Prop where
  seen_iff : ∀ j, j ∈ seen ↔ ∃ n ≤ count, Rounds tokens step separator start n j
  frontier : Reaches (FewestRounds tokens step separator start count) frontier
  found : Reaches (fun j => ∃ n ≤ count, min ≤ n ∧ FewestRounds tokens step separator start n j)
    found

namespace Searched

variable {min start count : Nat} {seen : List Nat} {frontier found : List Progress}

theorem init (p : Progress) :
    Searched tokens step separator min p.pos 0 [p.pos] [p] (if min = 0 then [p] else []) where
  seen_iff j := by simp [Rounds.zero_iff]
  frontier j := by simp [FewestRounds.zero_iff]
  found j := by
    split
    case isTrue hmin => simp [hmin, FewestRounds.zero_iff]
    case isFalse hmin => simp [hmin]

/-- Places that have been seen are left out of the next round. -/
theorem round (h : Searched tokens step separator min start count seen frontier found)
    {reached : List Progress}
    (hreached : Reaches (fun j => ∃ i ∈ places frontier, i < j ∧
      ∃ s, Begins tokens separator (count == 0) i s ∧ step s j) reached) :
    let next := distinct (reached.filter fun p => !seen.contains p.pos)
    Searched tokens step separator min start (count + 1) (seen ++ next.map (·.pos)) next
      (if count + 1 ≥ min then found ++ next else found) := by
  intro next
  have hnext : Reaches (FewestRounds tokens step separator start (count + 1)) next := by
    refine (hreached.filter fun j => !seen.contains j).distinct.congr fun j => ?_
    simp only [h.frontier _, FewestRounds.succ_iff, Bool.not_eq_true', List.contains_eq_mem,
      decide_eq_false_iff_not, h.seen_iff, not_exists, not_and]
  have hle {Q : Nat → Prop} : (∃ n ≤ count + 1, Q n) ↔ (∃ n ≤ count, Q n) ∨ Q (count + 1) := by
    simp only [Nat.le_add_one_iff, or_and_right, exists_or, exists_eq_left]
  refine ⟨fun j => ?_, hnext, fun j => ?_⟩
  · rw [List.mem_append, h.seen_iff, ← places, hnext]
    constructor
    · rintro (⟨n, hn, hj⟩ | hj)
      · exact ⟨n, Nat.le_succ_of_le hn, hj⟩
      · exact ⟨count + 1, Nat.le_refl _, hj.1⟩
    · rintro ⟨n, hn, hj⟩
      obtain ⟨m, hm, hfewest⟩ := hj.exists_fewest
      rcases Nat.le_add_one_iff.mp (Nat.le_trans hm hn) with hm | rfl
      · exact .inl ⟨m, hm, hfewest.1⟩
      · exact .inr hfewest
  · refine Iff.trans ?_ ((or_congr_left (h.found j)).trans hle.symm)
    split
    case isTrue hcount => rw [places_append, List.mem_append, hnext, and_iff_right hcount]
    case isFalse hcount => exact (or_iff_left fun h => hcount h.1).symm

/-- With nothing on the frontier, no more rounds are the fewest to any place. -/
theorem lt_of_fewest (h : Searched tokens step separator min start count seen [] found) {n j : Nat}
    (hj : FewestRounds tokens step separator start n j) : n < count := by
  refine Nat.lt_of_not_le fun hle => ?_
  obtain ⟨l, hl⟩ := hj.exists_of_le hle
  exact List.not_mem_nil ((h.frontier l).mpr hl)

/-- With nothing on the frontier, all is found and nothing more refused. -/
theorem stop (h : Searched tokens step separator min start count seen [] found) :
    Performs (pure found)
      (Reaches fun j => ∃ n, min ≤ n ∧ FewestRounds tokens step separator start n j)
      fun k => ∃ n ≥ count, ∃ j, FewestRounds tokens step separator start n j ∧
        ∃ s, Begins tokens separator (n == 0) j s ∧ refusal s k := by
  refine (Performs.pure (h.found.congr fun j => ?_)).refusing fun k => ?_
  · exact exists_congr fun n => and_iff_right_of_imp fun ⟨_, hj⟩ => Nat.le_of_lt (h.lt_of_fewest hj)
  · refine iff_of_false id fun ⟨n, hn, j, hj, _⟩ => ?_
    exact Nat.not_lt_of_le hn (h.lt_of_fewest hj)

end Searched

/-- Rounds go on until they reach no new place. -/
theorem performs_followRepeats {min start fuel count : Nat} {seen : List Nat}
    {frontier found : List Progress}
    (hfollow : ∀ p, Performs (follow p) (Reaches (step p.pos)) (refusal p.pos))
    (hlength : ∀ n j, Rounds tokens step separator start n j → 0 < n → j ≤ tokens.length)
    (h : Searched tokens step separator min start count seen frontier found)
    (hfuel : tokens.length + 2 ≤ count + fuel) :
    Performs (followRepeats tokens follow separator min fuel count seen frontier found)
      (Reaches fun j => ∃ n, min ≤ n ∧ FewestRounds tokens step separator start n j)
      fun k => ∃ n ≥ count, ∃ j, FewestRounds tokens step separator start n j ∧
        ∃ s, Begins tokens separator (n == 0) j s ∧ refusal s k := by
  induction fuel generalizing count seen frontier found with
  | zero =>
    -- so many rounds would have passed more tokens than there are
    have hempty : frontier = [] := by
      refine List.eq_nil_iff_forall_not_mem.mpr fun p hp => ?_
      have hrounds := ((h.frontier p.pos).mp (mem_places hp)).1
      have hle := hrounds.add_le
      have hlength := hlength count p.pos hrounds (by omega)
      omega
    subst hempty
    exact h.stop
  | succ fuel ih =>
    rw [followRepeats]
    split
    case isTrue hempty =>
      obtain rfl := List.isEmpty_iff.mp hempty
      exact h.stop
    case isFalse =>
      refine ((performs_followItems hfollow (count == 0) frontier).bind fun reached hreached =>
        ih (h.round hreached) (by omega)).refusing fun k => ?_
      have hge (n : Nat) : n ≥ count ↔ n = count ∨ n ≥ count + 1 := by omega
      simp only [h.frontier _, hge, or_and_right, exists_or, exists_eq_left]

end Repetition

/-! ## Patterns -/

/-- The matcher follows patterns one after another as it should, from several progresses. -/
def PerformsAll (tokens : List Token) (items : List Pattern) : Prop :=
  ∀ ps, (places ps).Nodup → Performs (followSeq tokens items ps)
    (fun qs => Reaches (fun j => ∃ i ∈ places ps, FindsAll tokens items i j) qs ∧
      (places qs).Nodup)
    fun k => ∃ i ∈ places ps, RefusesAll tokens items i k

theorem performsAll_nil : PerformsAll tokens [] := fun ps hps => by
  rw [followSeq]
  refine (Performs.pure ⟨fun j => ?_, hps⟩).refusing fun k => ?_
  · simp [RefusesAll]
  · simp [FindsAll]

theorem PerformsAll.cons {item : Pattern} {items : List Pattern} (hitems : PerformsAll tokens items)
    (hitem : ∀ p, Performs (follow tokens item p) (Reaches (Finds tokens item p.pos))
      (Refuses tokens item p.pos)) :
    PerformsAll tokens (item :: items) := by
  rintro (_ | ⟨p, ps⟩) -
  · refine (Performs.pure ⟨.nil fun j => ?_, List.nodup_nil⟩).refusing fun k => ?_ <;> simp
  · have hrest (next : List Progress)
        (hnext : Reaches (fun j => ∃ i ∈ places (p :: ps), Finds tokens item i j) next) :
        Performs (followSeq tokens items (distinct next))
          (fun qs => Reaches (fun j => ∃ i ∈ places (p :: ps),
            FindsAll tokens (item :: items) i j) qs ∧ (places qs).Nodup)
          fun k => ∃ i ∈ places (p :: ps), ∃ j,
            Finds tokens item i j ∧ RefusesAll tokens items j k := by
      refine ((hitems _ (places_distinct next).1).mono fun qs hqs =>
        ⟨hqs.1.congr fun j => ?_, hqs.2⟩).refusing fun k => ?_
      · simp only [hnext.distinct _]
        grind
      · simp only [hnext.distinct _, FindsAll]
        grind
    rw [followSeq]
    · refine ((performs_flatMapM hitem (p :: ps)).bind hrest).refusing fun k => ?_
      simp only [RefusesAll, and_or_left, exists_or]
    · exact fun h => List.cons_ne_nil p ps h

theorem performs_followChoice_cons {item : Pattern} {items : List Pattern} {p : Progress}
    (hitem : Performs (follow tokens item p) (Reaches (Finds tokens item p.pos))
      (Refuses tokens item p.pos))
    (hitems : Performs (followChoice tokens items p) (Reaches (FindsAny tokens items p.pos))
      (RefusesAny tokens items p.pos)) :
    Performs (followChoice tokens (item :: items) p)
      (Reaches (FindsAny tokens (item :: items) p.pos))
      (RefusesAny tokens (item :: items) p.pos) := by
  rw [followChoice]
  exact hitem.bind fun ps hps => hitems.map fun qs hqs => hps.append hqs

/-- **What the matcher finds and refuses.** It goes to the places that `Finds` describes, each once,
and refuses what `Refuses` describes. -/
theorem performs_follow (pattern : Pattern) (p : Progress) :
    Performs (follow tokens pattern p)
      (fun qs => Reaches (Finds tokens pattern p.pos) qs ∧ (places qs).Nodup)
      (Refuses tokens pattern p.pos) := by
  induction pattern using Pattern.rec (motive_2 := fun items => PerformsAll tokens items ∧
      ∀ p, Performs (followChoice tokens items p) (Reaches (FindsAny tokens items p.pos))
        (RefusesAny tokens items p.pos))
      generalizing p with
  | keyword text =>
    rw [follow]
    split
    case isTrue h =>
      refine (Performs.pure ⟨(Reaches.singleton _).congr fun j => ?_,
        List.pairwise_singleton _ _⟩).refusing fun k => ?_
      · simp [Refuses, h]
      · simp [Finds, Takes.keyword_iff, h]
    case isFalse h =>
      refine ((Performs.refuse _ _).map fun _ _ =>
        ⟨.nil fun j hj => h (Takes.keyword_iff.mp hj).1, List.nodup_nil⟩).refusing fun k => ?_
      simp [Refuses, h]
  | param q => exact performs_followParam q p
  | seq items ih =>
    exact ((ih.1 [p] (List.pairwise_singleton _ _)).mono fun qs h =>
      ⟨h.1.congr fun j => by simp [Finds], h.2⟩).refusing fun k => by simp [Refuses]
  | optional item ih =>
    rw [follow]
    refine (ih p).map fun ps hps => ⟨?_, (places_distinct _).1⟩
    exact (hps.1.append (.singleton p)).distinct.congr fun j => or_congr_right eq_comm
  | repeated item separator min ih =>
    have hitem (p : Progress) : Performs (follow tokens item p) (Reaches (Finds tokens item p.pos))
        (Refuses tokens item p.pos) := (ih p).mono fun _ h => h.1
    rw [follow]
    refine ((performs_followRepeats hitem (fun n j h => h.le_length) (.init p) (by omega)).map
      fun found hfound => ⟨hfound.distinct, (places_distinct found).1⟩).refusing fun k => ?_
    -- a round is refused the same after the fewest rounds as after more
    refine ⟨fun ⟨n, _, j, hj, hrefuses⟩ => ⟨n, j, hj.1, hrefuses⟩, fun ⟨n, j, hj, hrefuses⟩ => ?_⟩
    obtain ⟨m, -, hfewest⟩ := hj.exists_fewest
    rw [hj.first_eq hfewest.1] at hrefuses
    exact ⟨m, Nat.zero_le m, j, hfewest, hrefuses⟩
  | choice alternatives ih =>
    rw [follow]
    exact (ih.2 p).map fun ps hps => ⟨hps.distinct, (places_distinct ps).1⟩
  | options offered =>
    have hnone : ∀ i ∈ places [], i < p.pos := fun i hi => by cases hi
    exact (performs_followOptions offered (Nat.succ_pos _) (by omega) hnone List.nodup_nil).mono
      fun qs h => ⟨h.1.congr fun j => by simp, h.2⟩
  | nil => exact ⟨performsAll_nil, fun p => .pure (.nil fun _ => id)⟩
  | cons item items ih ihitems =>
    have hitem (p : Progress) := (ih p).mono fun _ h => h.1
    exact ⟨ihitems.1.cons hitem, fun p => performs_followChoice_cons (hitem p) (ihitems.2 p)⟩

/-! ## The language decided -/

/-- Tokens match as a whole when a progress has passed them all. -/
theorem interpret_matched (pattern : Pattern) :
    (interpret pattern tokens).matched = true ↔ Finds tokens pattern 0 tokens.length := by
  rw [← (performs_follow pattern ⟨0, []⟩ ⟨0, []⟩).1.1, places, List.mem_map, interpret, StateT.run]
  obtain ⟨ps, trace⟩ := follow tokens pattern ⟨0, []⟩ ⟨0, []⟩
  dsimp only
  split
  case h_1 p hp =>
    exact iff_of_true rfl ⟨p, List.mem_of_find?_eq_some hp, by simpa using List.find?_some hp⟩
  case h_2 hnone =>
    refine iff_of_false (by simp) fun ⟨p, hp, hpos⟩ => ?_
    exact List.find?_eq_none.mp hnone p hp (by simpa using hpos)

/-- Tokens that match are in the language. -/
theorem takes_of_matched {pattern : Pattern} (h : (interpret pattern tokens).matched = true) :
    Takes tokens pattern 0 tokens.length :=
  ((interpret_matched pattern).mp h).takes

/-- **The matcher decides the language of a pattern.** Whatever was refused before, it goes from a
place to places up to which the pattern takes the tokens, each once; it goes to all of them if no
repetition in the pattern asks for more than one round, which none does in the patterns of the
commands. Tokens then match as a whole exactly if they are in the language. -/
theorem follow_takes (pattern : Pattern) (tokens : List Token) :
    (∀ (p : Progress) (t : Trace),
      (∀ q ∈ (follow tokens pattern p t).1, Takes tokens pattern p.pos q.pos) ∧
      ((follow tokens pattern p t).1.map (·.pos)).Nodup ∧
      (pattern.isModest = true → ∀ j, Takes tokens pattern p.pos j →
        ∃ q ∈ (follow tokens pattern p t).1, q.pos = j)) ∧
    ((interpret pattern tokens).matched = true → Takes tokens pattern 0 tokens.length) ∧
    (pattern.isModest = true →
      ((interpret pattern tokens).matched = true ↔ Takes tokens pattern 0 tokens.length)) ∧
    ∀ s ∈ Registry.commands, s.pattern.isModest = true := by
  refine ⟨fun p t => ?_, takes_of_matched, fun hmodest => ⟨takes_of_matched, fun h => ?_⟩,
    fun s => isModest_of_mem_commands⟩
  · obtain ⟨hreaches, hnodup⟩ := (performs_follow pattern p t).1
    refine ⟨fun q hq => ((hreaches q.pos).mp (mem_places hq)).takes, hnodup, fun hmodest j hj => ?_⟩
    exact List.mem_map.mp ((hreaches j).mpr (hj.finds hmodest))
  · exact (interpret_matched pattern).mpr (h.finds hmodest)

/-- Two rounds with a comma between them. -/
theorem follow_takes_sample :
    (Registry.oneOrMore (.keyword "a")).isModest = true ∧
      (interpret (Registry.oneOrMore (.keyword "a")) (tokenize "a, A").tokens).matched = true ∧
      Takes (tokenize "a, A").tokens (Registry.oneOrMore (.keyword "a")) 0
        (tokenize "a, A").tokens.length :=
  have hmodest : (Registry.oneOrMore (.keyword "a")).isModest = true := by decide
  have hmatched : (interpret (Registry.oneOrMore (.keyword "a")) (tokenize "a, A").tokens).matched =
      true := by decide +kernel
  have hdecides := follow_takes (Registry.oneOrMore (.keyword "a")) (tokenize "a, A").tokens
  ⟨hmodest, hmatched, (hdecides.2.2.1 hmodest).mp hmatched⟩

/-! ## The fewest rounds decide -/

/-- The matcher, set on a pattern at the place `i`, goes to the place `j`. -/
def Follows (tokens : List Token) (pattern : Pattern) (i j : Nat) : Prop :=
  ∃ q ∈ (follow tokens pattern ⟨i, []⟩ ⟨0, []⟩).1, q.pos = j

/-- Where the matcher goes depends on the place alone. -/
theorem exists_follow_iff {pattern : Pattern} {p : Progress} {t : Trace} {j : Nat} :
    (∃ q ∈ (follow tokens pattern p t).1, q.pos = j) ↔ Finds tokens pattern p.pos j := by
  rw [← (performs_follow pattern p t).1.1 j, places, List.mem_map]

/-- **A repetition honours its minimum for the fewest rounds only.** It goes to a place exactly if
the fewest rounds that lead there are as many as it asks for. Where fewer lead there as well, it
does not, however many rounds lead there too. If no repetition in the item asks for more than one
round, these are rounds of the item's language. -/
theorem follow_repeated (item : Pattern) (separator : Option String) (min : Nat)
    (tokens : List Token) (p : Progress) (t : Trace) (j : Nat) :
    ((∃ q ∈ (follow tokens (.repeated item separator min) p t).1, q.pos = j) ↔
      ∃ n ≥ min, FewestRounds tokens (Follows tokens item) separator p.pos n j) ∧
    (item.isModest = true →
      ((∃ q ∈ (follow tokens (.repeated item separator min) p t).1, q.pos = j) ↔
        ∃ n ≥ min, TakesRounds tokens item separator p.pos n j ∧
          ∀ m < n, ¬TakesRounds tokens item separator p.pos m j)) := by
  refine ⟨?_, fun hmodest => ?_⟩
  · have hfollows : Follows tokens item = Finds tokens item :=
      funext fun i => funext fun j => propext exists_follow_iff
    rw [exists_follow_iff, hfollows, Finds]
  · have hfinds : Finds tokens item = Takes tokens item :=
      funext fun i => funext fun j => propext ⟨Finds.takes, Takes.finds hmodest⟩
    rw [exists_follow_iff, Finds, hfinds]
    simp only [FewestRounds, Rounds.takes_iff, ge_iff_le]

/-- Three tokens, of which at least two are asked for: the third round is found as well. -/
theorem follow_repeated_sample :
    (Pattern.keyword "a").isModest = true ∧
      ∃ n ≥ 2, TakesRounds (tokenize "a a a").tokens (.keyword "a") none 0 n 3 ∧
        ∀ m < n, ¬TakesRounds (tokenize "a a a").tokens (.keyword "a") none 0 m 3 :=
  have hmodest : (Pattern.keyword "a").isModest = true := by decide
  have hfollow : ∃ q ∈ (follow (tokenize "a a a").tokens (.repeated (.keyword "a") none 2)
      ⟨0, []⟩ ⟨0, []⟩).1, q.pos = 3 := by decide +kernel
  have hfewest := follow_repeated (.keyword "a") none 2 (tokenize "a a a").tokens ⟨0, []⟩ ⟨0, []⟩ 3
  ⟨hmodest, (hfewest.2 hmodest).mp hfollow⟩

/-- One token or two, at least twice: two rounds of one token lead where one round of two has been
before, and that place is not found. -/
theorem repeated_misses :
    ¬∀ (item : Pattern) (separator : Option String) (min : Nat) (tokens : List Token)
      (p : Progress) (t : Trace) (n j : Nat), 2 ≤ min → min ≤ n →
      TakesRounds tokens item separator p.pos n j →
      ∃ q ∈ (follow tokens (.repeated item separator min) p t).1, q.pos = j := by
  intro h
  have hfirst : Takes (tokenize "a a").tokens
      (.choice [.keyword "a", .seq [.keyword "a", .keyword "a"]]) 0 1 :=
    .choice List.mem_cons_self (.keyword (by decide +kernel))
  have hsecond : Takes (tokenize "a a").tokens
      (.choice [.keyword "a", .seq [.keyword "a", .keyword "a"]]) 1 2 :=
    .choice List.mem_cons_self (.keyword (by decide +kernel))
  have hfound := h (.choice [.keyword "a", .seq [.keyword "a", .keyword "a"]]) none 2
    (tokenize "a a").tokens ⟨0, []⟩ ⟨0, []⟩ 2 2 (Nat.le_refl 2) (Nat.le_refl 2)
    (.item (.item .none hfirst Nat.one_pos) hsecond (Nat.lt_succ_self 1))
  revert hfound
  decide +kernel

end SplQuery.Pattern

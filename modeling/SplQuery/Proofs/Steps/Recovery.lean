import SplQuery.Proofs.Steps.Primitive

/-!
# Reports, repetition, delimiters and recovery

The steps of the grammar that are made of the basic ones: noting what is wrong and passing over it,
rounds that read a lexeme each, delimiters that are opened and closed again, skipping the rest of a
stage, and going down a level.
-/

namespace SplQuery.Parser

open State

variable {s t : State}

/-! ## Noting what is wrong -/

theorem fresh_ends (place : Nat) (s : State) : Ends (fresh place) s fun _ t => Stays 0 s t := by
  refine Ends.bind (P := fun a t => a = s ∧ t = s) (.get ⟨rfl, rfl⟩) fun a t ⟨ha, ht⟩ => ?_
  subst ha ht
  split
  · exact .pure (Stays.refl _)
  · refine Ends.bind (P := fun _ u => Stays 0 t u) (.modify ?_) fun _ _ hu => .pure hu
    refine ⟨⟨⟨rfl, List.suffix_refl _, rfl, rfl, rfl⟩, fun hs _ => ⟨?_, Nat.le_refl _⟩⟩, rfl⟩
    exact ⟨hs.fault, hs.patience_le, hs.least_pos, hs.placed, hs.openers, hs.reports⟩

theorem reportAt_ends {kind : DiagnosticKind} {span : Span} {detail : Option String}
    (h : span.Ordered) : Ends (reportAt kind span detail) s fun _ t => Stays 0 s t := by
  refine (fresh_ends span.start s).bind fun isFresh t ht => ?_
  split
  · refine .modify (ht.trans (stays_addReport fun _ => ⟨h, ?_⟩))
    intro r hr
    cases hr
  · exact .pure ht

theorem report_ends (kind : DiagnosticKind) (s : State) :
    Ends (report kind) s fun _ t => Stays 0 s t := by
  refine (currentSpan_ends s).bind fun span t ⟨ht, hspan⟩ => ?_
  exact (reportAt_ends (hspan ▸ t.span_ordered)).mono fun _ _ hu => ht.trans hu

theorem reportWith_ends (kind : DiagnosticKind) (detail : String) (s : State) :
    Ends (reportWith kind detail) s fun _ t => Stays 0 s t := by
  refine (currentSpan_ends s).bind fun span t ⟨ht, hspan⟩ => ?_
  exact (reportAt_ends (hspan ▸ t.span_ordered)).mono fun _ _ hu => ht.trans hu

theorem bumpAsError_ends {k : Kind} (h : s.next? = some k) :
    Ends bumpAsError s fun _ t => Reads 0 s t := by
  refine Ends.bind (P := fun a t => a = s ∧ t = s) (.get ⟨rfl, rfl⟩) fun a t ⟨ha, ht⟩ => ?_
  subst ha ht
  have hne : t.rest.isEmpty = false := List.isEmpty_eq_false_iff.mpr (rest_ne_nil_of_next? h)
  rw [hne]
  exact single_ends h

theorem refuse_ends {kind : DiagnosticKind} {k : Kind} (h : s.next? = some k) :
    Ends (refuse kind) s fun _ t => Reads 0 s t := by
  refine (report_ends kind s).bind fun _ t ht => ?_
  exact (bumpAsError_ends (ht.next?.trans h)).mono fun _ _ hu => ht.passes.reads hu

theorem refuseWith_ends {kind : DiagnosticKind} {detail : String} {k : Kind}
    (h : s.next? = some k) : Ends (refuseWith kind detail) s fun _ t => Reads 0 s t := by
  refine (reportWith_ends kind detail s).bind fun _ t ht => ?_
  exact (bumpAsError_ends (ht.next?.trans h)).mono fun _ _ hu => ht.passes.reads hu

theorem expect_ends (kind : Kind) (spelling : String) (s : State) :
    Ends (expect kind spelling) s fun _ t => Passes 1 s t := by
  refine (eat_ends kind s).bind fun found t ht => ?_
  obtain ⟨rfl, -, ht⟩ | ⟨rfl, -, ht⟩ := ht
  · exact .pure ht.passes
  · exact (reportWith_ends _ _ t).bind fun _ _ hu => .pure (ht.trans hu).passes

/-! ## Repetition -/

section Repetition

variable {σ : Type} {m k : Nat} {I : σ → State → Prop} {R : σ → State → σ → State → Prop}

/-- A round from `s` that goes on has read a lexeme, with `m` looks since; one that ends the
repetition has spent `k` looks. -/
def Round (m k : Nat) (I : σ → State → Prop) (R : σ → State → Prop) (s : State)
    (r : ForInStep σ) (t : State) : Prop :=
  match r with
  | .done b => Passes k s t ∧ R b t
  | .yield b => Reads m s t ∧ I b t

/-- A repetition either ends in its first round or has read something. -/
theorem loop_round {init : σ} {body : σ → Parser (ForInStep σ)} (hm : 2 * m < fullPatience)
    (hI : I init s) (hbody : ∀ a t, I a t → Ends (body a) t (Round m k I (R a t) t)) :
    Ends (loop init body) s fun b u =>
      (Passes k s u ∧ R init s b u) ∨ (Reads (m + k) s u ∧ ∃ a t, I a t ∧ R a t b u) := by
  refine loop_ends (I := fun a t => I a t ∧ ((a = init ∧ t = s) ∨ Reads m s t)) (fun _ => 0)
    (Nat.zero_le _) ⟨hI, .inl ⟨rfl, rfl⟩⟩ ?_
  rintro a t ⟨ha, hreach⟩
  refine (hbody a t ha).mono fun r u hr => ?_
  cases r with
  | done b =>
    obtain ⟨hu, hR⟩ := hr
    obtain ⟨rfl, rfl⟩ | ht := hreach
    · exact .inl ⟨hu, hR⟩
    · exact .inr ⟨ht.trans hu, a, t, ha, hR⟩
  | yield b =>
    obtain ⟨hu, hb⟩ := hr
    refine ⟨⟨hb, .inr ?_⟩, by have := hu.shorter; omega⟩
    obtain ⟨rfl, rfl⟩ | ht := hreach
    · exact hu
    · exact (ht.again hu (by omega)).le (by omega)

/-- A repetition whose rounds need no invariant. -/
theorem loop_passes {init : σ} {body : σ → Parser (ForInStep σ)} (hm : 2 * m < fullPatience)
    (hbody : ∀ a t, Ends (body a) t (Round m k (fun _ _ => True) (fun _ _ => True) t)) :
    Ends (loop init body) s fun _ u => Passes (m + k) s u := by
  refine (loop_round (R := fun _ _ _ _ => True) hm trivial fun a t _ => hbody a t).mono ?_
  rintro b u (⟨hu, -⟩ | ⟨hu, -⟩)
  · exact hu.le (Nat.le_add_left _ _)
  · exact hu.passes

/-- What one round of a step that is repeated while it answers `true` has to do. -/
def Again (m k : Nat) (R : State → Prop) (s : State) (b : Bool) (t : State) : Prop :=
  (b = true ∧ Reads m s t) ∨ (b = false ∧ Passes k s t ∧ R t)

theorem whileTrue_ends {body : Parser Bool} {R : State → Prop}
    (hm : 2 * m < fullPatience) (hbody : ∀ t, Ends body t (Again m k R t)) :
    Ends (whileTrue body) s fun _ u => Passes (m + k) s u ∧ R u := by
  refine Ends.mono (loop_round (k := k) (I := fun _ _ => True) (R := fun _ _ _ => R) hm trivial
    fun _ t _ => ?_) ?_
  · refine (hbody t).bind fun b u hb => .pure ?_
    obtain ⟨rfl, hu⟩ | ⟨rfl, hu, hR⟩ := hb
    · exact ⟨hu, trivial⟩
    · exact ⟨hu, hR⟩
  · rintro b u (⟨hu, hR⟩ | ⟨hu, -, -, -, hR⟩)
    · exact ⟨hu.le (Nat.le_add_left _ _), hR⟩
    · exact ⟨hu.passes, hR⟩

theorem whileTrue_passes {body : Parser Bool}
    (hm : 2 * m < fullPatience) (hbody : ∀ t, Ends body t (Again m k (fun _ => True) t)) :
    Ends (whileTrue body) s fun _ u => Passes (m + k) s u :=
  (whileTrue_ends hm hbody).mono fun _ _ h => h.1

end Repetition

/-! ## Delimiters -/

section Delimiters

variable {m n : Nat} {u : State}

/-- From `s` to `t` the delimiter ahead was noted as opened. -/
structure Opens (s t : State) : Prop where
  leaves : t.leaves = s.leaves
  rest : t.rest <:+ s.rest
  stop : t.stop = s.stop
  openers : t.openers.tail = s.openers
  commands : t.commands = s.commands
  ahead : t.ahead = s.ahead
  sound : s.Sound → 0 < s.patience → t.Sound ∧ s.patience ≤ t.patience

/-- From `s` to `t` the innermost delimiter was closed, or noted as left open. -/
structure Closes (n : Nat) (s t : State) : Prop where
  leaves : t.leaves = s.leaves
  rest : t.rest <:+ s.rest
  stop : t.stop = s.stop
  openers : t.openers = s.openers.tail
  commands : t.commands = s.commands
  sound : s.Sound → n < s.patience → t.Sound ∧ s.patience ≤ t.patience + n

theorem Opens.next? (h : Opens s t) : t.next? = s.next? := by
  rw [State.next?, State.next?, h.ahead]

theorem Opens.leads {v : State} (h : Opens s t) (hin : Leads t u) (hout : Closes n u v) :
    Leads s v where
  leaves := (hout.leaves.trans hin.leaves).trans h.leaves
  rest := (hout.rest.trans hin.rest).trans h.rest
  stop := (hout.stop.trans hin.stop).trans h.stop
  openers := by rw [hout.openers, hin.openers, h.openers]
  commands := (hout.commands.trans hin.commands).trans h.commands

/-- Between delimiters that are opened and closed the stack is what it was outside. -/
theorem Opens.passes {v : State} (h : Opens s t) (hin : Passes m t u) (hout : Closes n u v) :
    Passes (m + n) s v := by
  refine ⟨h.leads hin.leads hout, fun hs hmn => ?_⟩
  obtain ⟨ht, hpt⟩ := h.sound hs (by omega)
  obtain ⟨hu, hpu⟩ := hin.sound ht (by omega)
  obtain ⟨hv, hpv⟩ := hout.sound hu (by omega)
  exact ⟨hv, by omega⟩

theorem Opens.reads {v : State} (h : Opens s t) (hin : Reads m t u) (hout : Closes n u v) :
    Reads (m + n) s v := by
  have hshort := hin.shorter
  have hle := h.rest.length_le
  have hle' := hout.rest.length_le
  refine ⟨h.leads hin.leads hout, by omega, fun hs hp => ?_⟩
  have hfull := hs.patience_le
  obtain ⟨ht, hpt⟩ := h.sound hs (by omega)
  obtain ⟨hu, hpu⟩ := hin.sound ht (by omega)
  obtain ⟨hv, hpv⟩ := hout.sound hu (by omega)
  exact ⟨hv, by omega⟩

theorem pushOpener_ends (kind : Kind) (s : State) :
    Ends (pushOpener kind) s fun _ t => Opens s t := by
  refine (currentSpan_ends s).bind fun span t ⟨ht, hspan⟩ => .modify ?_
  have hl := ht.passes.leads
  refine ⟨hl.leaves, hl.rest, hl.stop, hl.openers, hl.commands, ht.ahead, fun hs hp => ?_⟩
  obtain ⟨hts, hpt⟩ := ht.passes.sound hs hp
  refine ⟨⟨hts.fault, hts.patience_le, hts.least_pos, hts.placed, ?_, hts.reports⟩, hpt⟩
  intro o ho
  rcases List.mem_cons.mp ho with rfl | ho
  · subst hspan
    exact ⟨t.span_ordered, Nat.le_refl _⟩
  · exact hts.openers o ho

/-- A delimiter that is left open is noted where it was opened, which was before. -/
theorem reportUnclosed_ends {kind : DiagnosticKind} {opener : Opener} {P : Prop}
    (h : P → s.Sound ∧ opener.span.Ordered ∧ opener.span.start ≤ s.span.start) :
    Ends (reportUnclosed kind opener) s fun _ t =>
      Leads s t ∧ (P → 0 < s.patience → t.Sound ∧ s.patience ≤ t.patience) := by
  refine (currentSpan_ends s).bind fun here t ⟨ht, hhere⟩ => ?_
  refine (fresh_ends here.start t).bind fun isFresh u hu => ?_
  have hpass : Passes 0 s u := ht.passes.trans hu.passes
  split
  · refine .modify ?_
    have hsound (hP : P) (hp : 0 < s.patience) :
        u.Sound ∧ s.patience ≤ u.patience ∧ opener.span.Ordered ∧
          opener.span.start ≤ here.stop := by
      obtain ⟨hs, hordered, hstart⟩ := h hP
      obtain ⟨hus, hpu⟩ := hpass.sound hs hp
      have hle := (hs.placed_of_suffix ht.passes.leads.rest ht.passes.leads.stop).2
      have hspan : here.start ≤ here.stop := hhere ▸ t.span_ordered
      rw [← hhere] at hle
      exact ⟨hus, hpu, hordered, by omega⟩
    refine ⟨hpass.leads.trans ⟨rfl, List.suffix_refl _, rfl, rfl, rfl⟩, fun hP hp => ?_⟩
    obtain ⟨hus, hpu, hordered, hle⟩ := hsound hP hp
    refine ⟨⟨hus.fault, hus.patience_le, hus.least_pos, hus.placed, hus.openers, ?_⟩, hpu⟩
    intro d hd
    rcases List.mem_cons.mp hd with rfl | hd
    · refine ⟨hle, fun r hr => ?_⟩
      rw [List.mem_singleton.mp hr]
      exact hordered
    · exact hus.reports d hd
  · refine .pure ⟨hpass.leads, fun hP hp => ?_⟩
    exact hpass.sound (h hP).1 hp

theorem close_ends (closer : Kind) (kind : DiagnosticKind) (s : State) :
    Ends (close closer kind) s fun _ t => Closes 1 s t := by
  refine Ends.bind (P := fun a t => a = s ∧ t = s) (.get ⟨rfl, rfl⟩) fun a t ⟨ha, ht⟩ => ?_
  subst ha ht
  refine Ends.bind (P := fun _ u => u = { t with openers := t.openers.tail }) (.modify rfl) ?_
  rintro - u rfl
  have hpopped (ht : t.Sound) : State.Sound { t with openers := t.openers.tail } :=
    ⟨ht.fault, ht.patience_le, ht.least_pos, ht.placed,
      fun o ho => ht.openers o (List.mem_of_mem_tail ho), ht.reports⟩
  have hclosed {v : State} (hv : Passes 1 { t with openers := t.openers.tail } v) :
      Closes 1 t v :=
    ⟨hv.leads.leaves, hv.leads.rest, hv.leads.stop, hv.leads.openers, hv.leads.commands,
      fun ht hp => hv.sound (hpopped ht) hp⟩
  refine (eat_ends closer _).bind fun found v hv => ?_
  obtain ⟨rfl, -, hv⟩ | ⟨rfl, -, hv⟩ := hv
  · exact .pure (hclosed hv.passes)
  · rcases hopener : t.openers.head? with _ | opener
    · exact .pure (hclosed hv.passes)
    · have hmem : opener ∈ t.openers := List.mem_of_mem_head? hopener
      have hunclosed : (t.Sound ∧ 1 < t.patience) →
          v.Sound ∧ opener.span.Ordered ∧ opener.span.start ≤ v.span.start := by
        rintro ⟨ht, hp⟩
        obtain ⟨hordered, hstart⟩ := ht.openers opener hmem
        have hle := (ht.placed_of_suffix hv.passes.leads.rest hv.passes.leads.stop).2
        exact ⟨(hv.passes.sound (hpopped ht) hp).1, hordered, Nat.le_trans hstart hle⟩
      refine (reportUnclosed_ends hunclosed).mono fun _ w ⟨hlead, hw⟩ => ?_
      have hl := hv.passes.leads.trans hlead
      refine ⟨hl.leaves, hl.rest, hl.stop, hl.openers, hl.commands, fun ht hp => ?_⟩
      have hpv := (hv.passes.sound (hpopped ht) hp).2
      change t.patience ≤ v.patience + 1 at hpv
      obtain ⟨hws, hpw⟩ := hw ⟨ht, hp⟩ (by omega)
      exact ⟨hws, by omega⟩

end Delimiters

/-! ## Recovery -/

theorem skipOne_ends (stopAtPipe : Bool) (depth : Nat) (s : State) :
    Ends (skipOne stopAtPipe depth) s
      (Round 1 1 (fun _ _ => True) (fun _ _ => s.atEnd = true) s) := by
  have hstep {k : Kind} {t : State} (d : Nat) (ht : Stays 1 s t) (hk : s.next? = some k) :
      Ends (bump >>= fun _ => (pure (.yield d) : Parser (ForInStep Nat))) t
        (Round 1 1 (fun _ _ => True) (fun _ _ => s.atEnd = true) s) :=
    (bump_ends_of_next? (ht.next?.trans hk)).bind fun _ _ hu =>
      .pure ⟨ht.passes.reads hu, trivial⟩
  refine (current_ends s).bind fun k t ⟨ht, hk⟩ => ?_
  have hdone (d : Nat) (hend : s.atEnd = true) :
      Ends (pure (.done d)) t (Round 1 1 (fun _ _ => True) (fun _ _ => s.atEnd = true) s) :=
    .pure ⟨ht.passes, hend⟩
  subst hk
  dsimp only
  split
  · next h => exact hdone _ (by rw [atEnd, h]; rfl)
  · next h =>
    split
    · exact hdone _ (by rw [atEnd, h]; rfl)
    · exact hstep _ ht h
  · next h =>
    split
    · exact hdone _ (by rw [atEnd, h]; rfl)
    · exact hstep _ ht h
  all_goals next h => exact hstep _ ht h

theorem skipBalanced_ends (stopAtPipe : Bool) (s : State) :
    Ends (skipBalanced stopAtPipe) s fun _ t =>
      Passes 2 s t ∧ (s.atEnd = false → Reads 2 s t) := by
  refine Ends.bind (loop_round (R := fun _ t _ _ => t.atEnd = true) (by decide) trivial
    fun a t _ => skipOne_ends stopAtPipe a t) ?_
  rintro - t (⟨ht, hend⟩ | ⟨ht, -⟩) <;> refine .pure ?_
  · exact ⟨ht.le (by decide), fun h => by rw [h] at hend; cases hend⟩
  · exact ⟨ht.passes, fun _ => ht⟩

theorem recover_ends (kind : DiagnosticKind) (detail : String) (s : State) :
    Ends (recover kind detail) s fun _ t =>
      Passes 3 s t ∧ (s.atEnd = false → Reads 3 s t) := by
  refine (atStageEnd_ends s).bind fun stop t ⟨ht, hstop⟩ => ?_
  split
  · next h =>
    refine (reportWith_ends kind detail t).mono fun _ u hu => ?_
    refine ⟨(ht.trans hu).passes.le (by decide), fun hend => ?_⟩
    rw [← hstop, h] at hend
    cases hend
  · next h =>
    refine node_ends ((reportWith_ends kind detail _).bind fun _ u hu => ?_)
    refine (skipBalanced_ends true u).mono fun _ v hv => ?_
    have hend : u.atEnd = s.atEnd := hu.atEnd.trans ht.atEnd
    refine ⟨ht.passes.trans (hu.passes.trans hv.1).close, fun hs => ?_⟩
    exact ht.passes.reads (hu.passes.reads (hv.2 (hend.trans hs))).close

/-! ## Nesting -/

/-- What the level below promises: each part, started with full patience, spends fewer looks than
that. -/
structure Inner.Fits (inner : Inner) : Prop where
  pipeline : ∀ s, Ends inner.pipeline s fun _ t => Passes 200 s t
  searchNot : ∀ stop s, Ends (inner.searchNot stop) s fun _ t => Passes 200 s t
  searchTerms : ∀ s, Ends inner.searchTerms s fun _ t => Passes 200 s t
  expression : ∀ least s, Ends (inner.expression least) s fun _ t => Passes 200 s t

/-- Every level below that there is keeps its promise. -/
def Fits (below : Option Inner) : Prop := ∀ inner ∈ below, inner.Fits

/-- Whether or not there is a level below, going down costs no more than skipping. -/
theorem descend_ends {below : Option Inner} {stopAtPipe : Bool} {body : Inner → Parser Unit}
    (h : ∀ inner ∈ below, ∀ s, Ends (body inner) s fun _ t => Passes 200 s t) :
    Ends (descend below stopAtPipe body) s fun _ t => Passes 2 s t := by
  rcases below with _ | inner
  · refine (currentSpan_ends s).bind fun span t ⟨ht, hspan⟩ => ?_
    refine Ends.bind (P := fun a u => u = t) (.get rfl) ?_
    rintro a u rfl
    have hskip {u : State} (hu : Stays 0 s u) :
        Ends (node .error (skipBalanced stopAtPipe)) u fun _ v => Passes 2 s v :=
      (node_passes ((skipBalanced_ends stopAtPipe _).mono fun _ _ h => h.1)).mono
        fun _ _ hv => hu.passes.trans hv
    split
    · exact hskip ht
    · refine (reportAt_ends (hspan ▸ u.span_ordered)).bind fun _ v hv => ?_
      exact hskip (ht.trans hv)
  · refine Ends.bind (P := fun _ t => t = s.refresh) (.modify rfl) ?_
    rintro - t rfl
    refine (h inner rfl s.refresh).bind fun _ t ht => .modify ?_
    refine ⟨(passes_refresh s).leads.trans (ht.leads.trans (passes_refresh t).leads), ?_⟩
    intro hs hp
    have hfull : 200 < s.refresh.patience := by
      change 200 < fullPatience
      decide
    obtain ⟨hts, hpt⟩ := ht.sound ((passes_refresh s).sound hs (by omega)).1 hfull
    have := hs.patience_le
    refine ⟨⟨hts.fault, Nat.le_refl _, hts.least_pos, hts.placed, hts.openers, hts.reports⟩, ?_⟩
    change s.patience ≤ fullPatience + 2
    omega

end SplQuery.Parser

namespace SplQuery.State

open SplQuery.Parser

/-! ## Rounds

What the rounds of the grammar do after they have looked at what is ahead: they put something
into the tree and go on, or they stop there. What is missing is noted at the end.
-/

variable {α σ : Type} {m k n r : Nat} {s t : State} {p : Parser α}

theorem Stays.goesOn {g : α → σ} {R : σ → State → Prop} (h : Stays n s t) (hm : n + r ≤ m)
    (hp : Ends p t fun _ u => Reads r t u) :
    Ends (p >>= fun a => pure (.yield (g a))) t (Round m k (fun _ _ => True) R s) :=
  hp.bind fun _ _ hu => .pure ⟨(h.passes.reads hu).le hm, trivial⟩

theorem Stays.stops {b : σ} {R : σ → State → Prop} {I : σ → State → Prop} (h : Stays n s t)
    (hk : n ≤ k) (hR : R b t) : Ends (pure (.done b)) t (Round m k I R s) :=
  .pure ⟨h.passes.le hk, hR⟩

theorem Stays.answersYes {R : State → Prop} (h : Stays n s t) (hm : n + r ≤ m)
    (hp : Ends p t fun _ u => Reads r t u) :
    Ends (p >>= fun _ => pure true) t (Again m k R s) :=
  hp.bind fun _ _ hu => .pure (.inl ⟨rfl, (h.passes.reads hu).le hm⟩)

theorem Stays.answersNo {R : State → Prop} (h : Stays n s t) (hk : n ≤ k) (hR : R t) :
    Ends (pure false) t (Again m k R s) :=
  .pure (.inr ⟨rfl, h.passes.le hk, hR⟩)

section Noting

variable {note : Parser Unit}

theorem Passes.notes (h : Passes m s t) (hr : m ≤ r) (hnote : Ends note t fun _ u => Stays 0 t u) :
    Ends note t fun _ u => Passes r s u :=
  h.andThen hr (hnote.mono fun _ _ hu => hu.passes)

theorem Reads.notes (h : Reads m s t) (hr : m ≤ r) (hnote : Ends note t fun _ u => Stays 0 t u) :
    Ends note t fun _ u => Reads r s u :=
  h.andThen hr (hnote.mono fun _ _ hu => hu.passes)

/-- Noting something only where a condition holds. -/
theorem Passes.notesIf {c : Prop} [Decidable c] (h : Passes m s t) (hr : m ≤ r)
    (hnote : Ends note t fun _ u => Stays 0 t u) :
    Ends (if c then note else pure ⟨⟩) t fun _ u => Passes r s u := by
  split
  · exact h.notes hr hnote
  · exact .pure (h.le hr)

end Noting

end SplQuery.State

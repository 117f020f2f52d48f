import SplQuery.Proofs.Law.Grammar

/-!
# Where reports are made

A parse notes something only where a lexeme is next that is no trivia, or at the end, and only once
at each such place: it never goes back, so that the place of the last report is all that it has to
remember. A report is about the lexeme at its place, or about what lies between a delimiter before
it and that lexeme, which is then not the closer that it should be.

* `Spot` — the stretch of a lexeme that is no trivia, or the end.
* `Diagnostic.MadeAt` — a diagnostic that was made at a place.
* `State.Placed` — the reports of a state were made one after another.
* `State.placed_law` — every basic step keeps this.
-/

namespace SplQuery

/-- One of some stretches, or the end of the text. -/
def Spot (spans : List Span) (stop : Nat) (s : Span) : Prop := s ∈ spans ∨ s = .emptyAt stop

/-- The diagnostic was made where a stretch was next that starts at the place. It is about that
stretch, or about all that there is from an opening delimiter, which it names, to the end of that
stretch. -/
def Diagnostic.MadeAt (spans : List Span) (stop place : Nat) (d : Diagnostic) : Prop :=
  ∃ here, Spot spans stop here ∧ here.start = place ∧ d.span.stop = here.stop ∧
    (d.span.start = place ∧ d.related = [] ∨
      ∃ opener message, d.related = [⟨opener, message⟩] ∧ Spot spans stop opener ∧
        d.span.start = opener.start ∧ opener.start ≤ place)

namespace State

variable {spans : List Span} {stop : Nat} {s t : State}

/-- What was noted was noted at places one after another, none of them behind the lexeme that is
next. What is to come are the stretches that may be spoken of, and so are the open delimiters. -/
structure Placed (spans : List Span) (stop : Nat) (s : State) : Prop where
  stop_eq : s.stop = stop
  adjoin : Lexeme.Adjoin s.span.start s.rest s.stop
  rest : ∀ l ∈ s.rest, l.isTrivia = false → l.span ∈ spans
  openers : ∀ o ∈ s.openers, Spot spans stop o.span ∧ o.span.start ≤ s.span.start
  reports : ∃ places : List Nat, places.Pairwise (· > ·) ∧
    List.Forall₂ (Diagnostic.MadeAt spans stop) places s.reports ∧
    places.head? = s.lastReport ∧ ∀ place ∈ places.head?, place ≤ s.span.start

/-- What is next where no trivia is ahead. -/
theorem Placed.spot (h : s.Placed spans stop) (hs : s.Ready) : Spot spans stop s.span := by
  unfold State.span
  cases hrest : s.rest with
  | nil => exact .inr (congrArg Span.emptyAt h.stop_eq)
  | cons l ls =>
    exact .inl (h.rest l (by rw [hrest]; exact List.mem_cons_self) (hs l (by rw [hrest]; rfl)))

/-- A parse that has read on is further on. -/
theorem Placed.of_suffix (h : s.Placed spans stop) (hrest : t.rest <:+ s.rest)
    (hstop : t.stop = s.stop) (hreports : t.reports = s.reports)
    (hlast : t.lastReport = s.lastReport) (hopeners : t.openers ⊆ s.openers) :
    t.Placed spans stop := by
  obtain ⟨read, hread⟩ := hrest
  have hadjoin := h.adjoin
  rw [← hread, Lexeme.adjoin_append_iff] at hadjoin
  obtain ⟨place, hbefore, hafter⟩ := hadjoin
  rw [← hstop] at hafter
  have hle : s.span.start ≤ t.span.start := span_start hafter ▸ hbefore.start_le_stop
  obtain ⟨places, hpairwise, hmade, hhead, hplace⟩ := h.reports
  refine ⟨hstop.trans h.stop_eq, (span_start hafter).symm ▸ hafter, fun l hl => ?_, fun o ho => ?_,
    places, hpairwise, hreports ▸ hmade, hhead.trans hlast.symm, fun p hp => ?_⟩
  · exact h.rest l (hread ▸ List.mem_append_right _ hl)
  · obtain ⟨hspot, hstart⟩ := h.openers o (hopeners ho)
    exact ⟨hspot, Nat.le_trans hstart hle⟩
  · exact Nat.le_trans (hplace p hp) hle

theorem Placed.of_notes (h : s.Placed spans stop) (hrest : t.rest <:+ s.rest)
    (hnotes : t.notes = s.notes) : t.Placed spans stop := by
  have hopeners : t.openers = s.openers := congrArg Notes.openers hnotes
  exact h.of_suffix hrest (congrArg Notes.stop hnotes) (congrArg Notes.reports hnotes)
    (congrArg Notes.lastReport hnotes) fun _ ho => hopeners ▸ ho

theorem Placed.bump (h : s.Placed spans stop) : s.bump.Placed spans stop := by
  refine h.of_notes ?_ (notes_bump s)
  cases hrest : s.rest with
  | nil =>
    have hbump : s.bump = s.withFault .pastEnd := by rw [State.bump, hrest]
    rw [hbump, ← hrest]
    exact List.suffix_refl _
  | cons l ls =>
    rw [bump_of_cons hrest]
    exact List.suffix_cons l ls

theorem Placed.peek (h : s.Placed spans stop) : s.skipTrivia.look.Placed spans stop :=
  h.of_notes ((look_rest s.skipTrivia).symm ▸ List.dropWhile_suffix _) (notes_look s.skipTrivia)

/-! ## Notes -/

theorem Placed.closed (h : s.Placed spans stop) :
    (s.withNotes s.notes.closed).Placed spans stop :=
  h.of_suffix (List.suffix_refl _) rfl rfl rfl fun _ => List.mem_of_mem_tail

theorem Placed.opener (h : s.Placed spans stop) (hs : s.Ready) (kind : Kind) :
    (s.withNotes (s.notes.opened kind s.span)).Placed spans stop := by
  -- the opener is where the parse stands, and the parse never goes back
  refine ⟨h.stop_eq, h.adjoin, h.rest, fun o ho => ?_, h.reports⟩
  rcases List.mem_cons.mp ho with rfl | ho
  · exact ⟨h.spot hs, Nat.le_refl _⟩
  · exact h.openers o ho

/-- What is told at the next lexeme is told after everything else, unless the last report was made
there too. -/
theorem Placed.told (h : s.Placed spans stop) {kind : DiagnosticKind} {span : Span}
    {message : String} {related : List Related}
    (hmade : ∀ hints, Diagnostic.MadeAt spans stop s.span.start
      ⟨kind, span, message, related, hints⟩) :
    (s.withNotes (s.notes.told s.span.start kind span message related)).Placed spans stop := by
  rw [Notes.told]
  split
  · exact h.of_notes (List.suffix_refl _) rfl
  · next hfresh =>
    obtain ⟨places, hpairwise, hplaces, hhead, hle⟩ := h.reports
    refine ⟨h.stop_eq, h.adjoin, h.rest, h.openers, s.span.start :: places, ?_,
      .cons (hmade _) hplaces, rfl, ?_⟩
    · refine List.pairwise_cons.mpr ⟨fun place hplace => ?_, hpairwise⟩
      -- the last report was made before this place, and all others before that one
      cases places with
      | nil => cases hplace
      | cons last places =>
        have hlast : last ≠ s.span.start := fun heq =>
          hfresh (beq_iff_eq.mpr (hhead.symm.trans (congrArg some heq)))
        have hbefore : last < s.span.start := Nat.lt_of_le_of_ne (hle last rfl) hlast
        rcases List.mem_cons.mp hplace with rfl | hplace
        · exact hbefore
        · exact Nat.lt_trans ((List.pairwise_cons.mp hpairwise).1 place hplace) hbefore
    · rintro _ ⟨⟩
      exact Nat.le_refl _

theorem Placed.toldAt (h : s.Placed spans stop) (hs : s.Ready) (kind : DiagnosticKind)
    (detail : Option String) :
    (s.withNotes (s.notes.toldAt kind s.span detail)).Placed spans stop :=
  h.told fun _ => ⟨s.span, h.spot hs, rfl, rfl, .inl ⟨rfl, rfl⟩⟩

/-- What is told of a delimiter is told where its closer is missed. -/
theorem Placed.unclosed (h : s.Placed spans stop) (hs : s.Ready) (kind : DiagnosticKind) :
    (s.withNotes (s.notes.unclosed kind s.span)).Placed spans stop := by
  rw [Notes.unclosed]
  cases hopener : s.notes.openers.head? with
  | none => exact h.closed
  | some o =>
    obtain ⟨hspot, hstart⟩ := h.openers o (List.mem_of_mem_head? hopener)
    exact h.closed.told fun _ =>
      ⟨s.span, h.spot hs, rfl, rfl, .inr ⟨o.span, _, rfl, hspot, rfl, hstart⟩⟩

/-! ## Passing over -/

theorem Placed.opened (h : s.Placed spans stop) : (Parser.opened s).Placed spans stop :=
  h.of_notes (List.suffix_refl _) rfl

theorem Placed.refused (h : s.Placed spans stop) :
    (Parser.single .error s).2.Placed spans stop :=
  have hread : (Parser.opened s).bump.Placed spans stop := h.opened.bump
  hread.of_notes (List.suffix_refl _) rfl

theorem Placed.skipOne (h : s.Placed spans stop) (stopAtPipe : Bool) (depth : Nat) :
    (Parser.skipOne stopAtPipe depth s).2.Placed spans stop := by
  cases hnext : s.next? with
  | none =>
    rw [Parser.skipOne_of_none hnext]
    exact h.peek
  | some k =>
    rw [Parser.skipOne_of_some hnext]
    split
    · exact h.peek
    · exact h.peek.bump

theorem Placed.skipped (h : s.Placed spans stop) (stopAtPipe : Bool) :
    (Parser.node .error (Parser.skipBalanced stopAtPipe) s).2.Placed spans stop := by
  have hrounds (fuel depth : Nat) (t : State) (ht : t.Placed spans stop) :
      State.Placed spans stop (Parser.loopFrom (Parser.skipOne stopAtPipe) fuel depth t).2 := by
    induction fuel generalizing depth t with
    | zero => exact ht.of_notes (List.suffix_refl _) rfl
    | succ fuel ih =>
      have hround := ht.skipOne stopAtPipe depth
      rcases hstep : Parser.skipOne stopAtPipe depth t with ⟨a | a, u⟩ <;> rw [hstep] at hround
      · rw [Parser.loopFrom_done hstep]
        exact hround
      · rw [Parser.loopFrom_yield hstep]
        exact ih a u hround
  have hskipped := hrounds ((Parser.opened s).rest.length + 2) 0 _ h.opened
  exact hskipped.of_notes (List.suffix_refl _) rfl

/-- Every basic step keeps reports in their places. -/
theorem placed_law (spans : List Span) (stop : Nat) :
    Law false fun _ s t => s.Placed spans stop → t.Placed spans stop where
  trans h h' hs := h' (h hs)
  idle _ _ _ hrest hnotes hs := hs.of_notes (hrest ▸ List.suffix_refl _) hnotes
  skipTrivia _ _ hs := hs.of_notes (List.dropWhile_suffix _) rfl
  drain _ _ hs := hs.of_notes (List.suffix_refl _) rfl
  bump _ _ hs := hs.bump
  node _ _ _ h hs := (h hs.opened).of_notes (List.suffix_refl _) rfl
  wrap _ h hs := (h (hs.of_notes (List.suffix_refl _) rfl)).of_notes (List.suffix_refl _) rfl
  byRecipe _ := nofun
  told _ kind detail hready hs := hs.toldAt hready kind detail
  opener _ kind hready hs := hs.opener hready kind
  closed _ _ hs := hs.closed
  unclosed _ kind hready hs := hs.unclosed hready kind
  entered _ _ _ hs := hs.of_suffix (List.suffix_refl _) rfl rfl rfl (List.Subset.refl _)
  left _ _ hs := hs.of_suffix (List.suffix_refl _) rfl rfl rfl (List.Subset.refl _)
  refused _ _ _ _ hs := hs.refused
  skipped stopAtPipe _ hs := hs.skipped stopAtPipe

end State

end SplQuery

import SplQuery.Proofs.Fair.Tree
import SplQuery.Proofs.Made.Notes

/-!
# Fair states

Between two steps of a parse all trees that have been put together are fair, and the notes fit the
places: the lexemes to come adjoin what has been read, the open delimiters stand before them, and
where the last report was made there is a report.

* `State.Fair` — a state of this kind.
* `State.Kept` — from a state to a fair one; reports and lexemes that were there stay.
* `State.Fair.close`, `State.Fair.wrap` — what a node asks for.
* `State.Fair.told` — what is reported at a place is told there.
-/

namespace SplQuery

open SplQuery.Tree

namespace State

/-- The place up to which lexemes have been read, in a node of which the trees start at `start`. -/
def place (start : Nat) (s : State) : Nat := start + widthAll s.drain.built.reverse

/-- All trees are fair and all notes fit their places. The trees of the innermost node start at
`start`; with `whole` they are all of its trees so far. -/
structure Fair (whole : Bool) (start : Nat) (s : State) : Prop where
  trees : EverywhereAll (Tree.Fair s.reports) start s.built.reverse
  seated : whole = true → SeatedSoFar s.built
  held : ∀ l ∈ s.held, l.isTrivia = true
  placed : Lexeme.Adjoin (s.place start) s.rest s.stop
  filled : ∀ l ∈ s.rest, l.start < l.stop
  last : ∀ p ∈ s.lastReport, ∃ d ∈ s.reports, d.span.start ≤ p ∧ (p < d.span.stop ∨ s.stop ≤ p)
  openers : ∀ o ∈ s.openers, o.span.start ≤ s.place start

/-- To a fair state, in which there is every report of the one before and, with `reads` or where
there was one before, a lexeme that is no trivia among its trees. -/
structure Kept (whole : Bool) (start : Nat) (reads : Bool) (s t : State) : Prop where
  fair : t.Fair whole start
  reports : ∀ d ∈ s.reports, d ∈ t.reports
  token : reads = true ∨ hasToken s.built = true → hasToken t.built = true

section Kept

variable {whole : Bool} {start : Nat} {reads reads' : Bool} {s t u : State}

theorem Kept.trans (h : Kept whole start reads s t) (h' : Kept whole start reads' t u) :
    Kept whole start (reads || reads') s u := by
  refine ⟨h'.fair, fun d hd => h'.reports d (h.reports d hd), fun htoken => h'.token ?_⟩
  rw [Bool.or_eq_true] at htoken
  rcases htoken with (hreads | hreads) | htoken
  · exact .inr (h.token (.inl hreads))
  · exact .inl hreads
  · exact .inr (h.token (.inr htoken))

theorem Kept.forget (h : Kept whole start reads s t) : Kept whole start false s t :=
  ⟨h.fair, h.reports, fun htoken => h.token (.inr (htoken.resolve_left Bool.false_ne_true))⟩

theorem Kept.reports_ne (h : Kept whole start reads s t) (hs : s.reports ≠ []) : t.reports ≠ [] :=
  fun hnone => hs (eq_nil_of_reports h.reports hnone)

/-- To a fair state with the same trees and reports. -/
theorem Fair.kept (h : t.Fair whole start) (hbuilt : t.built = s.built)
    (hreports : t.reports = s.reports) : Kept whole start false s t := by
  refine ⟨h, fun d hd => hreports ▸ hd, fun htoken => ?_⟩
  rw [hbuilt]
  exact htoken.resolve_left Bool.false_ne_true

end Kept

/-! ## Places -/

variable {whole : Bool} {start : Nat} {reads : Bool} {s t u : State}

theorem place_eq (start : Nat) (s : State) :
    s.place start = start + widthAll s.built.reverse + widthAll (s.held.map leaf) := by
  rw [place, drain, List.reverse_append, List.reverse_reverse, widthAll_append, Nat.add_assoc]

theorem place_of_same (start : Nat) (hbuilt : t.built = s.built) (hheld : t.held = s.held) :
    t.place start = s.place start := by
  rw [place_eq, place_eq, hbuilt, hheld]

/-- Lexemes that adjoin take as many bytes as they have. -/
theorem stop_of_adjoin {ls : List Lexeme} {stop : Nat} (h : Lexeme.Adjoin start ls stop) :
    stop = start + widthAll (ls.map leaf) := by
  induction ls generalizing start with
  | nil => exact h.symm
  | cons l ls ih =>
    rw [ih h.2, List.map_cons, widthAll_cons, leaf, width_leaf, Lexeme.stop, h.1, Nat.add_assoc]

/-- The next lexeme is at the place up to which lexemes have been read. It covers that place, unless
that is the end. -/
theorem Fair.span (h : s.Fair whole start) :
    s.span.start = s.place start ∧
      (s.place start < s.span.stop ∨ s.stop ≤ s.place start) := by
  have hstart := span_start h.placed
  refine ⟨hstart, ?_⟩
  rw [← hstart]
  unfold State.span
  cases hrest : s.rest with
  | nil => exact .inr (Nat.le_refl _)
  | cons l ls => exact .inl (h.filled l (by rw [hrest]; exact List.mem_cons_self))

/-- While there are lexemes to come the end is further on. -/
theorem Fair.place_lt_stop (h : s.Fair whole start) (hrest : s.rest ≠ []) :
    s.place start < s.stop := by
  obtain ⟨l, ls, hls⟩ := List.exists_cons_of_ne_nil hrest
  have hplaced : Lexeme.Adjoin (s.place start) (l :: ls) s.stop := hls ▸ h.placed
  rw [← hplaced.1]
  exact Nat.lt_of_lt_of_le (h.filled l (by rw [hls]; exact List.mem_cons_self))
    hplaced.2.start_le_stop

theorem Fair.reports_of_last (h : s.Fair whole start) {p : Nat} (hlast : s.lastReport = some p) :
    s.reports ≠ [] := by
  obtain ⟨d, hd, -⟩ := h.last p hlast
  exact List.ne_nil_of_mem hd

/-- Where the last report was made, this has been told. -/
theorem Fair.told_of_last (h : s.Fair whole start) {p : Nat} (hlast : s.lastReport = some p)
    (hp : p < s.stop) : Told s.reports p := by
  obtain ⟨d, hd, hstart, hstop⟩ := h.last p hlast
  exact ⟨d, hd, .inr ⟨hstart, hstop.resolve_right (Nat.not_le_of_lt hp)⟩⟩

/-! ## Steps that read nothing -/

theorem Fair.congr (h : s.Fair whole start) (hbuilt : t.built = s.built) (hheld : t.held = s.held)
    (hrest : t.rest = s.rest) (hreports : t.reports = s.reports)
    (hlast : t.lastReport = s.lastReport) (hopeners : t.openers = s.openers)
    (hstop : t.stop = s.stop) : t.Fair whole start := by
  have hplace : t.place start = s.place start := place_of_same start hbuilt hheld
  refine ⟨?_, ?_, ?_, ?_, ?_, ?_, ?_⟩
  · rw [hreports, hbuilt]
    exact h.trees
  · rw [hbuilt]
    exact h.seated
  · rw [hheld]
    exact h.held
  · rw [hplace, hrest, hstop]
    exact h.placed
  · rw [hrest]
    exact h.filled
  · rw [hlast, hreports, hstop]
    exact h.last
  · rw [hopeners, hplace]
    exact h.openers

theorem Fair.withFault (h : s.Fair whole start) (f : Fault) : (s.withFault f).Fair whole start :=
  h.congr rfl rfl rfl rfl rfl rfl rfl

theorem look_reports (s : State) : s.look.reports = s.reports :=
  congrArg Notes.reports (notes_look s)

theorem Fair.look (h : s.Fair whole start) : s.look.Fair whole start := by
  unfold State.look
  split
  · exact h.withFault _
  · exact h.congr rfl rfl rfl rfl rfl rfl rfl

theorem Fair.skipTrivia (h : s.Fair whole start) : s.skipTrivia.Fair whole start := by
  have hplaced := h.placed
  rw [← List.takeWhile_append_dropWhile (p := Lexeme.isTrivia) (l := s.rest),
    Lexeme.adjoin_append_iff] at hplaced
  obtain ⟨place, htaken, hleft⟩ := hplaced
  have hplace : s.skipTrivia.place start = place := by
    rw [stop_of_adjoin htaken, place_eq, place_eq, State.skipTrivia, List.map_append,
      widthAll_append, Nat.add_assoc _ (widthAll (s.held.map leaf))]
  refine ⟨h.trees, h.seated, fun l hl => ?_, hplace ▸ hleft, fun l hl => ?_, h.last, fun o ho => ?_⟩
  · rcases List.mem_append.mp hl with hl | hl
    · exact h.held l hl
    · exact List.all_eq_true.mp List.all_takeWhile l hl
  · exact h.filled l ((List.dropWhile_suffix _).subset hl)
  · exact hplace ▸ Nat.le_trans (h.openers o ho) htaken.start_le_stop

theorem Fair.drain (h : s.Fair whole start) : s.drain.Fair whole start := by
  refine ⟨?_, fun hwhole => seatedSoFar_leaves s.held (h.seated hwhole), fun l hl => (by cases hl),
    h.placed, h.filled, h.last, h.openers⟩
  rw [State.drain, List.reverse_append, List.reverse_reverse, everywhereAll_append]
  exact ⟨h.trees, everywhereAll_leaves _ _⟩

/-- Trivia that was held back is put after what was there. -/
theorem Fair.keptDrain (h : s.Fair whole start) : Kept whole start false s s.drain := by
  refine ⟨h.drain, fun d hd => hd, fun htoken => ?_⟩
  rw [State.drain, hasToken_append, htoken.resolve_left Bool.false_ne_true, Bool.or_true]

/-! ## Reading -/

theorem Fair.bump {l : Lexeme} {ls : List Lexeme} (h : s.Fair whole start)
    (hrest : s.rest = l :: ls) : s.bump.Fair whole start := by
  have hdrain := h.drain
  have hplaced : Lexeme.Adjoin (s.place start) (l :: ls) s.stop := hrest ▸ h.placed
  rw [bump_of_cons hrest]
  have hplace : State.place start { s.refresh.drain with
      rest := ls, built := leaf l :: s.drain.built } = l.stop := by
    rw [place_eq, List.reverse_cons, widthAll_append, ← Nat.add_assoc]
    change s.place start + widthAll [leaf l] + 0 = l.stop
    rw [← hplaced.1, Lexeme.stop, widthAll_cons, leaf, width_leaf]
    rfl
  have hleaf : (leaf l).isVoid = false := rfl
  refine ⟨?_, fun hwhole => ?_, fun l hl => (by cases hl), ?_, fun m hm => ?_, h.last,
    fun o ho => ?_⟩
  · rw [List.reverse_cons, everywhereAll_append]
    exact ⟨hdrain.trees, trivial, trivial⟩
  · exact ⟨fun hvoid => absurd (hleaf.symm.trans hvoid) Bool.false_ne_true, hdrain.seated hwhole⟩
  · rw [hplace]
    exact hplaced.2
  · exact h.filled m (by rw [hrest]; exact List.mem_cons_of_mem l hm)
  · rw [hplace]
    exact Nat.le_trans (h.openers o ho) (Nat.le_trans (Nat.le_of_eq hplaced.1.symm) l.start_le_stop)

/-- Reading keeps a state fair, even where nothing is left to read. -/
theorem Fair.keptBump (h : s.Fair whole start) : Kept whole start false s s.bump := by
  rcases hrest : s.rest with _ | ⟨l, ls⟩
  · rw [State.bump, hrest]
    exact (h.withFault _).kept rfl rfl
  · refine ⟨h.bump hrest, fun d hd => ?_, fun htoken => ?_⟩
    · rw [bump_of_cons hrest]
      exact hd
    · have hdrain := h.keptDrain.token htoken
      rw [bump_of_cons hrest]
      change hasToken (leaf l :: s.drain.built) = true
      rw [hasToken_cons, hdrain, Bool.or_true]

/-- A lexeme that is no trivia is among the trees once it is read. -/
theorem Fair.readBump (h : s.Fair whole start) {k : Kind} (hs : s.Ready)
    (hnext : s.next? = some k) :
    Kept whole start true s s.bump := by
  obtain ⟨l, ls, hrest, -, hl⟩ := hs.rest_of_next? hnext
  refine ⟨h.keptBump.fair, h.keptBump.reports, fun _ => ?_⟩
  rw [bump_of_cons hrest]
  change hasToken (leaf l :: s.drain.built) = true
  have hleaf : (leaf l).leaves = [(l.kind, l.text)] := rfl
  rw [hasToken_cons, hleaf, List.any_cons, show l.kind.isTrivia = false from hl]
  rfl

/-! ## Nodes -/

section Nodes

open SplQuery.Parser (opened cut sinceMark)

variable {inner : Bool} {shape : Shape} {outer : List Tree} {mark : Nat}

/-- What a node asks for that is put after other trees. -/
theorem Fair.closeNode (h : t.Fair inner (start + widthAll outer.reverse))
    (houter : EverywhereAll (Tree.Fair t.reports) start outer.reverse)
    (hseated : whole = true → SeatedSoFar (node shape t.built.reverse :: outer))
    (hnode : Tree.Fair t.reports (start + widthAll outer.reverse) shape t.built.reverse) :
    (t.closeNode shape outer).Fair whole start := by
  have hplace :
      (t.closeNode shape outer).place start = t.place (start + widthAll outer.reverse) := by
    rw [place_eq, place_eq, State.closeNode, List.reverse_cons, widthAll_append, widthAll_cons,
      width_node, widthAll_nil, Nat.add_zero, ← Nat.add_assoc]
  refine ⟨?_, hseated, h.held, hplace ▸ h.placed, h.filled, h.last, fun o ho => ?_⟩
  · rw [State.closeNode, List.reverse_cons, everywhereAll_append]
    exact ⟨houter, ⟨hnode, h.trees⟩, trivial⟩
  · exact hplace ▸ h.openers o ho

theorem Fair.opened (h : s.Fair whole start) : (opened s).Fair true (s.place start) :=
  ⟨trivial, fun _ => trivial, fun l hl => (by cases hl), h.placed, h.filled, h.last, h.openers⟩

/-- A node is put after what was there; one with nothing in it stands directly after a lexeme. -/
theorem Fair.close (h : s.Fair whole start)
    (hinner : Kept inner (s.place start) reads (Parser.opened s) t)
    (hnode : Tree.Fair t.reports (s.place start) shape t.built.reverse)
    (hvoid : whole = true → (node shape t.built.reverse).isVoid = true →
      EndsSolid s.drain.built.reverse) :
    Kept whole start reads s (t.closeNode shape s.drain.built) := by
  have hdrain := h.drain
  have hmono : ∀ d ∈ s.reports, d ∈ t.reports := hinner.reports
  refine ⟨hinner.fair.closeNode ?_ (fun hwhole => ⟨hvoid hwhole, hdrain.seated hwhole⟩) hnode,
    hmono, fun htoken => ?_⟩
  · exact hdrain.trees.mono fun _ _ _ hfair => hfair.mono hmono
  · rw [State.closeNode, hasToken_cons, Tree.leaves, ← hasToken, hasToken_reverse]
    rcases htoken with hreads | htoken
    · rw [hinner.token (.inl hreads), Bool.true_or]
    · rw [h.keptDrain.token (.inr htoken), Bool.or_true]

/-- A node that is no query, no search and nothing that was passed over is put after what was
there. -/
theorem Fair.closePlain (h : s.Fair whole start)
    (hinner : Kept true (s.place start) reads (Parser.opened s) t) (hplain : shape.isPlain = true)
    (hreads : reads = true ∨ shape.isSolid = false) :
    Kept whole start reads s (t.closeNode shape s.drain.built) := by
  refine h.close hinner (fair_of_plain hplain (fun hsolid => ?_) fun _ => ?_) fun _ hvoid => ?_
  · rw [hasToken_reverse]
    refine hinner.token (.inl (hreads.resolve_right fun hhollow => ?_))
    rw [hhollow] at hsolid
    cases hsolid
  · exact (hinner.fair.seated rfl).seated
  · rw [isVoid_of_plain hplain] at hvoid
    cases hvoid

theorem Fair.cut (h : s.Fair whole start) (mark : Nat) :
    (cut mark s).Fair false (start + widthAll (s.built.drop (sinceMark mark s)).reverse) := by
  have hbuilt : (s.built.drop (sinceMark mark s)).reverse ++ (Parser.cut mark s).built.reverse =
      s.built.reverse := by
    rw [← List.reverse_append]
    exact congrArg List.reverse (List.take_append_drop _ _)
  have hplace : (Parser.cut mark s).place
      (start + widthAll (s.built.drop (sinceMark mark s)).reverse) = s.place start := by
    rw [place_eq, place_eq, ← hbuilt, widthAll_append, Nat.add_assoc start]
    rfl
  have htrees := h.trees
  rw [← hbuilt, everywhereAll_append] at htrees
  refine ⟨htrees.2, fun hwhole => (by cases hwhole), h.held, hplace.symm ▸ h.placed, h.filled,
    h.last, fun o ho => ?_⟩
  rw [hplace]
  exact h.openers o ho

/-- A node is put around what came after a mark. -/
theorem Fair.closeMarked (h : s.Fair whole start)
    (hinner : Kept inner (start + widthAll (s.built.drop (sinceMark mark s)).reverse) reads
      (Parser.cut mark s) t)
    (hfull : (node shape t.built.reverse).isVoid = false)
    (hnode : Tree.Fair t.reports (start + widthAll (s.built.drop (sinceMark mark s)).reverse) shape
      t.built.reverse) :
    Kept whole start reads s (t.closeNode shape (s.built.drop (sinceMark mark s))) := by
  have hmono : ∀ d ∈ s.reports, d ∈ t.reports := hinner.reports
  have hbuilt : s.built.take (sinceMark mark s) ++ s.built.drop (sinceMark mark s) = s.built :=
    List.take_append_drop _ _
  have htrees := h.trees
  rw [← hbuilt, List.reverse_append, everywhereAll_append] at htrees
  refine ⟨hinner.fair.closeNode ?_ (fun hwhole => ⟨fun hvoid => ?_, (h.seated hwhole).drop _⟩)
    hnode, hmono, fun htoken => ?_⟩
  · exact htrees.1.mono fun _ _ _ hfair => hfair.mono hmono
  · rw [hfull] at hvoid
    cases hvoid
  · rw [State.closeNode, hasToken_cons, Tree.leaves, ← hasToken, hasToken_reverse]
    rcases htoken with hreads | htoken
    · rw [hinner.token (.inl hreads), Bool.true_or]
    · rw [← hbuilt, hasToken_append, Bool.or_eq_true] at htoken
      rcases htoken with htoken | htoken
      · rw [hinner.token (.inr htoken), Bool.true_or]
      · rw [htoken, Bool.or_true]

/-- A node around what came after a mark of which nothing is known. -/
theorem Fair.wrap (h : s.Fair whole start)
    (hinner : Kept false (start + widthAll (s.built.drop (sinceMark mark s)).reverse) reads
      (Parser.cut mark s) t)
    (hshape : shape.isWrapped = true) (hreads : reads = true ∨ shape.isSolid = false) :
    Kept whole start reads s (t.closeNode shape (s.built.drop (sinceMark mark s))) := by
  have hplain : shape.isPlain = true := by cases shape <;> first | rfl | cases hshape
  refine h.closeMarked hinner (isVoid_of_plain hplain) (fair_of_plain hplain (fun hsolid => ?_)
    fun hnot => ?_)
  · rw [hasToken_reverse]
    refine hinner.token (.inl (hreads.resolve_right fun hhollow => ?_))
    rw [hhollow] at hsolid
    cases hsolid
  · rw [hshape] at hnot
    cases hnot

/-- A node around a part that has been read, and after it another name for it. -/
theorem Fair.wrapNamed {part : Shape} {inside rest : List Tree} (h : s.Fair whole start)
    (hinner : Kept true (start + widthAll (s.built.drop (sinceMark mark s)).reverse) reads
      (Parser.cut mark s) t)
    (hnamed : t.built.reverse = node part inside :: rest) (htoken : hasToken inside = true) :
    Kept whole start reads s (t.closeNode .aliasedField (s.built.drop (sinceMark mark s))) := by
  have hall : hasToken t.built.reverse = true := by
    rw [hnamed, hasToken_cons, Tree.leaves, ← hasToken, htoken, Bool.true_or]
  refine h.closeMarked hinner rfl ⟨fun _ => hall, fun hshape => ?_, fun _ => ?_, fun hshape => ?_,
    fun hshape => (by cases hshape), fun hroot => (by cases hroot),
    fun _ => ⟨part, inside, rest, hnamed, htoken⟩⟩
  · rcases hshape with hshape | hshape <;> cases hshape
  · exact (hinner.fair.seated rfl).seated
  · cases hshape

/-- What is passed over begins with the lexeme ahead, and it is told there. -/
theorem Fair.closeError (h : s.Fair whole start)
    (hinner : Kept true (s.place start) reads (Parser.opened s) t)
    (hleads : Leads (Parser.opened s) t) (hready : s.Ready) (hreports : t.reports ≠ [])
    (htold : s.rest ≠ [] → Told t.reports (s.place start)) :
    Kept whole start reads s (t.closeNode .error s.drain.built) := by
  refine h.close hinner ⟨fun hsolid => (by cases hsolid), fun hshape => ?_, fun _ => ?_,
    fun _ => ?_, fun hshape => (by cases hshape), nofun, nofun⟩ fun _ hvoid => (by cases hvoid)
  · rcases hshape with hshape | hshape <;> cases hshape
  · exact (hinner.fair.seated rfl).seated
  · refine ⟨hreports, fun c hc => ?_⟩
    have hleaves : leavesOfAll t.built.reverse ++ (t.held ++ t.rest).map Lexeme.entry =
        s.rest.map Lexeme.entry := hleads.leaves
    cases hfirst : leavesOfAll t.built.reverse with
    | nil =>
      have hnone :
          (Placed.coreOfAll (placeAll (s.place start) t.built.reverse)).isSome = false := by
        rw [isSome_coreOfAll_placeAll, hasToken, hfirst]
        rfl
      rw [Option.mem_def.mp hc] at hnone
      cases hnone
    | cons entry entries =>
      rw [hfirst] at hleaves
      obtain ⟨l, ls, hrest, rfl, -⟩ := List.map_eq_cons_iff.mp hleaves.symm
      have hkind : l.kind.isTrivia = false := hready l (by rw [hrest]; rfl)
      obtain ⟨d, hd, hstart⟩ := start_of_token_first (s.place start)
        (congrArg List.head? hfirst) hkind
      obtain rfl : c = d := Option.some.inj (hc.symm.trans hd)
      rw [hstart]
      exact htold (by rw [hrest]; exact List.cons_ne_nil _ _)

end Nodes

/-! ## Notes -/

/-- Notes may change as long as reports stay and they fit their places. -/
theorem Fair.noted {n : Notes} (h : s.Fair whole start) (hreports : ∀ d ∈ s.reports, d ∈ n.reports)
    (hlast : ∀ p ∈ n.lastReport, ∃ d ∈ n.reports,
      d.span.start ≤ p ∧ (p < d.span.stop ∨ s.stop ≤ p))
    (hopeners : ∀ o ∈ n.openers, o.span.start ≤ s.place start) (hstop : n.stop = s.stop) :
    Kept whole start false s (s.withNotes n) := by
  have hplace : (s.withNotes n).place start = s.place start := place_of_same start rfl rfl
  refine ⟨⟨h.trees.mono fun _ _ _ hfair => hfair.mono hreports, h.seated, h.held, ?_, h.filled,
    fun p hp => ?_, fun o ho => hplace ▸ hopeners o ho⟩, hreports, fun htoken => ?_⟩
  · change Lexeme.Adjoin (s.place start) s.rest n.stop
    rw [hstop]
    exact h.placed
  · change ∃ d ∈ n.reports, d.span.start ≤ p ∧ (p < d.span.stop ∨ n.stop ≤ p)
    rw [hstop]
    exact hlast p hp
  · exact htoken.resolve_left Bool.false_ne_true

section Notes

variable {kind : DiagnosticKind} {span : Span} {message : String} {related : List Related}

theorem lastReport_told (n : Notes) (place : Nat) (kind : DiagnosticKind) (span : Span)
    (message : String) (related : List Related) :
    (n.told place kind span message related).lastReport = some place := by
  rw [Notes.told]
  split
  · next h => exact eq_of_beq h
  · rfl

/-- What is told at a place is about a stretch that covers the place, unless that is the end. -/
theorem Fair.told (h : s.Fair whole start) {place : Nat} (hstart : span.start ≤ place)
    (hstop : place < span.stop ∨ s.stop ≤ place) :
    Kept whole start false s (s.withNotes (s.notes.told place kind span message related)) := by
  rw [Notes.told]
  split
  · exact h.noted (fun d hd => hd) h.last h.openers rfl
  · refine h.noted (fun _ hd => List.mem_cons_of_mem _ hd) (fun p hp => ?_) h.openers rfl
    obtain rfl : place = p := Option.some.inj hp
    exact ⟨_, List.mem_cons_self, hstart, hstop⟩

/-- A report at the next lexeme. -/
theorem Fair.toldAt (h : s.Fair whole start) (kind : DiagnosticKind) (detail : Option String) :
    Kept whole start false s (s.withNotes (s.notes.toldAt kind s.span detail)) :=
  h.told (Nat.le_refl _) (h.span.1 ▸ h.span.2)

theorem Fair.opener (h : s.Fair whole start) (kind : Kind) :
    Kept whole start false s (s.withNotes (s.notes.opened kind s.span)) := by
  refine h.noted (fun _ hd => hd) h.last (fun o ho => ?_) rfl
  rcases List.mem_cons.mp ho with rfl | ho
  · exact Nat.le_of_eq h.span.1
  · exact h.openers o ho

theorem Fair.closed (h : s.Fair whole start) :
    Kept whole start false s (s.withNotes s.notes.closed) :=
  h.noted (fun _ hd => hd) h.last (fun o ho => h.openers o (List.mem_of_mem_tail ho)) rfl

/-- What is told of a delimiter that is not closed covers the place where its closer is missed. -/
theorem Fair.unclosed (h : s.Fair whole start) (kind : DiagnosticKind) :
    Kept whole start false s (s.withNotes (s.notes.unclosed kind s.span)) := by
  rw [Notes.unclosed]
  cases hopener : s.notes.openers.head? with
  | none => exact h.closed
  | some o =>
    have hmem : o ∈ s.openers := List.mem_of_mem_head? hopener
    have hspan := h.span
    refine h.closed.trans (h.closed.fair.told ?_ ?_)
    · exact Nat.le_trans (h.openers o hmem) (Nat.le_of_eq hspan.1.symm)
    · exact hspan.1 ▸ hspan.2

/-- Where the limit is reached something has been told. -/
theorem Fair.tooDeep (h : s.Fair whole start) :
    Kept whole start false s (s.withNotes (s.notes.tooDeep s.span)) ∧
      (s.notes.tooDeep s.span).reports ≠ [] ∧
      (s.rest ≠ [] → Told (s.notes.tooDeep s.span).reports (s.place start)) := by
  rw [Notes.tooDeep]
  split
  · next hany =>
    obtain ⟨d, hd, hkind⟩ := List.any_eq_true.mp hany
    refine ⟨h.noted (fun d hd => hd) h.last h.openers rfl, List.ne_nil_of_mem hd, fun _ => ?_⟩
    exact ⟨d, hd, .inl (eq_of_beq hkind)⟩
  · have htold := h.toldAt .recursionLimitExceeded none
    have hlast : (s.notes.toldAt .recursionLimitExceeded s.span none).lastReport =
        some (s.place start) := h.span.1 ▸ lastReport_told _ _ _ _ _ _
    refine ⟨htold, htold.fair.reports_of_last hlast, fun hrest => ?_⟩
    · refine htold.fair.told_of_last hlast ?_
      rw [← place_of_same start (s := s) rfl rfl]
      exact htold.fair.place_lt_stop hrest

end Notes

end State

end SplQuery

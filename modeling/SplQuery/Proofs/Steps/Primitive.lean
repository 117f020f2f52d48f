import SplQuery.Proofs.Steps.State

/-!
# The basic steps

What each of the steps does of which the grammar is made: looking ahead, putting lexemes into the
tree, noting what is wrong, delimiters, recovery, and going down a level.
-/

namespace SplQuery

namespace State

/-! ## Changes of a state -/

theorem skipTrivia_held_append_rest (s : State) :
    s.skipTrivia.held ++ s.skipTrivia.rest = s.held ++ s.rest := by
  change (s.held ++ s.rest.takeWhile _) ++ s.rest.dropWhile _ = _
  rw [List.append_assoc, List.takeWhile_append_dropWhile]

theorem ahead_skipTrivia (s : State) : s.skipTrivia.ahead = s.ahead := by
  have htrivia : (s.rest.takeWhile Lexeme.isTrivia).filter (!·.isTrivia) = [] := by
    rw [List.filter_eq_nil_iff]
    intro l hl
    simpa using List.all_eq_true.mp List.all_takeWhile l hl
  calc s.skipTrivia.ahead
      = [] ++ (s.rest.dropWhile Lexeme.isTrivia).filter (!·.isTrivia) := rfl
    _ = (s.rest.takeWhile Lexeme.isTrivia ++ s.rest.dropWhile Lexeme.isTrivia).filter
          (!·.isTrivia) := by rw [List.filter_append, htrivia]
    _ = s.ahead := by rw [List.takeWhile_append_dropWhile, State.ahead]

/-- Past trivia, what comes next is the first of the lexemes ahead. -/
theorem rest_skipTrivia (s : State) :
    (s.ahead = [] ∧ s.skipTrivia.rest = []) ∨
      ∃ l ls, s.skipTrivia.rest = l :: ls ∧ s.ahead = l :: ls.filter (!·.isTrivia) := by
  rw [← ahead_skipTrivia]
  rcases hrest : s.skipTrivia.rest with _ | ⟨l, ls⟩
  · exact .inl ⟨by rw [State.ahead, hrest, List.filter_nil], rfl⟩
  · have hhead : l.isTrivia = false := by
      have h := List.head?_dropWhile_not Lexeme.isTrivia s.rest
      change s.rest.dropWhile _ = _ at hrest
      rw [hrest] at h
      simpa using h
    refine .inr ⟨l, ls, rfl, ?_⟩
    rw [State.ahead, hrest, List.filter_cons_of_pos (by simp [hhead])]

theorem passes_skipTrivia (s : State) : Passes 0 s s.skipTrivia := by
  have hrest : s.skipTrivia.rest <:+ s.rest := List.dropWhile_suffix _
  refine ⟨⟨?_, hrest, rfl, rfl, rfl⟩, fun hs _ => ⟨?_, Nat.le_refl _⟩⟩
  · rw [leaves, skipTrivia_held_append_rest]
    rfl
  · exact hs.of_suffix rfl hs.patience_le hs.least_pos hrest rfl (List.Subset.refl _) hs.reports

theorem stays_skipTrivia (s : State) : Stays 0 s s.skipTrivia :=
  ⟨passes_skipTrivia s, ahead_skipTrivia s⟩

theorem look_rest (s : State) : s.look.rest = s.rest := by
  unfold look
  split <;> rfl

theorem look_held (s : State) : s.look.held = s.held := by
  unfold look
  split <;> rfl

theorem look_built (s : State) : s.look.built = s.built := by
  unfold look
  split <;> rfl

/-- Looking ahead takes one look. -/
theorem stays_look (s : State) : Stays 1 s s.look := by
  rcases hp : s.patience with _ | n
  · have hlook : s.look = s.withFault .stuck := by
      rw [look, hp]
    rw [hlook]
    exact ⟨⟨⟨rfl, List.suffix_refl _, rfl, rfl, rfl⟩, fun _ hlt => by omega⟩, rfl⟩
  · have hlook : s.look = { s with patience := n, leastPatience := min s.leastPatience n } := by
      rw [look, hp]
    rw [hlook]
    refine ⟨⟨⟨rfl, List.suffix_refl _, rfl, rfl, rfl⟩, fun hs hlt => ⟨?_, ?_⟩⟩, rfl⟩
    · have hle := hs.patience_le
      have hleast := hs.least_pos
      refine ⟨hs.fault, ?_, ?_, hs.placed, hs.openers, hs.reports⟩
      · change n ≤ fullPatience
        omega
      · change 0 < min s.leastPatience n
        omega
    · change s.patience ≤ n + 1
      omega

theorem leaves_drain (s : State) : s.drain.leaves = s.leaves := by
  have hbuilt : s.drain.built.reverse = s.built.reverse ++ s.held.map leaf := by
    change ((s.held.map leaf).reverse ++ s.built).reverse = _
    rw [List.reverse_append, List.reverse_reverse]
  rw [leaves, hbuilt, Tree.leavesOfAll_append, Tree.leavesOfAll_map_leaf, List.append_assoc,
    ← List.map_append]
  rfl

theorem stays_drain (s : State) : Stays 0 s s.drain := by
  refine ⟨⟨⟨leaves_drain s, List.suffix_refl _, rfl, rfl, rfl⟩, fun hs _ => ⟨?_, Nat.le_refl _⟩⟩,
    rfl⟩
  exact ⟨hs.fault, hs.patience_le, hs.least_pos, hs.placed, hs.openers, hs.reports⟩

/-- Whatever was noted before, going down a level or up again refills the patience. -/
theorem passes_refresh (s : State) : Passes 0 s s.refresh := by
  refine ⟨⟨rfl, List.suffix_refl _, rfl, rfl, rfl⟩, fun hs _ => ⟨?_, hs.patience_le⟩⟩
  exact ⟨hs.fault, Nat.le_refl _, hs.least_pos, hs.placed, hs.openers, hs.reports⟩

theorem bump_of_cons {s : State} {l : Lexeme} {ls : List Lexeme} (h : s.rest = l :: ls) :
    s.bump = { s.refresh.drain with rest := ls, built := leaf l :: s.drain.built } := by
  unfold bump
  rw [h]
  rfl

/-- Of two lexemes to read, one is left after reading. -/
theorem next?_bump {s : State} {k : Kind} (h : s.second? = some k) :
    ∃ l, s.bump.next? = some l := by
  obtain ⟨y, hy, -⟩ := Option.map_eq_some_iff.mp h
  rcases hrest : s.rest with _ | ⟨l, ls⟩
  · rw [ahead, hrest] at hy
    cases hy
  · have hne : ls.filter (!·.isTrivia) ≠ [] := by
      intro hnil
      rw [ahead, hrest, List.filter_cons, hnil] at hy
      split at hy <;> cases hy
    obtain ⟨x, xs, hx⟩ := List.exists_cons_of_ne_nil hne
    refine ⟨x.kind, ?_⟩
    rw [bump_of_cons hrest, next?, ahead, hx]
    rfl

/-- Reading a lexeme refills the patience. -/
theorem reads_bump {s : State} (h : s.rest ≠ []) : Reads 0 s s.bump := by
  obtain ⟨l, ls, hrest⟩ := List.exists_cons_of_ne_nil h
  have hbump := bump_of_cons hrest
  have hsuffix : s.bump.rest <:+ s.rest := by
    rw [hbump, hrest]
    exact List.suffix_cons l ls
  have hleaves : s.bump.leaves = s.leaves := by
    rw [← leaves_drain s, leaves, leaves, hbump]
    change Tree.leavesOfAll (leaf l :: s.drain.built).reverse ++ ls.map Lexeme.entry =
      Tree.leavesOfAll s.drain.built.reverse ++ s.rest.map Lexeme.entry
    rw [hrest, List.reverse_cons, Tree.leavesOfAll_append, List.append_assoc, List.map_cons]
    rfl
  refine ⟨⟨hleaves, hsuffix, ?_, ?_, ?_⟩, ?_, fun hs _ => ⟨?_, ?_⟩⟩
  · rw [hbump]; rfl
  · rw [hbump]; rfl
  · rw [hbump]; rfl
  · rw [hbump, hrest]
    exact Nat.lt_succ_self _
  · refine hs.of_suffix ?_ ?_ ?_ hsuffix ?_ ?_ ?_ <;> rw [hbump]
    · rfl
    · exact Nat.le_refl _
    · exact hs.least_pos
    · rfl
    · exact List.Subset.refl _
    · exact hs.reports
  · rw [hbump]
    exact Nat.le_refl _

/-- Noting something reads nothing. -/
theorem stays_addReport {s : State} {kind : DiagnosticKind} {span : Span} {message : String}
    {related : List Related}
    (h : s.Sound → span.Ordered ∧ ∀ r ∈ related, r.span.Ordered) :
    Stays 0 s (s.addReport kind span message related) := by
  refine ⟨⟨⟨rfl, List.suffix_refl _, rfl, rfl, rfl⟩, fun hs _ => ⟨?_, Nat.le_refl _⟩⟩, rfl⟩
  refine ⟨hs.fault, hs.patience_le, hs.least_pos, hs.placed, hs.openers, ?_⟩
  intro d hd
  rcases List.mem_cons.mp hd with rfl | hd
  · exact h hs
  · exact hs.reports d hd

/-! ## Nodes -/

theorem leaves_closeNode (s : State) (shape : Shape) (outer : List Tree) :
    (s.closeNode shape outer).leaves = Tree.leavesOfAll outer.reverse ++ s.leaves := by
  change Tree.leavesOfAll (Tree.node shape s.built.reverse :: outer).reverse ++ _ = _
  rw [List.reverse_cons, Tree.leavesOfAll_append, List.append_assoc, leaves]
  simp only [Tree.leavesOfAll, Tree.leaves, List.append_nil]
  rfl

section Nodes

open SplQuery.Parser (opened)

variable {n : Nat} {s t : State} {shape : Shape}

theorem next?_opened (s : State) : (opened s).next? = s.next? := rfl

/-- What stood in the tree when a node was opened stands there when it is closed. -/
theorem Leads.close (h : Leads (opened s) t) : Leads s (t.closeNode shape s.drain.built) := by
  refine ⟨?_, h.rest, h.stop, h.openers, h.commands⟩
  rw [leaves_closeNode, h.leaves, ← leaves_drain s]
  rfl

theorem Sound.opened (hs : s.Sound) : (opened s).Sound :=
  ⟨hs.fault, hs.patience_le, hs.least_pos, hs.placed, hs.openers, hs.reports⟩

theorem Sound.closeNode (hs : s.Sound) (outer : List Tree) : (s.closeNode shape outer).Sound :=
  ⟨hs.fault, hs.patience_le, hs.least_pos, hs.placed, hs.openers, hs.reports⟩

theorem Passes.close (h : Passes n (opened s) t) :
    Passes n s (t.closeNode shape s.drain.built) := by
  refine ⟨h.leads.close, fun hs hn => ?_⟩
  obtain ⟨ht, hp⟩ := h.sound hs.opened hn
  exact ⟨ht.closeNode _, hp⟩

theorem Reads.close (h : Reads n (opened s) t) :
    Reads n s (t.closeNode shape s.drain.built) := by
  refine ⟨h.leads.close, h.shorter, fun hs hn => ?_⟩
  obtain ⟨ht, hp⟩ := h.sound hs.opened hn
  exact ⟨ht.closeNode _, hp⟩

end Nodes

section Wrapping

open SplQuery.Parser (cut sinceMark)

variable {n mark : Nat} {s t : State} {shape : Shape}

theorem next?_cut (mark : Nat) (s : State) : (cut mark s).next? = s.next? := rfl

/-- What came before a mark stays before the node, what came after it becomes its first part. -/
theorem Leads.wrap (h : Leads (cut mark s) t) :
    Leads s (t.closeNode shape (s.built.drop (sinceMark mark s))) := by
  refine ⟨?_, h.rest, h.stop, h.openers, h.commands⟩
  have hbuilt : (s.built.drop (sinceMark mark s)).reverse ++
      (s.built.take (sinceMark mark s)).reverse = s.built.reverse := by
    rw [← List.reverse_append, List.take_append_drop]
  rw [leaves_closeNode, h.leaves]
  change _ ++ (Tree.leavesOfAll (s.built.take (sinceMark mark s)).reverse ++ _) = s.leaves
  rw [← List.append_assoc, ← Tree.leavesOfAll_append, hbuilt]
  rfl

theorem Sound.cut (hs : s.Sound) (mark : Nat) : (cut mark s).Sound :=
  ⟨hs.fault, hs.patience_le, hs.least_pos, hs.placed, hs.openers, hs.reports⟩

theorem Passes.wrap (h : Passes n (cut mark s) t) :
    Passes n s (t.closeNode shape (s.built.drop (sinceMark mark s))) := by
  refine ⟨h.leads.wrap, fun hs hn => ?_⟩
  obtain ⟨ht, hp⟩ := h.sound (hs.cut mark) hn
  exact ⟨ht.closeNode _, hp⟩

theorem Reads.wrap (h : Reads n (cut mark s) t) :
    Reads n s (t.closeNode shape (s.built.drop (sinceMark mark s))) := by
  refine ⟨h.leads.wrap, h.shorter, fun hs hn => ?_⟩
  obtain ⟨ht, hp⟩ := h.sound (hs.cut mark) hn
  exact ⟨ht.closeNode _, hp⟩

end Wrapping

section Commands

open SplQuery.Parser (entered left)

variable {n : Nat} {s t : State} {word : Option CommandWord}

theorem next?_entered (word : Option CommandWord) (s : State) :
    (entered word s).next? = s.next? := rfl

/-- The commands around a step are what they were before it. -/
theorem Leads.leave (h : Leads (entered word s) t) : Leads s (left t) :=
  ⟨h.leaves, h.rest, h.stop, h.openers, congrArg List.tail h.commands⟩

theorem Sound.entered (hs : s.Sound) (word : Option CommandWord) : (entered word s).Sound :=
  ⟨hs.fault, hs.patience_le, hs.least_pos, hs.placed, hs.openers, hs.reports⟩

theorem Sound.left (hs : s.Sound) : (left s).Sound :=
  ⟨hs.fault, hs.patience_le, hs.least_pos, hs.placed, hs.openers, hs.reports⟩

theorem Passes.leave (h : Passes n (entered word s) t) : Passes n s (left t) := by
  refine ⟨h.leads.leave, fun hs hn => ?_⟩
  obtain ⟨ht, hp⟩ := h.sound (hs.entered word) hn
  exact ⟨ht.left, hp⟩

theorem Reads.leave (h : Reads n (entered word s) t) : Reads n s (left t) := by
  refine ⟨h.leads.leave, h.shorter, fun hs hn => ?_⟩
  obtain ⟨ht, hp⟩ := h.sound (hs.entered word) hn
  exact ⟨ht.left, hp⟩

end Commands

end State

open State

namespace Parser

variable {s : State}

/-! ## Looking ahead -/

theorem current_ends (s : State) : Ends current s fun k t => Stays 1 s t ∧ k = s.next? := by
  have hstays : Stays 1 s s.skipTrivia.look := (stays_skipTrivia s).trans (stays_look _)
  refine ⟨hstays, ?_⟩
  change s.skipTrivia.look.rest.head?.map (·.kind) = s.next?
  rw [look_rest]
  obtain ⟨hahead, hrest⟩ | ⟨l, ls, hrest, hahead⟩ := rest_skipTrivia s
  · rw [next?, hahead, hrest]
  · rw [next?, hahead, hrest]
    rfl

theorem adjacent_ends (s : State) :
    Ends adjacent s fun k t => Stays 1 s t ∧ t.rest = s.rest ∧ k = s.rest.head?.map (·.kind) := by
  refine ⟨stays_look s, look_rest s, ?_⟩
  change s.look.rest.head?.map (·.kind) = _
  rw [look_rest]

theorem ahead_ends (s : State) : Ends ahead s fun k t => Stays 0 s t ∧ k = s.second? := by
  refine ⟨stays_skipTrivia s, ?_⟩
  change ((s.skipTrivia.rest.drop 1).find? (!·.isTrivia)).map (·.kind) = s.second?
  obtain ⟨hahead, hrest⟩ | ⟨l, ls, hrest, hahead⟩ := rest_skipTrivia s
  · rw [second?, hahead, hrest]
    rfl
  · rw [second?, hahead, hrest, List.getElem?_cons_succ, ← List.head?_eq_getElem?,
      List.head?_filter]
    rfl

theorem currentSpan_ends (s : State) : Ends currentSpan s fun sp t => Stays 0 s t ∧ sp = t.span :=
  ⟨stays_skipTrivia s, rfl⟩

theorem currentText_ends (s : State) : Ends currentText s fun _ t => Stays 0 s t :=
  stays_skipTrivia s

theorem isAt_ends (kind : Kind) (s : State) :
    Ends (isAt kind) s fun b t => Stays 1 s t ∧ b = (s.next? == some kind) :=
  (current_ends s).bind fun _ _ ⟨ht, hk⟩ => .pure ⟨ht, hk ▸ rfl⟩

theorem isIn_ends (member : Kind → Bool) (s : State) :
    Ends (isIn member) s fun b t => Stays 1 s t ∧ b = s.next?.any member :=
  (current_ends s).bind fun _ _ ⟨ht, hk⟩ => .pure ⟨ht, hk ▸ rfl⟩

theorem isAhead_ends (kind : Kind) (s : State) :
    Ends (isAhead kind) s fun b t => Stays 0 s t ∧ b = (s.second? == some kind) :=
  (ahead_ends s).bind fun _ _ ⟨ht, hk⟩ => .pure ⟨ht, hk ▸ rfl⟩

theorem atStageEnd_ends (s : State) : Ends atStageEnd s fun b t => Stays 1 s t ∧ b = s.atEnd :=
  (current_ends s).bind fun _ _ ⟨ht, hk⟩ => .pure ⟨ht, hk ▸ rfl⟩

theorem glued_ends (s : State) :
    Ends glued s fun b t => t = s ∧ b = s.rest.head?.any (!·.isTrivia) :=
  ⟨rfl, rfl⟩

/-- A step that requires what is ahead does no harm where it is. -/
theorem require_ends {member : Kind → Bool} (h : s.next?.any member) :
    Ends (require member) s fun _ t => Stays 1 s t := by
  refine (isIn_ends member s).bind fun b t ⟨ht, hb⟩ => ?_
  rw [hb, h]
  exact .pure ht

/-! ## Building the tree -/

theorem bump_ends (h : s.rest ≠ []) : Ends bump s fun _ t => Reads 0 s t := reads_bump h

/-- Reading the lexeme that a look has found. -/
theorem bump_ends_of_next? {k : Kind} (h : s.next? = some k) :
    Ends bump s fun _ t => Reads 0 s t :=
  bump_ends (rest_ne_nil_of_next? h)

/-- Reading the first of two lexemes. -/
theorem bump_ends_of_second? {k : Kind} (h : s.second? = some k) :
    Ends bump s fun _ t => Reads 0 s t ∧ ∃ l, t.next? = some l := by
  refine ⟨reads_bump fun hnil => ?_, next?_bump h⟩
  rw [second?, State.ahead, hnil] at h
  cases h

theorem eatTrivia_ends (s : State) : Ends eatTrivia s fun _ t => Stays 0 s t :=
  (stays_skipTrivia s).trans (stays_drain _)

theorem eat_ends (kind : Kind) (s : State) :
    Ends (eat kind) s fun b t =>
      (b = true ∧ s.next? = some kind ∧ Reads 1 s t) ∨
        (b = false ∧ s.next? ≠ some kind ∧ Stays 1 s t) := by
  refine (isAt_ends kind s).bind fun b t ⟨ht, hb⟩ => ?_
  cases b with
  | true =>
    have hnext : s.next? = some kind := eq_of_beq hb.symm
    refine (bump_ends_of_next? (ht.next?.trans hnext)).bind fun _ u hu => .pure ?_
    exact .inl ⟨rfl, hnext, ht.passes.reads hu⟩
  | false =>
    have hnext : s.next? ≠ some kind := by simpa using hb.symm
    exact .pure (.inr ⟨rfl, hnext, ht⟩)

theorem eat_passes (kind : Kind) (s : State) : Ends (eat kind) s fun _ t => Passes 1 s t :=
  (eat_ends kind s).mono fun _ _ h => h.elim (·.2.2.passes) (·.2.2.passes)

theorem node_passes {n : Nat} {shape : Shape} {body : Parser Unit}
    (h : Ends body (opened s) fun _ t => Passes n (opened s) t) :
    Ends (node shape body) s fun _ t => Passes n s t :=
  node_ends (h.mono fun _ _ => Passes.close)

theorem node_reads {n : Nat} {shape : Shape} {body : Parser Unit}
    (h : Ends body (opened s) fun _ t => Reads n (opened s) t) :
    Ends (node shape body) s fun _ t => Reads n s t :=
  node_ends (h.mono fun _ _ => Reads.close)

theorem single_ends {shape : Shape} {k : Kind} (h : s.next? = some k) :
    Ends (single shape) s fun _ t => Reads 0 s t :=
  node_reads (bump_ends_of_next? h)

/-- A node that starts with the lexeme ahead. -/
theorem node_bump_ends {n : Nat} {shape : Shape} {body : Parser Unit} {k : Kind}
    (h : s.next? = some k) (hbody : ∀ t, Ends body t fun _ u => Passes n t u) :
    Ends (node shape do bump; body) s fun _ t => Reads n s t := by
  refine node_reads ((bump_ends_of_next? ((next?_opened s).trans h)).bind fun _ t ht => ?_)
  exact (hbody t).mono fun _ _ hu => (ht.trans hu).le (by omega)

theorem mark_ends (s : State) : Ends mark s fun _ t => Stays 0 s t :=
  (eatTrivia_ends s).bind fun _ _ ht => Ends.bind (P := fun a t => a = t ∧ Stays 0 s t)
    (.get ⟨rfl, ht⟩) fun _ _ ⟨_, h⟩ => .pure h

theorem wrapFrom_passes {n mark : Nat} {shape : Shape} {body : Parser Unit}
    (h : Ends body (cut mark s) fun _ t => Passes n (cut mark s) t) :
    Ends (wrapFrom mark shape body) s fun _ t => Passes n s t :=
  wrapFrom_ends (h.mono fun _ _ => Passes.wrap)

theorem wrapFrom_reads {n mark : Nat} {shape : Shape} {body : Parser Unit}
    (h : Ends body (cut mark s) fun _ t => Reads n (cut mark s) t) :
    Ends (wrapFrom mark shape body) s fun _ t => Reads n s t :=
  wrapFrom_ends (h.mono fun _ _ => Reads.wrap)

/-- A node around what came after a mark and the lexeme ahead. -/
theorem wrapFrom_bump_ends {n mark : Nat} {shape : Shape} {body : Parser Unit} {k : Kind}
    (h : s.next? = some k) (hbody : ∀ t, Ends body t fun _ u => Passes n t u) :
    Ends (wrapFrom mark shape do bump; body) s fun _ t => Reads n s t := by
  refine wrapFrom_reads ((bump_ends_of_next? ((next?_cut mark s).trans h)).bind fun _ t ht => ?_)
  exact (hbody t).mono fun _ _ hu => (ht.trans hu).le (by omega)

theorem inCommand_passes {n : Nat} {word : Option CommandWord} {body : Parser Unit}
    (h : Ends body (entered word s) fun _ t => Passes n (entered word s) t) :
    Ends (inCommand word body) s fun _ t => Passes n s t :=
  inCommand_ends (h.mono fun _ _ => Passes.leave)

theorem inCommand_reads {n : Nat} {word : Option CommandWord} {body : Parser Unit}
    (h : Ends body (entered word s) fun _ t => Reads n (entered word s) t) :
    Ends (inCommand word body) s fun _ t => Reads n s t :=
  inCommand_ends (h.mono fun _ _ => Reads.leave)

end Parser

/-! ## Questions -/

namespace Parser

section Questions

variable {m n : Nat} {p q : Parser Bool} {x y : State → Bool}

/-- Two questions of which the second is asked only when the first is answered by no. What the
second one asks for does not change when trivia is read. -/
theorem orElse_ends (hp : ∀ s, Ends p s fun b t => Stays m s t ∧ b = x s)
    (hq : ∀ s, Ends q s fun b t => Stays n s t ∧ b = y s)
    (hy : ∀ {s t}, Stays m s t → y t = y s) (s : State) :
    Ends (p <||> q) s fun b t => Stays (m + n) s t ∧ b = (x s || y s) := by
  refine Ends.orElse (hp s) (fun t ⟨ht, hx⟩ => ?_) fun t ⟨ht, hx⟩ => ?_
  · exact ⟨ht.le (Nat.le_add_right _ _), by rw [← hx, Bool.true_or]⟩
  · refine (hq t).mono fun b u ⟨hu, hb⟩ => ⟨ht.trans hu, ?_⟩
    rw [hb, hy ht, ← hx, Bool.false_or]

/-- Two questions of which the second is asked only when the first is answered by yes. -/
theorem andAlso_ends (hp : ∀ s, Ends p s fun b t => Stays m s t ∧ b = x s)
    (hq : ∀ s, Ends q s fun b t => Stays n s t ∧ b = y s)
    (hy : ∀ {s t}, Stays m s t → y t = y s) (s : State) :
    Ends (p <&&> q) s fun b t => Stays (m + n) s t ∧ b = (x s && y s) := by
  refine Ends.andAlso (hp s) (fun t ⟨ht, hx⟩ => ?_) fun t ⟨ht, hx⟩ => ?_
  · refine (hq t).mono fun b u ⟨hu, hb⟩ => ⟨ht.trans hu, ?_⟩
    rw [hb, hy ht, ← hx, Bool.true_and]
  · exact ⟨ht.le (Nat.le_add_right _ _), by rw [← hx, Bool.false_and]⟩

theorem notM_ends (hp : ∀ s, Ends p s fun b t => Stays n s t ∧ b = x s) (s : State) :
    Ends (notM p) s fun b t => Stays n s t ∧ b = !x s :=
  Ends.negated ((hp s).mono fun _ _ ⟨ht, hx⟩ => ⟨ht, congrArg _ hx⟩)

end Questions

end Parser

/-! ## One after another -/

namespace State

open SplQuery.Parser

variable {α : Type} {m n r : Nat} {s t : State} {p : Parser α}

theorem Passes.andThen (h : Passes m s t) (hr : m + n ≤ r)
    (hp : Ends p t fun _ u => Passes n t u) : Ends p t fun _ u => Passes r s u :=
  hp.mono fun _ _ hu => (h.trans hu).le hr

theorem Passes.andReads (h : Passes m s t) (hr : m + n ≤ r)
    (hp : Ends p t fun _ u => Reads n t u) : Ends p t fun _ u => Reads r s u :=
  hp.mono fun _ _ hu => (h.reads hu).le hr

/-- What reads a lexeme passes on as well. -/
theorem Passes.reading (h : Passes m s t) (hr : m + n ≤ r)
    (hp : Ends p t fun _ u => Reads n t u) : Ends p t fun _ u => Passes r s u :=
  h.andThen hr (hp.mono fun _ _ hu => hu.passes)

theorem Reads.andThen (h : Reads m s t) (hr : m + n ≤ r)
    (hp : Ends p t fun _ u => Passes n t u) : Ends p t fun _ u => Reads r s u :=
  hp.mono fun _ _ hu => (h.trans hu).le hr

theorem Reads.reading (h : Reads m s t) (hr : m + n ≤ r)
    (hp : Ends p t fun _ u => Reads n t u) : Ends p t fun _ u => Reads r s u :=
  h.andThen hr (hp.mono fun _ _ hu => hu.passes)

end State

/-! ## Asking -/

namespace State.Stays

open SplQuery.Parser

variable {β : Type} {n : Nat} {s t : State} {Q : β → State → Prop}

theorem asks_current (h : Stays n s t) {f : Option Kind → Parser β}
    (hf : ∀ u, Stays (n + 1) s u → Ends (f s.next?) u Q) : Ends (current >>= f) t Q := by
  refine (current_ends t).bind fun k u ⟨hu, hk⟩ => ?_
  rw [hk, h.next?]
  exact hf u (h.trans hu)

theorem asks_ahead (h : Stays n s t) {f : Option Kind → Parser β}
    (hf : ∀ u, Stays n s u → Ends (f s.second?) u Q) : Ends (Parser.ahead >>= f) t Q := by
  refine (ahead_ends t).bind fun k u ⟨hu, hk⟩ => ?_
  rw [hk, h.second?]
  exact hf u (h.trans hu)

theorem asks_text (h : Stays n s t) {f : String → Parser β}
    (hf : ∀ text u, Stays n s u → Ends (f text) u Q) : Ends (currentText >>= f) t Q :=
  (currentText_ends t).bind fun text u hu => hf text u (h.trans hu)

theorem asks_isAt (h : Stays n s t) {kind : Kind} {f : Bool → Parser β}
    (hf : ∀ u, Stays (n + 1) s u → Ends (f (s.next? == some kind)) u Q) :
    Ends (isAt kind >>= f) t Q := by
  refine (isAt_ends kind t).bind fun b u ⟨hu, hb⟩ => ?_
  rw [hb, h.next?]
  exact hf u (h.trans hu)

theorem asks_isIn (h : Stays n s t) {member : Kind → Bool} {f : Bool → Parser β}
    (hf : ∀ u, Stays (n + 1) s u → Ends (f (s.next?.any member)) u Q) :
    Ends (isIn member >>= f) t Q := by
  refine (isIn_ends member t).bind fun b u ⟨hu, hb⟩ => ?_
  rw [hb, h.next?]
  exact hf u (h.trans hu)

theorem asks_isAhead (h : Stays n s t) {kind : Kind} {f : Bool → Parser β}
    (hf : ∀ u, Stays n s u → Ends (f (s.second? == some kind)) u Q) :
    Ends (isAhead kind >>= f) t Q := by
  refine (isAhead_ends kind t).bind fun b u ⟨hu, hb⟩ => ?_
  rw [hb, h.second?]
  exact hf u (h.trans hu)

theorem asks_atStageEnd (h : Stays n s t) {f : Bool → Parser β}
    (hf : ∀ u, Stays (n + 1) s u → Ends (f s.atEnd) u Q) : Ends (atStageEnd >>= f) t Q := by
  refine (atStageEnd_ends t).bind fun b u ⟨hu, hb⟩ => ?_
  rw [hb, h.atEnd]
  exact hf u (h.trans hu)

end State.Stays

end SplQuery

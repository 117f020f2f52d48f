import SplQuery.Proofs.Reading.Query
import SplQuery.Proofs.Search.Meaning

/-!
# Arguments with a row limit

The arguments of `top`, `rare` and `sort` are a limit, which is a number by itself or an option, and
a list of names with commas among them. Those of `head` may be a limit alone. Names, numbers and
commas are read one after another, since none of them goes on into what is written directly after
it: each of the repetitions ends where it is asked whether something may be joined to a name.

* `State.Cut`, `State.Loose` — where nothing is joined.
* `Limits`, `itemTree` — the trees of limits and of names.
* `ReadsList` — what one round of reading the arguments does, and `ReadsList.body` what all do.
* `headBody_adds` — a limit alone.
-/

namespace SplQuery

namespace State

/-- Directly ahead there is trivia, a comma or the end. -/
def Cut (s : State) : Prop := ∀ l ∈ s.rest.head?, l.isTrivia = false → l.kind = .comma

/-- No two of the lexemes not yet read that touch are parts of one field pattern. -/
def Loose (s : State) : Prop := Lexeme.Loose s.rest

variable {s t : State} {ts : List Tree} {k : Kind} {w : String} {r : List (Kind × String)}

theorem Adds.loose (h : Adds ts s t) (hs : s.Loose) : t.Loose := hs.suffix h.rest

/-- Where names and numbers come, and commas, each of them ends where it ends. -/
theorem cut_bump (hs : s.Ready) (ha : s.Loose) (h : s.coming = (k, w) :: r)
    (hk : Wildcard.isPart k = true)
    (hr : ∀ e ∈ r.head?, e.1 = .comma ∨ Wildcard.isPart e.1 = true) : s.bump.Cut := by
  obtain ⟨l, ls, hrest, hentry, -, hcoming⟩ := hs.rest h
  have hl : Wildcard.isPart l.kind = true := by
    rw [show l.kind = k from congrArg Prod.fst hentry]
    exact hk
  rw [Cut, bump_of_cons hrest]
  intro l' hl' hsolid
  obtain ⟨ls', hls⟩ := List.head?_eq_some_iff.mp hl'
  have hls : ls = l' :: ls' := hls
  rw [Loose, hrest, hls] at ha
  rw [hls, List.filter_cons_of_pos (by rw [hsolid]; rfl), List.map_cons] at hcoming
  refine (hr l'.entry (by rw [← hcoming]; rfl)).resolve_right fun hpart => ?_
  have hor := (List.isChain_cons_cons.mp ha).1
  rw [hl, show Wildcard.isPart l'.kind = true from hpart] at hor
  exact hor.elim Bool.noConfusion Bool.noConfusion

end State

namespace Grammar

open SplQuery.Parser State

variable {s t : State} {w : String} {es r : List (Kind × String)}

/-! ## What is written directly after a lexeme -/

/-- Where a lexeme ends, a step that reads on directly after it, but no comma, reads nothing. -/
theorem glued_adds (read : Option Kind → Parser Bool) (hread : read (some .comma) = pure false)
    (hs : s.Cut) :
    Ends (glued >>= fun more => if more then adjacent >>= read else pure false) s
      fun more t => more = false ∧ Adds [] s t := by
  refine (glued_ends s).bind ?_
  rintro _ t ⟨rfl, rfl⟩
  rcases hrest : t.rest with _ | ⟨l, ls⟩
  · exact .pure ⟨rfl, Adds.refl t⟩
  rcases hl : l.isTrivia with _ | _
  · have hready : t.Ready := by
      rw [Ready, hrest]
      rintro _ ⟨⟩
      exact hl
    have hcomma : l.kind = .comma := hs l (by rw [hrest]; rfl) hl
    have hadjacent : Ends adjacent t fun k u => k = some .comma ∧ Adds [] t u := by
      refine ⟨?_, (looks_look hready).adds⟩
      rw [(adjacent_ends t).2.2, hrest, ← hcomma]
      rfl
    simp only [List.head?_cons, Option.any_some, hl, Bool.not_false, if_true]
    refine hadjacent.bind ?_
    rintro _ u ⟨rfl, hu⟩
    rw [hread]
    exact .pure ⟨rfl, hu⟩
  · simp only [List.head?_cons, Option.any_some, hl, Bool.not_true, Bool.false_eq_true, if_false]
    exact .pure ⟨rfl, Adds.refl t⟩

theorem gluedWhile_adds {member : Kind → Bool} (hmember : member .comma = false) (hs : s.Cut) :
    Ends (gluedWhile member) s fun _ t => Adds [] s t := by
  refine whileTrue_of_loops (.last ?_)
  refine glued_adds (fun k => if k.any member then do bump; return true else return false) ?_ hs
  rw [Option.any_some, hmember]
  rfl

theorem gluedMore_adds (hs : s.Cut) : Ends gluedMore s fun _ t => Adds [] s t :=
  whileTrue_of_loops (.last (glued_adds _ rfl hs))

/-! ## Questions -/

/-- A name and an equals sign come next. -/
def beginsOption (s : State) : Bool := s.next?.any Kind.isWord && s.second? == some .equals

theorem atOption_looks (h : Adds [] s t) :
    Ends atOption t fun b u => b = beginsOption s ∧ Looks s u := by
  refine h.asks_isIn fun u hu => ?_
  rw [beginsOption]
  cases s.next?.any Kind.isWord with
  | false => exact .pure ⟨rfl, hu⟩
  | true => exact hu.adds.isAhead_looks .equals

theorem listStops_looks (stop : Kind → Bool) (s : State) :
    Ends (atStageEnd <||> isIn stop <||> atOption) s fun b u =>
      b = (s.atEnd || (s.next?.any stop || beginsOption s)) ∧ Looks s u := by
  refine Ends.orElse (P := fun b u => b = s.atEnd ∧ Looks s u)
    ((Adds.refl s).asks_current fun u hu => .pure ⟨rfl, hu⟩) ?_ ?_
  · rintro u ⟨hb, hu⟩
    exact ⟨by rw [← hb]; rfl, hu⟩
  rintro u ⟨hb, hu⟩
  rw [← hb, Bool.false_or]
  refine Ends.orElse (P := fun b v => b = s.next?.any stop ∧ Looks s v)
    (hu.adds.asks_isIn fun v hv => .pure ⟨rfl, hv⟩) ?_ ?_
  · rintro v ⟨hb, hv⟩
    exact ⟨by rw [← hb]; rfl, hv⟩
  · rintro v ⟨hb, hv⟩
    rw [← hb, Bool.false_or]
    exact atOption_looks hv.adds

/-! ## Names -/

/-- A name, or a comma between names. -/
def IsItem (e : Kind × String) : Prop := e = (.comma, ",") ∨ e.1 = .identifier

/-- How many of them are names. -/
def nameCount (es : List (Kind × String)) : Nat := es.countP (·.1 == .identifier)

/-- The tree of an item, where `key` is put around a field. -/
def itemTree (key : Tree → Tree) (e : Kind × String) : Tree :=
  if e.1 = .identifier then key (.node .fieldItem [.leaf e.1 e.2]) else .leaf e.1 e.2

section Items

variable {k : Kind} {key : Tree → Tree}

theorem leaves_itemTree (hkey : ∀ t, (key t).leaves = t.leaves) (e : Kind × String) :
    (itemTree key e).leaves = [e] := by
  rw [itemTree]
  split
  · rw [hkey, Tree.leaves_node, Tree.leavesOfAll_singleton, Tree.leaves]
  · rw [Tree.leaves]

theorem leavesOfAll_items (hkey : ∀ t, (key t).leaves = t.leaves) (es : List (Kind × String)) :
    Tree.leavesOfAll (es.map (itemTree key)) = es := by
  induction es with
  | nil => rfl
  | cons e es ih =>
    rw [List.map_cons, Tree.leavesOfAll, leaves_itemTree hkey, ih]
    rfl

/-- After an item there come the items after it. -/
theorem coming_item (hkey : ∀ t, (key t).leaves = t.leaves) {e : Kind × String}
    (h : s.coming = e :: es) (ht : Adds [itemTree key e] s t) :
    t.coming = es ∧ t.coming.length < s.coming.length := by
  have hcoming : t.coming = es := ht.after (by rw [h, leaves_itemTree hkey]; rfl)
  exact ⟨hcoming, by rw [hcoming, h]; exact Nat.lt_succ_self _⟩

/-- No item begins an option, and none ends a list of fields. -/
theorem items_ask (h : s.coming = es) (hes : ∀ e ∈ es, IsItem e) :
    beginsOption s = false ∧ s.next?.any Kind.endsFieldList = false ∧ s.atEnd = es.isEmpty := by
  rcases es with _ | ⟨⟨k, w⟩, r⟩
  · rw [beginsOption, State.atEnd, next?_of_coming_nil h]
    exact ⟨rfl, rfl, rfl⟩
  · obtain ⟨he, hr⟩ := List.forall_mem_cons.mp hes
    have hsecond : (s.second? == some .equals) = false := by
      rw [second?_of_coming h]
      rcases r with _ | ⟨e, r⟩
      · rfl
      · obtain rfl | hk := hr e List.mem_cons_self
        · rfl
        · rw [List.head?_cons, Option.map_some, hk]
          rfl
    rw [beginsOption, hsecond, Bool.and_false, State.atEnd, next?_of_coming h]
    obtain ⟨rfl, -⟩ | rfl : (k = .comma ∧ w = ",") ∨ k = .identifier := by
      rcases he with he | hk
      · cases he
        exact .inl ⟨rfl, rfl⟩
      · exact .inr hk
    all_goals exact ⟨rfl, rfl, rfl⟩

theorem fieldItem_adds (hs : s.Ready) (ha : s.Loose) (h : s.coming = (.identifier, w) :: r)
    (hr : ∀ e ∈ r, IsItem e) :
    Ends fieldItem s fun _ t => Adds [.node .fieldItem [.leaf .identifier w]] s t := by
  refine node_adds ?_
  have hopened : (opened s).coming = (.identifier, w) :: r := h
  have hcut : (opened s).bump.Cut := by
    refine cut_bump hs ha hopened rfl fun e he => ?_
    obtain rfl | hk := hr e (List.mem_of_mem_head? he)
    · exact .inl rfl
    · exact .inr (by rw [hk]; rfl)
  refine Ends.bind (P := fun _ t => Adds [.leaf .identifier w] (opened s) t ∧ t.Cut)
    ⟨adds_bump hs hopened, hcut⟩ ?_
  rintro _ t ⟨ht, hcut⟩
  exact (gluedWhile_adds rfl hcut).mono fun _ _ hu => ht.trans hu

/-- A repetition reads items one after another if each of its rounds reads the first of those to
come. -/
theorem items_loops {round : Nat → Parser (ForInStep Nat)}
    (hkey : ∀ t, (key t).leaves = t.leaves)
    (hlast : ∀ s count, s.coming = [] →
      Ends (round count) s fun r t => r = .done count ∧ Adds [] s t)
    (hnext : ∀ s count e r, s.Loose → s.coming = e :: r → (∀ e' ∈ e :: r, IsItem e') →
      Ends (round count) s fun r t =>
        r = .yield (count + nameCount [e]) ∧ Adds [itemTree key e] s t)
    (ha : s.Loose) (h : s.coming = es) (hes : ∀ e ∈ es, IsItem e) (count : Nat) :
    LoopsFrom round count s fun n t =>
      n = count + nameCount es ∧ Adds (es.map (itemTree key)) s t := by
  induction es generalizing s count with
  | nil => exact .last ((hlast s count h).mono fun _ _ ⟨hr, ht⟩ => ⟨count, hr, rfl, ht⟩)
  | cons e es ih =>
    refine .more ((hnext s count e es ha h hes).mono fun _ t ⟨hr, ht⟩ => ⟨_, hr, ?_⟩)
    obtain ⟨hcoming, hlt⟩ := coming_item hkey h ht
    have hrest : ∀ e ∈ es, IsItem e := (List.forall_mem_cons.mp hes).2
    refine ⟨hlt, (ih (ht.loose ha) hcoming hrest _).mono fun _ _ ⟨hn, hu⟩ => ⟨?_, ht.trans hu⟩⟩
    rw [hn, nameCount, nameCount, nameCount, ← List.singleton_append (l := es),
      List.countP_append, Nat.add_assoc]

/-- One round of reading a list. -/
def listRound (item : Parser Unit) (stop : Kind → Bool) (count : Nat) :
    Parser (ForInStep Nat) := do
  if ← atStageEnd <||> isIn stop <||> atOption then return .done count
  let kind ← current
  if kind == some .comma then
    bump
    return .yield count
  if kind.any Kind.startsField then
    item
    return .yield (count + 1)
  return .done count

theorem listRound_last (h : s.coming = []) (count : Nat) :
    Ends (listRound fieldItem Kind.endsFieldList count) s fun r t =>
      r = .done count ∧ Adds [] s t := by
  obtain ⟨-, -, hend⟩ := items_ask h (List.forall_mem_nil _)
  refine (listStops_looks _ s).bind ?_
  rintro _ t ⟨rfl, ht⟩
  rw [hend]
  exact .pure ⟨rfl, ht.adds⟩

theorem listRound_next {e : Kind × String} (ha : s.Loose) (h : s.coming = e :: r)
    (hes : ∀ e' ∈ e :: r, IsItem e') (count : Nat) :
    Ends (listRound fieldItem Kind.endsFieldList count) s fun r t =>
      r = .yield (count + nameCount [e]) ∧ Adds [itemTree id e] s t := by
  obtain ⟨hoption, hstop, hend⟩ := items_ask h hes
  obtain ⟨he, hr⟩ := List.forall_mem_cons.mp hes
  refine (listStops_looks _ s).bind ?_
  rintro _ t ⟨rfl, ht⟩
  rw [hend, hstop, hoption]
  refine ht.adds.asks_current fun u hu => ?_
  obtain ⟨k, w⟩ := e
  have hu' : u.coming = (k, w) :: r := hu.coming.trans h
  rw [next?_of_coming h]
  rcases he with he | hk
  · cases he
    exact (bump_adds hu.ready hu').bind fun _ v hv => .pure ⟨rfl, hu.then hv⟩
  · obtain rfl : k = .identifier := hk
    exact (fieldItem_adds hu.ready (hu.adds.loose ha) hu' hr).bind fun _ v hv =>
      .pure ⟨rfl, hu.then hv⟩

theorem fieldList_adds (ha : s.Loose) (h : s.coming = es) (hes : ∀ e ∈ es, IsItem e) :
    Ends (fieldList Kind.endsFieldList) s fun n t =>
      n = nameCount es ∧ Adds [.node .fieldList (es.map (itemTree id))] s t := by
  have hloops := items_loops (s := opened s) (fun _ => rfl)
    (fun _ count hs => listRound_last hs count)
    (fun _ count _ _ ha hs hes => listRound_next ha hs hes count) ha h hes 0
  refine node_ends ((loop_of_loopsFrom hloops).mono fun n t hn => ⟨?_, hn.2.close⟩)
  rw [hn.1, Nat.zero_add]

/-- A name is read as a field to sort by. -/
theorem sortField_adds (ha : s.Loose) (h : s.coming = (.identifier, w) :: r)
    (hr : ∀ e ∈ r, IsItem e) :
    Ends sortField s fun _ t =>
      Adds [.node .sortField [.node .fieldItem [.leaf .identifier w]]] s t := by
  refine node_adds ?_
  have hopened : (opened s).coming = (.identifier, w) :: r := h
  have hnext := next?_of_coming hopened
  have hdirection : Ends direction (opened s) fun _ t => Adds [] (opened s) t := by
    have hsign : Ends (isAt .plus <||> isAt .minus) (opened s) fun b t =>
        b = false ∧ Adds [] (opened s) t := by
      refine Ends.orElse (P := fun b t => b = false ∧ Adds [] (opened s) t) ?_ ?_ ?_
      · refine (Adds.refl (opened s)).asks_current fun t ht => ?_
        rw [hnext]
        exact .pure ⟨rfl, ht.adds⟩
      · rintro t ⟨hb, -⟩
        cases hb
      · rintro t ⟨-, ht⟩
        refine ht.asks_current fun u hu => ?_
        rw [hnext]
        exact .pure ⟨rfl, hu.adds⟩
    refine hsign.bind ?_
    rintro _ t ⟨rfl, ht⟩
    exact .pure ht
  refine hdirection.bind fun _ t ht => ?_
  have hcall : Ends atFieldCall t fun b u => b = false ∧ Adds [] (opened s) u := by
    refine ht.asks_isIn fun u hu => ?_
    rw [hnext]
    refine hu.adds.asks_ahead fun v hv => .pure ⟨?_, hv.adds⟩
    rw [second?_of_coming hopened]
    rcases r with _ | ⟨e, r⟩
    · rfl
    · obtain rfl | hk := hr e List.mem_cons_self
      · rfl
      · rw [List.head?_cons, Option.map_some, hk]
        rfl
  refine hcall.bind ?_
  rintro _ u ⟨rfl, hu⟩
  refine hu.asks_isIn fun v hv => ?_
  rw [hnext]
  have hv' : v.coming = (.identifier, w) :: r := hv.coming.trans hopened
  exact (fieldItem_adds hv.ready (hv.adds.loose ha) hv' hr).mono fun _ _ hx => hv.then hx

/-- What is put around a field to sort by. -/
def sortKeyTree (field : Tree) : Tree := .node .sortField [field]

theorem leaves_sortKeyTree (t : Tree) : (sortKeyTree t).leaves = t.leaves := by
  rw [sortKeyTree, Tree.leaves_node, Tree.leavesOfAll_singleton]

/-- One round of reading what a query is sorted by. -/
def sortRound (count : Nat) : Parser (ForInStep Nat) := do
  if ← eat .comma then return .yield count
  if ← atStageEnd <||> atOption <||> notM atSortField then return .done count
  sortField
  return .yield (count + 1)

/-- Whether the fields to sort by end here. -/
theorem sortStops_looks (h : Adds [] s t) :
    Ends (atStageEnd <||> atOption <||> notM atSortField) t fun b u =>
      b = (s.atEnd || (beginsOption s || !s.next?.any startsSortField)) ∧ Looks s u := by
  refine Ends.orElse (P := fun b u => b = s.atEnd ∧ Looks s u)
    (h.asks_current fun u hu => .pure ⟨rfl, hu⟩) ?_ ?_
  · rintro u ⟨hb, hu⟩
    exact ⟨by rw [← hb]; rfl, hu⟩
  rintro u ⟨hb, hu⟩
  rw [← hb, Bool.false_or]
  refine Ends.orElse (P := fun b v => b = beginsOption s ∧ Looks s v) (atOption_looks hu.adds)
    ?_ ?_
  · rintro v ⟨hb, hv⟩
    exact ⟨by rw [← hb]; rfl, hv⟩
  · rintro v ⟨hb, hv⟩
    rw [← hb, Bool.false_or]
    exact Ends.negated (hv.adds.asks_isIn fun x hx => .pure ⟨rfl, hx⟩)

theorem sortRound_last (h : s.coming = []) (count : Nat) :
    Ends (sortRound count) s fun r t => r = .done count ∧ Adds [] s t := by
  have hnext : s.next? ≠ some .comma := by
    rw [next?_of_coming_nil h]
    exact nofun
  refine (eat_looks hnext).bind ?_
  rintro _ t ⟨rfl, ht⟩
  obtain ⟨-, -, hend⟩ := items_ask h (List.forall_mem_nil _)
  refine (sortStops_looks ht.adds).bind ?_
  rintro _ u ⟨rfl, hu⟩
  rw [hend]
  exact .pure ⟨rfl, hu.adds⟩

theorem sortRound_next {e : Kind × String} (ha : s.Loose) (h : s.coming = e :: r)
    (hes : ∀ e' ∈ e :: r, IsItem e') (count : Nat) :
    Ends (sortRound count) s fun r t =>
      r = .yield (count + nameCount [e]) ∧ Adds [itemTree sortKeyTree e] s t := by
  obtain ⟨hoption, -, hend⟩ := items_ask h hes
  obtain ⟨he, hr⟩ := List.forall_mem_cons.mp hes
  obtain ⟨k, w⟩ := e
  have hnext := next?_of_coming h
  rcases he with he | hk
  · cases he
    refine (eat_adds h).bind ?_
    rintro _ t ⟨rfl, ht⟩
    exact .pure ⟨rfl, ht⟩
  · obtain rfl : k = .identifier := hk
    refine (eat_looks (by rw [hnext]; decide)).bind ?_
    rintro _ t ⟨rfl, ht⟩
    refine (sortStops_looks ht.adds).bind ?_
    rintro _ u ⟨rfl, hu⟩
    rw [hend, hoption, hnext]
    exact (sortField_adds (hu.adds.loose ha) (hu.coming.trans h) hr).bind fun _ v hv =>
      .pure ⟨rfl, hu.then hv⟩

theorem sortFields_adds (ha : s.Loose) (h : s.coming = es) (hes : ∀ e ∈ es, IsItem e) :
    Ends sortFields s fun n t =>
      n = nameCount es ∧ Adds (es.map (itemTree sortKeyTree)) s t := by
  have hloops := items_loops leaves_sortKeyTree (fun _ count hs => sortRound_last hs count)
    (fun _ count _ _ ha hs hes => sortRound_next ha hs hes count) ha h hes 0
  refine (loop_of_loopsFrom hloops).mono fun n t hn => ⟨?_, hn.2⟩
  rw [hn.1, Nat.zero_add]

end Items

/-! ## Limits -/

/-- The tree of a number by itself. -/
def numberTree (w : String) : Tree := .node .literal [.leaf .numberLiteral w]

/-- The tree of an option `limit` whose value is a number. -/
def limitTree (w : String) : Tree :=
  .node .optionArg [.leaf .identifier "limit", .leaf .equals "=",
    .node .optionValue [.leaf .numberLiteral w]]

/-- A limit as a number by itself and as an option: its lexemes and its tree. -/
inductive Limits (w : String) : List (Kind × String) → Tree → Prop where
  | number : Limits w [(.numberLiteral, w)] (numberTree w)
  | option :
    Limits w [(.identifier, "limit"), (.equals, "="), (.numberLiteral, w)] (limitTree w)

theorem Limits.leaves {cs : List (Kind × String)} {T : Tree} (h : Limits w cs T) :
    T.leaves = cs := by
  cases h with
  | number => rw [numberTree, Tree.leaves_node, Tree.leavesOfAll_singleton, Tree.leaves]
  | option => simp [limitTree, Tree.leaves, Tree.leavesOfAll]

/-- A name comes first, and then items. -/
def BeginsList (es : List (Kind × String)) : Prop :=
  (∀ e ∈ es, IsItem e) ∧ ∃ f r, es = (.identifier, f) :: r

theorem leadingNumber_adds (h : s.coming = (.numberLiteral, w) :: r) :
    Ends leadingNumber s fun _ t => Adds [numberTree w] s t := by
  refine (Adds.refl s).asks_isAt fun t ht => ?_
  rw [next?_of_coming h, beq_self_eq_true, if_pos rfl]
  exact (single_adds ht.ready (ht.coming.trans h)).mono fun _ _ hu => ht.then hu

theorem leadingNumber_looks (h : s.next? ≠ some .numberLiteral) :
    Ends leadingNumber s fun _ t => Adds [] s t := by
  refine (Adds.refl s).asks_isAt fun t ht => ?_
  rw [beq_eq_false_iff_ne.mpr h]
  exact .pure ht.adds

/-- The value of an option. -/
def optionValue : Parser Unit := node .optionValue do
  if ← isIn Kind.isGlue <||> isAt .lparen then gluedRun
  else reportWith .expectedValue "after \x60=\x60"

theorem optionArg_eq : optionArg = node .optionArg (do
    bump
    let _ ← expect .equals "="
    optionValue) := rfl

/-- A number is read as the value of an option. -/
theorem optionValue_adds (ha : s.Loose) (h : s.coming = (.numberLiteral, w) :: r)
    (hr : ∀ e ∈ r, IsItem e) :
    Ends optionValue s fun _ t => Adds [.node .optionValue [.leaf .numberLiteral w]] s t := by
  refine node_adds ?_
  have hopened : (opened s).coming = (.numberLiteral, w) :: r := h
  have hglue : Ends (isIn Kind.isGlue <||> isAt .lparen) (opened s) fun b t =>
      b = true ∧ Looks (opened s) t := by
    refine Ends.orElse (P := fun b t => b = true ∧ Looks (opened s) t) ?_ (fun _ ht => ht) ?_
    · refine (Adds.refl (opened s)).asks_current fun t ht => ?_
      rw [next?_of_coming hopened]
      exact .pure ⟨rfl, ht⟩
    · rintro t ⟨hb, -⟩
      cases hb
  refine hglue.bind ?_
  rintro _ t ⟨rfl, ht⟩
  refine ht.adds.asks_isAt fun u hu => ?_
  rw [next?_of_coming hopened]
  have hu' : u.coming = (.numberLiteral, w) :: r := hu.coming.trans hopened
  have hcut : u.bump.Cut := by
    refine cut_bump hu.ready (hu.adds.loose ha) hu' rfl fun e he => ?_
    obtain rfl | hk := hr e (List.mem_of_mem_head? he)
    · exact .inl rfl
    · exact .inr (by rw [hk]; rfl)
  refine Ends.bind (P := fun _ v => Adds [.leaf .numberLiteral w] u v ∧ v.Cut)
    ⟨adds_bump hu.ready hu', hcut⟩ ?_
  rintro _ v ⟨hv, hcut⟩
  exact (gluedMore_adds hcut).mono fun _ _ hx => hu.then (hv.trans hx)

theorem optionArg_adds (hs : s.Ready) (ha : s.Loose)
    (h : s.coming = (.identifier, "limit") :: (.equals, "=") :: (.numberLiteral, w) :: r)
    (hr : ∀ e ∈ r, IsItem e) : Ends optionArg s fun _ t => Adds [limitTree w] s t := by
  rw [optionArg_eq]
  refine node_adds ?_
  have hready : (opened s).Ready := hs
  have hloose : (opened s).Loose := ha
  have hopened : (opened s).coming = _ := h
  refine (bump_adds hready hopened).bind fun _ t ht => ?_
  have ht' : t.coming = _ := ht.coming_eq hopened
  refine (expect_adds "=" ht').bind fun _ u hu => ?_
  have hu' : u.coming = (.numberLiteral, w) :: r := hu.coming_eq ht'
  exact (optionValue_adds (hu.loose (ht.loose hloose)) hu' hr).mono fun _ _ hv =>
    ht.trans (hu.trans hv)

/-! ## Arguments with a limit -/

section Bodies

variable {cs : List (Kind × String)} {T : Tree} {Us : List Tree} {count : Nat}

theorem nameCount_pos (hes : BeginsList es) : 0 < nameCount es := by
  obtain ⟨-, f, r, rfl⟩ := hes
  rw [nameCount, List.countP_cons_of_pos rfl]
  exact Nat.succ_pos _

/-- What the rounds of a command do with a limit as an option and with a list of names: each reads
one of them, and they count the names. -/
structure ReadsList (round : Nat → Parser (ForInStep Nat)) (w : String)
    (es : List (Kind × String)) (Us : List Tree) : Prop where
  leaves : Tree.leavesOfAll Us = es
  option : ∀ s, s.Loose →
    s.coming = (.identifier, "limit") :: (.equals, "=") :: (.numberLiteral, w) :: es →
      Ends (round 0) s fun r t => r = .yield 0 ∧ Adds [limitTree w] s t
  list : ∀ s, s.Loose → s.coming = es →
    Ends (round 0) s fun r t => r = .yield (nameCount es) ∧ Adds Us s t
  last : ∀ s count, s.coming = [] → Ends (round count) s fun r t => r = .done count ∧ Adds [] s t

/-- The arguments of a command that may begin with a number, and in which fields must be named. -/
def countedBody (round : Nat → Parser (ForInStep Nat)) : Parser Unit := do
  leadingNumber
  let fields ← loop 0 round
  if fields == 0 then report .expectedField

namespace ReadsList

variable {round : Nat → Parser (ForInStep Nat)}

/-- The names are read in one round, and the next one is the last. -/
theorem loops (hround : ReadsList round w es Us) (ha : s.Loose) (h : s.coming = es)
    (hes : BeginsList es) : LoopsFrom round 0 s fun n t => n ≠ 0 ∧ Adds Us s t := by
  refine .more ((hround.list s ha h).mono fun _ t ⟨hr, ht⟩ => ⟨_, hr, ?_⟩)
  have hpos : 0 < nameCount es := nameCount_pos hes
  have hcoming : t.coming = [] := by
    refine ht.coming_eq ?_
    rw [hround.leaves, List.append_nil, h]
  constructor
  · obtain ⟨-, f, r, rfl⟩ := hes
    rw [hcoming, h]
    exact Nat.zero_lt_succ _
  · refine .last ((hround.last t _ hcoming).mono fun _ u ⟨hr, hu⟩ => ⟨_, hr, by omega, ?_⟩)
    have hadds := ht.trans hu
    rwa [List.append_nil] at hadds

/-- In either spelling the limit is read, and then the names. -/
theorem body (hround : ReadsList round w es Us) (hT : Limits w cs T) (ha : s.Loose)
    (h : s.coming = cs ++ es) (hes : BeginsList es) :
    Ends (countedBody round) s fun _ t => Adds (T :: Us) s t := by
  have hfinish {t : State} (ht : LoopsFrom round 0 t fun n u => n ≠ 0 ∧ Adds (T :: Us) s u) :
      Ends (do let fields ← loop 0 round; if fields == 0 then report .expectedField) t
        fun _ u => Adds (T :: Us) s u := by
    refine (loop_of_loopsFrom ht).bind fun n u ⟨hn, hu⟩ => ?_
    rw [beq_eq_false_iff_ne.mpr hn]
    exact .pure hu
  cases hT with
  | number =>
    refine (leadingNumber_adds h).bind fun _ t ht => hfinish ?_
    have ht' : t.coming = es := ht.coming_eq h
    exact (hround.loops (ht.loose ha) ht' hes).mono fun _ _ ⟨hn, hu⟩ => ⟨hn, ht.trans hu⟩
  | option =>
    have hnext : s.next? ≠ some .numberLiteral := by
      rw [next?_of_coming h]
      decide
    refine (leadingNumber_looks hnext).bind fun _ t ht => hfinish (.more ?_)
    have ht' : t.coming = _ := ht.coming.symm.trans h
    refine (hround.option t (ht.loose ha) ht').mono fun _ u ⟨hr, hu⟩ => ⟨0, hr, ?_⟩
    have hu' : u.coming = es := hu.coming_eq ht'
    constructor
    · rw [hu', ht', List.length_append]
      exact Nat.lt_add_of_pos_left (Nat.zero_lt_succ _)
    · exact (hround.loops (hu.loose (ht.loose ha)) hu' hes).mono fun _ _ ⟨hn, hv⟩ =>
        ⟨hn, ht.trans (hu.trans hv)⟩

end ReadsList

/-- Where a limit as an option comes next, an option begins. -/
theorem beginsOption_limit
    (h : s.coming = (.identifier, "limit") :: (.equals, "=") :: (.numberLiteral, w) :: r) :
    s.atEnd = false ∧ beginsOption s = true := by
  rw [State.atEnd, beginsOption, next?_of_coming h, second?_of_coming h]
  exact ⟨rfl, rfl⟩

/-- One round of reading the arguments of `top`. -/
def topRound (count : Nat) : Parser (ForInStep Nat) := do
  if ← atStageEnd then return .done count
  match ← current with
  | some .comma =>
    bump
    return .yield count
  | some (.clause .byWord) | some (.clause .groupby) =>
    byClause
    return .yield count
  | kind =>
    if ← atOption then
      optionArg
      return .yield count
    if kind.any Kind.startsField then
      return .yield (count + (← fieldList Kind.endsFieldList))
    return .done count

theorem topBody_eq : topBody = countedBody topRound := rfl

theorem topRound_reads (w : String) (hes : BeginsList es) :
    ReadsList topRound w es [.node .fieldList (es.map (itemTree id))] := by
  have hid (t : Tree) : (id t).leaves = t.leaves := rfl
  refine ⟨?_, fun s ha h => ?_, fun s ha h => ?_, fun s count h => ?_⟩
  · rw [Tree.leavesOfAll_singleton, Tree.leaves_node, leavesOfAll_items hid]
  · obtain ⟨hend, hoption⟩ := beginsOption_limit h
    refine (Adds.refl s).asks_atStageEnd fun t ht => ?_
    rw [hend]
    refine ht.adds.asks_current fun u hu => ?_
    rw [next?_of_coming h]
    refine (atOption_looks hu.adds).bind ?_
    rintro _ v ⟨rfl, hv⟩
    rw [hoption]
    refine (optionArg_adds hv.ready (hv.adds.loose ha) (hv.coming.trans h) hes.1).bind ?_
    exact fun _ x hx => .pure ⟨rfl, hv.then hx⟩
  · obtain ⟨hitems, f, r, rfl⟩ := hes
    obtain ⟨hoption, -, hend⟩ := items_ask h hitems
    refine (Adds.refl s).asks_atStageEnd fun t ht => ?_
    rw [hend]
    refine ht.adds.asks_current fun u hu => ?_
    rw [next?_of_coming h]
    refine (atOption_looks hu.adds).bind ?_
    rintro _ v ⟨rfl, hv⟩
    rw [hoption]
    refine (fieldList_adds (hv.adds.loose ha) (hv.coming.trans h) hitems).bind ?_
    rintro _ x ⟨rfl, hx⟩
    exact .pure ⟨by rw [Nat.zero_add], hv.then hx⟩
  · refine (Adds.refl s).asks_atStageEnd fun t ht => ?_
    rw [State.atEnd, next?_of_coming_nil h]
    exact .pure ⟨rfl, ht.adds⟩

/-- One round of reading the arguments of `sort`. -/
def sortBodyRound (count : Nat) : Parser (ForInStep Nat) := do
  if ← atStageEnd then return .done count
  if ← eat .comma then return .yield count
  if ← atOption then
    optionArg
    return .yield count
  if count > 0 then
    unless ← atSortField do return .done count
  let count := count + (← sortFields)
  return if count == 0 then .done count else .yield count

theorem sortBody_eq : sortBody = countedBody sortBodyRound := rfl

theorem sortBodyRound_reads (w : String) (hes : BeginsList es) :
    ReadsList sortBodyRound w es (es.map (itemTree sortKeyTree)) := by
  refine ⟨leavesOfAll_items leaves_sortKeyTree es, fun s ha h => ?_, fun s ha h => ?_,
    fun s count h => ?_⟩
  · obtain ⟨hend, hoption⟩ := beginsOption_limit h
    refine (Adds.refl s).asks_atStageEnd fun t ht => ?_
    rw [hend]
    have hcomma : t.next? ≠ some .comma := by
      rw [next?_of_coming (ht.coming.trans h)]
      decide
    refine (eat_looks hcomma).bind ?_
    rintro _ u ⟨rfl, hu⟩
    refine (atOption_looks (ht.then hu.adds)).bind ?_
    rintro _ v ⟨rfl, hv⟩
    rw [hoption]
    refine (optionArg_adds hv.ready (hv.adds.loose ha) (hv.coming.trans h) hes.1).bind ?_
    exact fun _ x hx => .pure ⟨rfl, hv.then hx⟩
  · have hpos : 0 < nameCount es := nameCount_pos hes
    obtain ⟨hitems, f, r, rfl⟩ := hes
    obtain ⟨hoption, -, hend⟩ := items_ask h hitems
    refine (Adds.refl s).asks_atStageEnd fun t ht => ?_
    rw [hend]
    have hcomma : t.next? ≠ some .comma := by
      rw [next?_of_coming (ht.coming.trans h)]
      decide
    refine (eat_looks hcomma).bind ?_
    rintro _ u ⟨rfl, hu⟩
    refine (atOption_looks (ht.then hu.adds)).bind ?_
    rintro _ v ⟨rfl, hv⟩
    rw [hoption]
    refine (sortFields_adds (hv.adds.loose ha) (hv.coming.trans h) hitems).bind ?_
    rintro _ x ⟨rfl, hx⟩
    refine .pure ⟨?_, hv.then hx⟩
    rw [Nat.zero_add, beq_eq_false_iff_ne.mpr (Nat.ne_of_gt hpos)]
    rfl
  · refine (Adds.refl s).asks_atStageEnd fun t ht => ?_
    rw [State.atEnd, next?_of_coming_nil h]
    exact .pure ⟨rfl, ht.adds⟩

/-- One round of reading the arguments of `head`. -/
def headRound (below : Option Inner) (seen : HeadParts) : Parser (ForInStep HeadParts) := do
  if ← atStageEnd then return .done seen
  if ← atOption then
    optionArg
    return .yield seen
  let kind ← current
  if !seen.hasLimit && !seen.hasCondition && kind == some .numberLiteral then
    unless (← ahead).any Kind.isInfix do
      numberLiteral
      return .yield { seen with hasLimit := true }
  if seen.hasCondition || seen.hasLimit then return .done seen
  expression below
  return .yield { seen with hasCondition := true }

theorem headBody_eq (below : Option Inner) :
    headBody below = (do let _ ← loop (⟨false, false⟩ : HeadParts) (headRound below)) := rfl

/-- After a limit by itself nothing is left. -/
theorem headBody_adds {below : Option Inner} (hT : Limits w cs T) (ha : s.Loose)
    (h : s.coming = cs) : Ends (headBody below) s fun _ t => Adds [T] s t := by
  have hlast {t : State} {seen : HeadParts} (ht : Adds [T] s t) :
      t.coming.length < s.coming.length ∧
        LoopsFrom (headRound below) seen t fun _ u => Adds [T] s u := by
    have hcoming : t.coming = [] := ht.after (by rw [hT.leaves, h, List.append_nil])
    constructor
    · rw [hcoming, h]
      cases hT <;> exact Nat.zero_lt_succ _
    · refine .last ((Adds.refl t).asks_atStageEnd fun u hu => ?_)
      rw [State.atEnd, next?_of_coming_nil hcoming]
      exact .pure ⟨seen, rfl, ht.andLooks hu⟩
  have hfirst : LoopsFrom (headRound below) ⟨false, false⟩ s fun _ t => Adds [T] s t := by
    refine .more ((Adds.refl s).asks_atStageEnd fun t ht => ?_)
    cases hT with
    | number =>
      rw [State.atEnd, next?_of_coming h]
      refine (atOption_looks ht.adds).bind ?_
      rintro _ u ⟨rfl, hu⟩
      rw [beginsOption, next?_of_coming h]
      refine hu.adds.asks_current fun v hv => ?_
      rw [next?_of_coming h]
      refine hv.adds.asks_ahead fun x hx => ?_
      rw [second?_of_coming h]
      refine (single_adds hx.ready (hx.coming.trans h)).bind fun _ y hy => ?_
      exact .pure ⟨_, rfl, hlast (hx.then hy)⟩
    | option =>
      obtain ⟨hend, hoption⟩ := beginsOption_limit h
      rw [hend]
      refine (atOption_looks ht.adds).bind ?_
      rintro _ u ⟨rfl, hu⟩
      rw [hoption]
      refine (optionArg_adds hu.ready (hu.adds.loose ha) (hu.coming.trans h)
        (List.forall_mem_nil _)).bind fun _ v hv => ?_
      exact .pure ⟨_, rfl, hlast (hu.then hv)⟩
  rw [headBody_eq]
  exact (loop_of_loopsFrom hfirst).bind fun _ _ ht => .pure ht

end Bodies

end Grammar

end SplQuery

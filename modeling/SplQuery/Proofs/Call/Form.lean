import SplQuery.Proofs.Law.Nodes
import SplQuery.Proofs.Made.Parts
import SplQuery.Proofs.Reading.Primitive

/-!
# What the call of a function of a field holds

The call of a function of a field is read in one way only, whether something is wrong with it or
not: its name, a parenthesis, a field if there is one, the parenthesis that closes unless it is
missing, and an `as` with another name if there are these. So every node of such a call in a tree
holds these parts in this order.

* `CallParts` — what a call holds.
* `State.Gains` — what a step puts into the innermost node.
* `Grammar.callBody_gains` — what is put into a call.
* `State.made_holdsCall` — every node of a call is made so.
-/

namespace SplQuery

open SplQuery.Tree

/-- What the call of a function of a field holds. -/
structure CallParts where
  /-- the name of the function -/
  kind : Kind
  name : String
  isWord : kind.isWord = true
  opening : String
  /-- what the field between the parentheses is written with -/
  field? : Option (List Tree)
  closing? : Option String
  /-- an `as`, and what the other name after it is written with -/
  other? : Option (String × Option (List Tree))

namespace CallParts

/-- A field, or nothing. -/
def items (field? : Option (List Tree)) : List Tree := field?.toList.map (.node .fieldItem)

/-- What comes after the parentheses. -/
def others (other? : Option (String × Option (List Tree))) : List Tree :=
  other?.elim [] fun other => .leaf (.clause .as) other.1 :: items other.2

/-- The trees that the call holds, without trivia. -/
def trees (c : CallParts) : List Tree :=
  .leaf c.kind c.name :: .leaf .lparen c.opening ::
    (items c.field? ++ (c.closing?.toList.map (.leaf .rparen) ++ others c.other?))

end CallParts

/-! ## What is put in -/

namespace State

open SplQuery.Parser (opened)

/-- Every basic step holds nothing back but trivia. -/
theorem tidy_law : Law false fun _ s t => s.Tidy → t.Tidy where
  trans h h' hs := h' (h hs)
  idle _ _ hheld _ _ hs := by
    rw [Tidy, hheld]
    exact hs
  skipTrivia _ s hs := (looks_skipTrivia s).adds.tidy hs
  drain _ _ _ := List.forall_mem_nil _
  bump _ s hs := by
    unfold State.bump
    split
    · exact hs
    · exact List.forall_mem_nil _
  node _ _ _ h _ := h (List.forall_mem_nil _)
  wrap _ h hs := h hs
  byRecipe _ := nofun
  told _ _ _ _ hs := hs
  opener _ _ _ hs := hs
  closed _ _ hs := hs
  unclosed _ _ _ hs := hs
  entered _ _ _ hs := hs
  left _ _ hs := hs
  refused {_ s} _ hready hnext _ _ := by
    obtain ⟨l, ls, hrest, -, -⟩ := hready.rest_of_next? hnext
    have hopened : (opened s).rest = l :: ls := hrest
    change (opened s).bump.Tidy
    rw [bump_of_cons hopened]
    exact List.forall_mem_nil _
  skipped stopAtPipe s _ := by
    obtain ⟨depth, hskips⟩ := skips_opened stopAtPipe s
    exact hskips.held

/-- From `s` to `t` the trees `ts` were put into the innermost node, but for trivia. -/
structure Gains (ts : List Tree) (s t : State) : Prop where
  tidy : s.Tidy → t.Tidy
  built : s.Tidy → ∃ new, t.built = new ++ s.built ∧ bareAll new.reverse = ts

variable {s t u : State} {ts us : List Tree}

theorem Adds.gains (h : Adds ts s t) : Gains ts s t := ⟨h.tidy, h.built⟩

theorem Gains.trans (h : Gains ts s t) (h' : Gains us t u) : Gains (ts ++ us) s u := by
  refine ⟨h'.tidy ∘ h.tidy, fun hs => ?_⟩
  obtain ⟨new, hnew, hbare⟩ := h.built hs
  obtain ⟨new', hnew', hbare'⟩ := h'.built (h.tidy hs)
  refine ⟨new' ++ new, by rw [hnew', hnew, List.append_assoc], ?_⟩
  rw [List.reverse_append, bareAll_append, hbare, hbare']

/-- Notes put nothing in. -/
theorem gains_withNotes (s : State) (n : Notes) : Gains [] s (s.withNotes n) :=
  ⟨id, fun _ => ⟨[], rfl, rfl⟩⟩

/-- A node is put in as one tree. -/
theorem gains_closeNode (shape : Shape) (ht : t.Tidy) :
    Gains [.node shape (bareAll t.built.reverse)] s (t.closeNode shape s.drain.built) := by
  refine ⟨fun _ => ht, fun hs => ?_⟩
  obtain ⟨old, hold, hnone⟩ := (adds_drain s).built hs
  refine ⟨.node shape t.built.reverse :: old, ?_, ?_⟩
  · change _ :: s.drain.built = _
    rw [hold]
    rfl
  · rw [List.reverse_cons, bareAll_append, hnone, List.nil_append, bareAll_singleton, Tree.bare]

end State

open State

/-! ## The steps of a call -/

namespace Grammar

open SplQuery.Parser

variable {s : State} {k : Kind}

theorem coming_of_next? (h : s.next? = some k) : ∃ w r, s.coming = (k, w) :: r := by
  rw [next?_eq] at h
  cases hcoming : s.coming with
  | nil =>
    rw [hcoming] at h
    cases h
  | cons e r =>
    rw [hcoming] at h
    obtain rfl := Option.some.inj h
    exact ⟨e.2, r, rfl⟩

theorem reportWith_gains (kind : DiagnosticKind) (detail : String) (s : State) :
    Ends (reportWith kind detail) s fun _ t => Gains [] s t := by
  rw [Ends, reportWith_eq]
  exact (looks_skipTrivia s).adds.gains.trans (gains_withNotes _ _)

theorem eat_gains (kind : Kind) (s : State) :
    Ends (eat kind) s fun found t => ∃ w? : Option String, found = w?.isSome ∧
      Gains (w?.toList.map (.leaf kind)) s t := by
  by_cases h : s.next? = some kind
  · obtain ⟨w, r, hcoming⟩ := coming_of_next? h
    exact (eat_adds hcoming).mono fun _ _ ⟨hfound, hadds⟩ => ⟨some w, hfound, hadds.gains⟩
  · exact (eat_looks h).mono fun _ _ ⟨hfound, hlooks⟩ => ⟨none, hfound, hlooks.adds.gains⟩

/-- The closer is put in unless it is missing. -/
theorem close_gains (closer : Kind) (kind : DiagnosticKind) (s : State) :
    Ends (close closer kind) s fun _ t => ∃ w? : Option String,
      Gains (w?.toList.map (.leaf closer)) s t := by
  by_cases h : s.next? = some closer
  · obtain ⟨w, r, hcoming⟩ := coming_of_next? h
    exact (close_adds kind hcoming).mono fun _ _ hadds => ⟨some w, hadds.gains⟩
  · have hlooks : Looks (s.withNotes s.notes.closed)
        (s.withNotes s.notes.closed).skipTrivia.look :=
      (looks_skipTrivia _).adds.looks (looks_look (ready_skipTrivia _))
    have hgains := (gains_withNotes s s.notes.closed).trans hlooks.adds.gains
    rw [Ends, close_eq, if_neg (fun heq => h (eq_of_beq heq))]
    exact ⟨none, hgains.trans (gains_withNotes _ _)⟩

/-- The name of a field is put in as one tree, whatever it begins with. -/
theorem fieldItem_gains (s : State) :
    Ends fieldItem s fun _ t => ∃ inside, Gains [.node .fieldItem inside] s t := by
  -- how many lexemes the name has does not matter, but nothing other than trivia is held back
  have hglued : Heeds (fun _ s t => s.Tidy → t.Tidy) false .nothing
      (gluedWhile Kind.continuesField) :=
    heeds_of_alike tidy_law (innersHeed_belowAt tidy_law 0) (Alike.gluedWhile rfl rfl) trivial
  have hbump : (opened s).bump.Tidy := tidy_law.bump false _ (List.forall_mem_nil _)
  exact ⟨_, gains_closeNode .fieldItem (hglued _ trivial hbump)⟩

/-- What follows where a field may start. -/
theorem fieldIf_gains {missing : Parser Unit}
    (hmissing : ∀ t, Ends missing t fun _ u => Gains [] t u) (s : State) :
    Ends (isIn Kind.startsField >>= fun b => if b = true then fieldItem else missing) s fun _ t =>
      ∃ field?, Gains (CallParts.items field?) s t := by
  refine (Adds.refl s).asks_isIn fun t ht => ?_
  split
  · refine (fieldItem_gains t).mono fun _ u ⟨inside, hu⟩ => ⟨some inside, ?_⟩
    exact ht.adds.gains.trans hu
  · exact (hmissing t).mono fun _ u hu => ⟨none, ht.adds.gains.trans hu⟩

/-- An `as` and another name are put in if they are there. -/
theorem otherName_gains (s : State) :
    Ends (eat (.clause .as) >>= fun b => if b = true then aliasName else Pure.pure ()) s fun _ t =>
      ∃ other?, Gains (CallParts.others other?) s t := by
  refine (eat_gains (.clause .as) s).bind ?_
  rintro found t ⟨w?, rfl, ht⟩
  cases w? with
  | none => exact .pure ⟨none, ht⟩
  | some w =>
    refine (fieldIf_gains (reportWith_gains _ _) t).mono fun _ u ⟨alias?, hu⟩ => ?_
    exact ⟨some (w, alias?), ht.trans hu⟩

/-- **What is put into a call**: the parts of one, in their order. -/
theorem callBody_gains (hk : k.isWord = true) (hs : (Sight.pair k .lparen).Holds s) :
    Ends callRecipe.body s fun _ t => ∃ c : CallParts, Gains c.trees s t := by
  obtain ⟨hready, hnext, hsecond⟩ := hs
  obtain ⟨name, r, hcoming⟩ := coming_of_next? hnext
  refine (bump_adds hready hcoming).bind fun _ t hname => ?_
  have hopening : t.next? = some .lparen := by
    rw [next?_eq, hname.after hcoming, ← second?_of_coming hcoming, hsecond]
  -- the parentheses with what they hold are one part of the recipe, the other name is the next
  refine Ends.bind (P := fun _ u =>
    ∃ (opening : String) (field? : Option (List Tree)) (closing? : Option String),
      Gains (.leaf .lparen opening ::
        (CallParts.items field? ++ closing?.toList.map (.leaf .rparen))) t u) ?_ ?_
  · refine (pushOpener_looks .lparen t).bind fun _ u hu => ?_
    have hparen : u.next? = some .lparen := by rw [next?_eq, hu.coming, ← next?_eq, hopening]
    obtain ⟨opening, r', hcoming'⟩ := coming_of_next? hparen
    refine (expect_adds "(" hcoming').bind fun _ v hv => ?_
    refine (fieldIf_gains (fun _ => .pure (Adds.refl _).gains) v).bind ?_
    rintro _ w ⟨field?, hw⟩
    refine (close_gains .rparen .unclosedParen w).mono fun _ x ⟨closing?, hx⟩ => ?_
    exact ⟨opening, field?, closing?, hu.adds.gains.trans (hv.gains.trans (hw.trans hx))⟩
  · rintro _ u ⟨opening, field?, closing?, hu⟩
    refine (otherName_gains u).mono fun _ v ⟨other?, hv⟩ => ?_
    refine ⟨⟨k, name, hk, opening, field?, closing?, other?⟩, ?_⟩
    have hgains := hname.gains.trans (hu.trans hv)
    rw [List.cons_append, List.nil_append, List.cons_append, List.append_assoc] at hgains
    exact hgains

end Grammar

/-! ## Trees -/

/-- A node that is a call holds the parts of one. -/
def Tree.HoldsCall (_ : List (Kind × String)) (shape : Shape) (children : List Tree) : Prop :=
  shape = .fieldCall → ∃ c : CallParts, bareAll children = c.trees

namespace State

open SplQuery.Parser (opened)

/-- What is made by the recipe of a call holds the parts of one. -/
theorem holdsCall_of_recipe {s : State} {shape : Shape} {recipe : Grammar.Recipe} {sight : Sight}
    (hrecipe : Grammar.recipe? shape = some recipe) (hstarts : recipe.starts sight = true)
    (hsight : sight.Holds s) (after : List (Kind × String)) :
    HoldsCall after shape (recipe.body (opened s)).2.built.reverse := by
  rintro rfl
  obtain rfl := Option.some.inj hrecipe
  -- a call begins with a word before a parenthesis
  cases sight with
  | pair k l =>
    cases l with
    | lparen =>
      have hinside : (Sight.pair k .lparen).Holds (opened s) := hsight.inside rfl
      obtain ⟨c, hgains⟩ := Grammar.callBody_gains hstarts hinside
      obtain ⟨new, hnew, hbare⟩ := hgains.built (List.forall_mem_nil _)
      have hholds : _ = new := hnew.trans (List.append_nil new)
      exact ⟨c, hholds ▸ hbare⟩
    | _ => cases hstarts
  | _ => cases hstarts

/-- Calls are made in one way only. -/
theorem made_holdsCall : Made HoldsCall where
  other shape hnone _ _ := by
    rintro rfl
    cases hnone
  recipe _ _ _ _ hrecipe hstarts hsight := holdsCall_of_recipe hrecipe hstarts hsight _

end State

end SplQuery

import SplQuery.Proofs.Twin.Basic

/-!
# Steps of two parses side by side

Two programs are `Coupled` if from states that are the same they lead to states that are the same
again. The steps of the grammar are, and what is put together from coupled programs is coupled.

* `Coupled.ask`, `Coupled.askSecond`, `Coupled.touching` — questions. Where one of the queries ends
  before a pipe in the other, the same must be done at the end and at a pipe.
* `Coupled.node`, `Coupled.wrapFrom` — nodes.
* `Coupled.loop` — repetition, of which the number of rounds is the same.
* `Coupled.recover`, `Coupled.descend` — what is passed over.
-/

namespace SplQuery

open State

variable {C : Coupling}

section Coupled

open SplQuery.Parser

variable {α β σ : Type}

/-- The marks are places where the trees start that are compared. -/
def MarksAt (marks : Option (Nat × Nat)) (outer outer' : List Tree) : Prop :=
  ∀ m n, marks = some (m, n) → outer.length = m ∧ outer'.length = n

/-- The same answer in states that are the same. -/
def Same (C : Coupling) (outer outer' : List Tree) (r r' : α × State) : Prop :=
  r.1 = r'.1 ∧ Twin C 0 outer outer' r.2 r'.2

/-- From states that are the same the two programs give the same answer and lead to states that are
the same, where neither of them comes to a fault. -/
def Coupled (C : Coupling) (marks : Option (Nat × Nat)) (sight : Sight) (p q : Parser α) : Prop :=
  ∀ ⦃outer outer' : List Tree⦄ ⦃s t : State⦄, MarksAt marks outer outer' →
    Twin C 0 outer outer' s t → sight.Holds s → sight.Holds t →
    (p s).2.fault = none → (q t).2.fault = none → Same C outer outer' (p s) (q t)

namespace Coupled

variable {marks : Option (Nat × Nat)} {sight : Sight} {k : Kind} {p q : Parser α}

theorem blind (h : Coupled C marks .nothing p q) : Coupled C marks sight p q :=
  fun _ _ _ _ hmarks htwin _ _ => h hmarks htwin trivial trivial

/-- Without marks all trees may be compared. -/
theorem anyMarks (h : Coupled C none sight p q) : Coupled C marks sight p q :=
  fun _ _ _ _ _ => h fun _ _ hnone => by cases hnone

theorem pure (a : α) : Coupled C marks sight (Pure.pure a) (Pure.pure a) :=
  fun _ _ _ _ _ htwin _ _ _ _ => ⟨rfl, htwin⟩

theorem bind {f g : α → Parser β} (h : Coupled C marks sight p q)
    (hf : ∀ a, Coupled C marks .nothing (f a) (g a)) (hkeeps : ∀ a, KeepsFaults (f a))
    (hkeeps' : ∀ a, KeepsFaults (g a)) : Coupled C marks sight (p >>= f) (q >>= g) := by
  intro outer outer' s t hmarks htwin hs ht hfault hfault'
  obtain ⟨heq, hnext⟩ := h hmarks htwin hs ht (hkeeps _ _ hfault) (hkeeps' _ _ hfault')
  change (g (q t).1 (q t).2).2.fault = none at hfault'
  change Same C outer outer' (f (p s).1 (p s).2) (g (q t).1 (q t).2)
  rw [← heq] at hfault' ⊢
  exact hf _ hmarks hnext trivial trivial hfault hfault'

/-! ### Questions -/

section Questions

variable {f g : Option Kind → Parser β}

theorem narrow {l : Kind} (h : Coupled C marks (.here k) p q) : Coupled C marks (.pair k l) p q :=
  fun _ _ _ _ hmarks htwin hs ht => h hmarks htwin ⟨hs.1, hs.2.1⟩ ⟨ht.1, ht.2.1⟩

theorem ask (hf : f none = f (some .pipe)) (hg : g none = g (some .pipe))
    (hnone : Coupled C marks .nothing (f none) (g none))
    (hsome : ∀ k, k ≠ .pipe → Coupled C marks (.here k) (f (some k)) (g (some k))) :
    Coupled C marks .nothing (current >>= f) (current >>= g) := by
  intro outer outer' s t hmarks htwin _ _ hfault hfault'
  change (f (current s).1 (current s).2).2.fault = none at hfault
  change (g (current t).1 (current t).2).2.fault = none at hfault'
  change Same C outer outer' (f (current s).1 (current s).2) (g (current t).1 (current t).2)
  rw [current_eq] at hfault hfault' ⊢
  rw [current_eq t]
  have hlook := htwin.skipTrivia.look
  obtain hnext | ⟨hpipe, hend⟩ := htwin.next?
  · cases hk : t.next? with
    | none =>
      rw [hnext, hk] at hfault ⊢
      rw [hk] at hfault'
      exact hnone hmarks hlook trivial trivial hfault hfault'
    | some k =>
      rw [hnext, hk] at hfault ⊢
      rw [hk] at hfault'
      by_cases hpipe : k = .pipe
      · subst hpipe
        rw [← hf] at hfault ⊢
        rw [← hg] at hfault' ⊢
        exact hnone hmarks hlook trivial trivial hfault hfault'
      · have hhere (u : State) (hu : u.next? = some k) : (Sight.here k).Holds u.skipTrivia.look :=
          (Sight.Holds.here_of_next? hu).of_rest rfl (look_rest _)
        exact hsome k hpipe hmarks hlook (hhere s (hnext.trans hk)) (hhere t hk) hfault hfault'
  · rw [hpipe, ← hf] at hfault ⊢
    rw [hend] at hfault' ⊢
    exact hnone hmarks hlook trivial trivial hfault hfault'

theorem isAt {kind : Kind} {f g : Bool → Parser β} (hpipe : (Kind.pipe == kind) = false)
    (hyes : Coupled C marks (.here kind) (f true) (g true))
    (hno : Coupled C marks .nothing (f false) (g false)) :
    Coupled C marks .nothing (Parser.isAt kind >>= f) (Parser.isAt kind >>= g) := by
  have hnone : (none == some kind) = (some Kind.pipe == some kind) := hpipe.symm
  refine ask (f := fun k => f (k == some kind)) (g := fun k => g (k == some kind))
    (congrArg f hnone) (congrArg g hnone) hno fun k _ => ?_
  cases hk : some k == some kind with
  | true =>
    obtain rfl : k = kind := Option.some.inj (eq_of_beq hk)
    exact hyes
  | false => exact hno.blind

theorem isIn {member : Kind → Bool} {f g : Bool → Parser β} (hpipe : member .pipe = false)
    (hyes : ∀ k, Coupled C marks (.here k) (f true) (g true))
    (hno : Coupled C marks .nothing (f false) (g false)) :
    Coupled C marks .nothing (Parser.isIn member >>= f) (Parser.isIn member >>= g) := by
  refine ask (f := fun k => f (k.any member)) (g := fun k => g (k.any member))
    (congrArg f hpipe.symm) (congrArg g hpipe.symm) hno fun k _ => ?_
  cases hk : (some k).any member with
  | true => exact hyes k
  | false => exact hno.blind

theorem atStageEnd {f g : Bool → Parser β} (hyes : Coupled C marks .nothing (f true) (g true))
    (hno : Coupled C marks .nothing (f false) (g false)) :
    Coupled C marks .nothing (Parser.atStageEnd >>= f) (Parser.atStageEnd >>= g) := by
  refine ask (f := fun k => f (k.all _)) (g := fun k => g (k.all _)) rfl rfl hyes fun k _ => ?_
  cases k <;> first | exact hyes.blind | exact hno.blind

/-- Where neither query ends before the other, more may be done at a pipe than at the end. -/
theorem askTight (htight : C.Tight) (hnone : Coupled C marks .nothing (f none) (g none))
    (hsome : ∀ k, Coupled C marks (.here k) (f (some k)) (g (some k))) :
    Coupled C marks .nothing (current >>= f) (current >>= g) := by
  intro outer outer' s t hmarks htwin _ _ hfault hfault'
  change (f (current s).1 (current s).2).2.fault = none at hfault
  change (g (current t).1 (current t).2).2.fault = none at hfault'
  change Same C outer outer' (f (current s).1 (current s).2) (g (current t).1 (current t).2)
  have hnext := htwin.next?_eq htight
  rw [current_eq] at hfault hfault' ⊢
  rw [current_eq t]
  cases hk : t.next? with
  | none =>
    rw [hnext, hk] at hfault ⊢
    rw [hk] at hfault'
    exact hnone hmarks htwin.skipTrivia.look trivial trivial hfault hfault'
  | some k =>
    rw [hnext, hk] at hfault ⊢
    rw [hk] at hfault'
    have hhere (u : State) (hu : u.next? = some k) : (Sight.here k).Holds u.skipTrivia.look :=
      (Sight.Holds.here_of_next? hu).of_rest rfl (look_rest _)
    exact hsome k hmarks htwin.skipTrivia.look (hhere s (hnext.trans hk)) (hhere t hk) hfault
      hfault'

theorem look (hsight : sight.past.first? = some k)
    (h : Coupled C marks sight.past (f (some k)) (g (some k))) :
    Coupled C marks sight (current >>= f) (current >>= g) := by
  intro outer outer' s t hmarks htwin hs ht hfault hfault'
  change (f (current s).1 (current s).2).2.fault = none at hfault
  change (g (current t).1 (current t).2).2.fault = none at hfault'
  change Same C outer outer' (f (current s).1 (current s).2) (g (current t).1 (current t).2)
  rw [current_eq, ← next?_skipTrivia, (hs.past.ready hsight).2] at hfault ⊢
  rw [current_eq, ← next?_skipTrivia, (ht.past.ready hsight).2] at hfault' ⊢
  exact h hmarks htwin.skipTrivia.look (hs.past.of_rest hsight (look_rest _))
    (ht.past.of_rest hsight (look_rest _)) hfault hfault'

theorem askSecond (hf : f none = f (some .pipe)) (hg : g none = g (some .pipe))
    (hnone : Coupled C marks (.here k) (f none) (g none))
    (hsome : ∀ l, l ≠ .pipe → Coupled C marks (.pair k l) (f (some l)) (g (some l))) :
    Coupled C marks (.here k) (Parser.ahead >>= f) (Parser.ahead >>= g) := by
  intro outer outer' s t hmarks htwin hs ht hfault hfault'
  change (f (Parser.ahead s).1 (Parser.ahead s).2).2.fault = none at hfault
  change (g (Parser.ahead t).1 (Parser.ahead t).2).2.fault = none at hfault'
  change Same C outer outer' (f (Parser.ahead s).1 (Parser.ahead s).2)
    (g (Parser.ahead t).1 (Parser.ahead t).2)
  rw [ahead_eq, hs.1.skipTrivia] at hfault ⊢
  rw [ahead_eq, ht.1.skipTrivia] at hfault' ⊢
  obtain hsecond | ⟨hpipe, hend⟩ := htwin.second? hs ht
  · cases hl : t.second? with
    | none =>
      rw [hsecond, hl] at hfault ⊢
      rw [hl] at hfault'
      exact hnone hmarks htwin hs ht hfault hfault'
    | some l =>
      rw [hsecond, hl] at hfault ⊢
      rw [hl] at hfault'
      by_cases hpipe : l = .pipe
      · subst hpipe
        rw [← hf] at hfault ⊢
        rw [← hg] at hfault' ⊢
        exact hnone hmarks htwin hs ht hfault hfault'
      · exact hsome l hpipe hmarks htwin ⟨hs.1, hs.2, hsecond.trans hl⟩ ⟨ht.1, ht.2, hl⟩
          hfault hfault'
  · rw [hpipe, ← hf] at hfault ⊢
    rw [hend] at hfault' ⊢
    exact hnone hmarks htwin hs ht hfault hfault'

theorem idleSecond (hf : ∀ k, f k = f none) (hg : ∀ k, g k = g none)
    (h : Coupled C marks .nothing (f none) (g none)) :
    Coupled C marks .nothing (Parser.ahead >>= f) (Parser.ahead >>= g) := by
  intro outer outer' s t hmarks htwin _ _ hfault hfault'
  change (f (Parser.ahead s).1 s.skipTrivia).2.fault = none at hfault
  change (g (Parser.ahead t).1 t.skipTrivia).2.fault = none at hfault'
  change Same C outer outer' (f (Parser.ahead s).1 s.skipTrivia) (g (Parser.ahead t).1 t.skipTrivia)
  rw [hf] at hfault ⊢
  rw [hg] at hfault' ⊢
  exact h hmarks htwin.skipTrivia trivial trivial hfault hfault'

theorem touching {a : β} (hf : f (some .pipe) = Pure.pure a) (hg : g (some .pipe) = Pure.pure a)
    (h : ∀ k, k ≠ .pipe → Coupled C marks (.here k) (f (some k)) (g (some k))) :
    Coupled C marks .nothing
      (glued >>= fun b => if b = true then adjacent >>= f else Pure.pure a)
      (glued >>= fun b => if b = true then adjacent >>= g else Pure.pure a) := by
  intro outer outer' s t hmarks htwin _ _ hfault hfault'
  have hlook := htwin.look
  have hbeside {u : State} (hu : u.rest.head?.any (!·.isTrivia) = false)
      (f : Option Kind → Parser β) :
      (glued >>= fun b => if b = true then adjacent >>= f else Pure.pure a) u = (a, u) := by
    rw [touching_eq, hu]
    rfl
  have hdirect {u : State} {l : Lexeme} {ls : List Lexeme} (hu : u.rest = l :: ls)
      (hl : l.isTrivia = false) (f : Option Kind → Parser β) :
      (glued >>= fun b => if b = true then adjacent >>= f else Pure.pure a) u =
        f (some l.kind) u.look := by
    rw [touching_eq, hu, List.head?_cons, Option.any_some, hl]
    rfl
  by_cases hend : t.rest = []
  · have ht : t.Ready := fun l hl => by rw [hend] at hl; cases hl
    rw [hbeside (by rw [hend]; rfl) g]
    by_cases hs : s.rest.head?.any (!·.isTrivia) = true
    · have hne : s.rest ≠ [] := fun hnil => by rw [hnil] at hs; cases hs
      have hready : s.Ready := (ready_iff_any hne).mpr hs
      obtain ⟨hnil, -⟩ | ⟨_, _, _, _, -, hm, -⟩ | ⟨l, b, hl, -, hpipe, -⟩ :=
        (htwin.ahead hready ht).elim
      · exact absurd hnil hne
      · exact absurd (hend.symm.trans hm) (List.cons_ne_nil _ _).symm
      · rw [hdirect hl (hready l (by rw [hl]; rfl)), hpipe, hf]
        exact ⟨rfl, htwin.lookLeft⟩
    · rw [hbeside (Bool.eq_false_iff.mpr hs)]
      exact ⟨rfl, htwin⟩
  · have htouch := C.touching htwin.rest hend
    by_cases ht : t.rest.head?.any (!·.isTrivia) = true
    · have hne : s.rest ≠ [] := fun hnil => by rw [hnil, ht] at htouch; cases htouch
      have hready : t.Ready := (ready_iff_any hend).mpr ht
      obtain ⟨hnil, -⟩ | ⟨l, m, b, b', hl, hm, hentry, -⟩ | ⟨_, _, -, hnil, -⟩ :=
        (htwin.ahead ((htwin.ready_iff hne hend).mpr hready) hready).elim
      · exact absurd hnil hne
      · rw [ht, hl, List.head?_cons, Option.any_some, Bool.not_eq_true'] at htouch
        have hmtrivia : m.isTrivia = false := hready m (by rw [hm]; rfl)
        have hkind : m.kind = l.kind := (congrArg Prod.fst hentry).symm
        rw [hdirect hl htouch] at hfault ⊢
        rw [hdirect hm hmtrivia, hkind] at hfault' ⊢
        by_cases hpipe : l.kind = .pipe
        · rw [hpipe, hf, hg]
          exact ⟨rfl, hlook⟩
        · exact h _ hpipe hmarks hlook
            ((Sight.Holds.here_of_rest hl htouch).of_rest rfl (look_rest _))
            ((hkind ▸ Sight.Holds.here_of_rest hm hmtrivia : (Sight.here l.kind).Holds t).of_rest
              rfl (look_rest _)) hfault hfault'
      · exact absurd hnil hend
    · rw [hbeside (htouch.trans (Bool.eq_false_iff.mpr ht)), hbeside (Bool.eq_false_iff.mpr ht)]
      exact ⟨rfl, htwin⟩

end Questions

/-! ### Texts -/

section Texts

variable {f g : String → Parser β}

theorem text (hsight : sight.first? = some k) (h : ∀ w, Coupled C marks sight (f w) (g w)) :
    Coupled C marks sight (currentText >>= f) (currentText >>= g) := by
  intro outer outer' s t hmarks htwin hs ht hfault hfault'
  have htext : (currentText s).1 = (currentText t).1 := htwin.text (hs.ready hsight)
    (ht.ready hsight)
  change (f (currentText s).1 s.skipTrivia).2.fault = none at hfault
  change (g (currentText t).1 t.skipTrivia).2.fault = none at hfault'
  change Same C outer outer' (f (currentText s).1 s.skipTrivia) (g (currentText t).1 t.skipTrivia)
  rw [← htext] at hfault' ⊢
  exact h _ hmarks htwin.skipTrivia (hs.skipTrivia hsight) (ht.skipTrivia hsight) hfault hfault'

theorem idleText (hf : ∀ w, f w = f "") (hg : ∀ w, g w = g "")
    (h : Coupled C marks .nothing (f "") (g "")) :
    Coupled C marks .nothing (currentText >>= f) (currentText >>= g) := by
  intro outer outer' s t hmarks htwin _ _ hfault hfault'
  change (f (currentText s).1 s.skipTrivia).2.fault = none at hfault
  change (g (currentText t).1 t.skipTrivia).2.fault = none at hfault'
  change Same C outer outer' (f (currentText s).1 s.skipTrivia) (g (currentText t).1 t.skipTrivia)
  rw [hf] at hfault ⊢
  rw [hg] at hfault' ⊢
  exact h hmarks htwin.skipTrivia trivial trivial hfault hfault'

end Texts

/-! ### Reading and nodes -/

section Reading

variable {f g : Unit → Parser β}

theorem require {member : Kind → Bool} (hsight : sight.first? = some k)
    (hmember : member k = true) (h : Coupled C marks sight (f ()) (g ())) :
    Coupled C marks sight (Parser.require member >>= f) (Parser.require member >>= g) := by
  intro outer outer' s t hmarks htwin hs ht hfault hfault'
  change (f () (Parser.require member s).2).2.fault = none at hfault
  change (g () (Parser.require member t).2).2.fault = none at hfault'
  change Same C outer outer' (f () (Parser.require member s).2) (g () (Parser.require member t).2)
  rw [require_eq (hs.ready hsight).2 hmember] at hfault ⊢
  rw [require_eq (ht.ready hsight).2 hmember] at hfault' ⊢
  exact h hmarks htwin.skipTrivia.look ((hs.skipTrivia hsight).of_rest hsight (look_rest _))
    ((ht.skipTrivia hsight).of_rest hsight (look_rest _)) hfault hfault'

theorem bump (hsight : sight.first? = some k)
    (h : Coupled C marks sight.afterBump (f ()) (g ())) :
    Coupled C marks sight (Parser.bump >>= f) (Parser.bump >>= g) :=
  fun _ _ _ _ hmarks htwin hs ht => h hmarks (htwin.bumpHere (hs.ready hsight) (ht.ready hsight))
    (hs.bump hsight) (ht.bump hsight)

theorem bumpBlindly {f g : Option Kind → Parser β}
    (h : Coupled C marks .nothing (current >>= f) (current >>= g)) :
    Coupled C marks (.next k) (Parser.bump >>= fun _ => current >>= f)
      (Parser.bump >>= fun _ => current >>= g) := by
  intro outer outer' s t hmarks htwin hs ht hfault hfault'
  change ((current >>= f) s.bump).2.fault = none at hfault
  change ((current >>= g) t.bump).2.fault = none at hfault'
  change Same C outer outer' ((current >>= f) s.bump) ((current >>= g) t.bump)
  have hiff := htwin.ready_iff (rest_ne_nil_of_next? hs.2) (rest_ne_nil_of_next? ht.2)
  by_cases hready : s.Ready
  · have hready' : t.Ready := hiff.mp hready
    exact h hmarks (htwin.bumpHere ⟨hready, hs.2⟩ ⟨hready', ht.2⟩) trivial trivial hfault hfault'
  · have hready' : ¬ t.Ready := fun ht => hready (hiff.mpr ht)
    have hskip (f : Option Kind → Parser β) (u : State) :
        (current >>= f) u = (current >>= f) u.skipTrivia := by
      change f (current u).1 (current u).2 = f (current u.skipTrivia).1 (current u.skipTrivia).2
      rw [current_skipTrivia]
    rw [hskip] at hfault hfault' ⊢
    rw [hskip g t.bump]
    exact h hmarks (htwin.bumpTrivia hready hready') trivial trivial hfault hfault'

end Reading

theorem node (shape : Shape) (h : Coupled C none sight.inside p q) :
    Coupled C marks sight (Parser.node shape p) (Parser.node shape q) := by
  intro outer outer' s t _ htwin hs ht hfault hfault'
  obtain ⟨heq, hinside⟩ := h (fun _ _ hnone => by cases hnone) htwin.openNode (hs.inside rfl)
    (ht.inside rfl) hfault hfault'
  exact ⟨heq, htwin.closeNode shape hinside⟩

theorem mark {f g : Nat → Parser β}
    (h : ∀ m n, Coupled C (some (m, n)) sight.past (f m) (g n)) :
    Coupled C marks sight (Parser.mark >>= f) (Parser.mark >>= g) := by
  intro outer outer' s t _ htwin hs ht hfault hfault'
  have hdrained := htwin.skipTrivia.drain
  have hmarks : MarksAt (some (s.skipTrivia.drain.built.length, t.skipTrivia.drain.built.length))
      s.skipTrivia.drain.built t.skipTrivia.drain.built := by
    rintro m n ⟨⟩
    exact ⟨rfl, rfl⟩
  obtain ⟨heq, hsince⟩ := h _ _ hmarks hdrained.since (hs.past.past_of_rest rfl)
    (ht.past.past_of_rest rfl) hfault hfault'
  exact ⟨heq, hdrained.ofSince hsince⟩

theorem wrapFrom {m n : Nat} {p q : Parser Unit} (shape : Shape)
    (h : Coupled C none sight.inside p q) :
    Coupled C (some (m, n)) sight (Parser.wrapFrom m shape p) (Parser.wrapFrom n shape q) := by
  intro outer outer' s t hmarks htwin hs ht hfault hfault'
  obtain ⟨rfl, rfl⟩ := hmarks m n rfl
  obtain ⟨heq, hinside⟩ := h (fun _ _ hnone => by cases hnone) htwin.cut (hs.inside rfl)
    (ht.inside rfl) hfault hfault'
  exact ⟨rfl, htwin.wrap shape hinside⟩

/-! ### Notes -/

theorem report (kind : DiagnosticKind) :
    Coupled C marks .nothing (Parser.report kind) (Parser.report kind) := by
  intro outer outer' s t _ htwin _ _ _ _
  rw [report_eq, report_eq]
  exact ⟨rfl, htwin.told kind none⟩

theorem reportWith (kind : DiagnosticKind) (detail : String) :
    Coupled C marks .nothing (Parser.reportWith kind detail) (Parser.reportWith kind detail) := by
  intro outer outer' s t _ htwin _ _ _ _
  rw [reportWith_eq, reportWith_eq]
  exact ⟨rfl, htwin.told kind (some detail)⟩

/-- The lexeme ahead is passed over. -/
theorem refused {outer outer' : List Tree} {s t : State} (htwin : Twin C 0 outer outer' s t)
    (hs : (Sight.here k).Holds s) (ht : (Sight.here k).Holds t) :
    Same C outer outer' (bumpAsError s) (bumpAsError t) := by
  have hsingle {u : State} (hu : (Sight.here k).Holds u) : bumpAsError u = single .error u := by
    obtain ⟨l, ls, hrest, -⟩ := hu.1.rest_of_next? hu.2
    change (if u.rest.isEmpty = true then (Pure.pure () : Parser Unit) else single .error) u = _
    rw [hrest]
    rfl
  rw [hsingle hs, hsingle ht]
  exact ⟨rfl, htwin.closeNode .error (htwin.openNode.bumpHere (hs.inside rfl) (ht.inside rfl))⟩

theorem refuse (hsight : sight.first? = some k) (kind : DiagnosticKind) :
    Coupled C marks sight (Parser.refuse kind) (Parser.refuse kind) := by
  intro outer outer' s t _ htwin hs ht _ _
  change Same C outer outer' (bumpAsError (Parser.report kind s).2)
    (bumpAsError (Parser.report kind t).2)
  rw [report_eq, report_eq]
  exact refused (htwin.told kind none) ((hs.skipTrivia hsight).ready hsight)
    ((ht.skipTrivia hsight).ready hsight)

theorem refuseWith (hsight : sight.first? = some k) (kind : DiagnosticKind) (detail : String) :
    Coupled C marks sight (Parser.refuseWith kind detail) (Parser.refuseWith kind detail) := by
  intro outer outer' s t _ htwin hs ht _ _
  change Same C outer outer' (bumpAsError (Parser.reportWith kind detail s).2)
    (bumpAsError (Parser.reportWith kind detail t).2)
  rw [reportWith_eq, reportWith_eq]
  exact refused (htwin.told kind (some detail)) ((hs.skipTrivia hsight).ready hsight)
    ((ht.skipTrivia hsight).ready hsight)

theorem pushOpener {f g : Unit → Parser β} (kind : Kind)
    (h : Coupled C marks sight.past (f ()) (g ())) :
    Coupled C marks sight (Parser.pushOpener kind >>= f) (Parser.pushOpener kind >>= g) := by
  intro outer outer' s t hmarks htwin hs ht hfault hfault'
  exact h hmarks (htwin.skipTrivia.withNotes (C.opened htwin.notes htwin.skipTrivia.rest
    (ready_skipTrivia s) (ready_skipTrivia t) kind))
    (hs.past.past_of_rest rfl) (ht.past.past_of_rest rfl) hfault hfault'

theorem inCommand {p q : Parser Unit} (word : Option CommandWord) (h : Coupled C marks sight p q) :
    Coupled C marks sight (Parser.inCommand word p) (Parser.inCommand word q) := by
  intro outer outer' s t hmarks htwin hs ht hfault hfault'
  have hentered : Twin C 0 outer outer' (entered word s) (entered word t) :=
    ⟨htwin.built, htwin.held, htwin.rest, C.entered htwin.notes word⟩
  obtain ⟨-, hinside⟩ := h hmarks hentered (hs.congr rfl rfl rfl) (ht.congr rfl rfl rfl) hfault
    hfault'
  exact ⟨rfl, hinside.built, hinside.held, hinside.rest, C.left hinside.notes⟩

/-- The closer is read in both, or missed in both. -/
theorem close {closer : Kind} (hcloser : closer ≠ .pipe) (kind : DiagnosticKind) :
    Coupled C marks .nothing (Parser.close closer kind) (Parser.close closer kind) := by
  intro outer outer' s t _ htwin _ _ _ _
  rw [close_eq, close_eq]
  have hclosed : Twin C 0 outer outer' (s.withNotes s.notes.closed) (t.withNotes t.notes.closed) :=
    htwin.withNotes (C.closed htwin.notes)
  have hlook := hclosed.skipTrivia.look
  have hmissed : Twin C 0 outer outer'
      ((s.withNotes s.notes.closed).skipTrivia.look.withNotes
        (s.notes.unclosed kind s.skipTrivia.span))
      ((t.withNotes t.notes.closed).skipTrivia.look.withNotes
        (t.notes.unclosed kind t.skipTrivia.span)) :=
    hlook.withNotes (C.unclosed htwin.notes htwin.skipTrivia.rest (ready_skipTrivia s)
      (ready_skipTrivia t) kind)
  obtain hnext | ⟨hpipe, hend⟩ := htwin.next?
  · rw [hnext]
    by_cases hthere : (t.next? == some closer) = true
    · rw [if_pos hthere, if_pos hthere]
      have hhere {u : State} (hu : u.next? = some closer) :
          (Sight.here closer).Holds (u.withNotes u.notes.closed).skipTrivia.look :=
        (Sight.Holds.here_of_next? (s := u.withNotes u.notes.closed) hu).of_rest rfl (look_rest _)
      have ht := eq_of_beq hthere
      exact ⟨rfl, hlook.bumpHere (hhere (hnext.trans ht)) (hhere ht)⟩
    · rw [if_neg hthere, if_neg hthere]
      exact ⟨rfl, hmissed⟩
  · have hfalse : ¬ (some Kind.pipe == some closer) = true := fun h =>
      hcloser (Option.some.inj (eq_of_beq h)).symm
    rw [hpipe, hend, if_neg hfalse, if_neg (by simp)]
    exact ⟨rfl, hmissed⟩

/-! ### Repetition -/

section Repetition

variable {body body' : σ → Parser (ForInStep σ)}

/-- The rounds end at the same time. -/
theorem loopFrom (hothers : ∀ a, Coupled C marks .nothing (body a) (body' a))
    (hkeeps : ∀ a, KeepsFaults (body a)) (hkeeps' : ∀ a, KeepsFaults (body' a)) {sight : Sight} :
    ∀ fuel fuel' a, Coupled C marks sight (body a) (body' a) →
      Coupled C marks sight (Parser.loopFrom body fuel a) (Parser.loopFrom body' fuel' a) := by
  intro fuel
  induction fuel generalizing sight with
  | zero =>
    intro fuel' a _ outer outer' s t _ _ _ _ hfault _
    exact absurd hfault (fault_withFault s .stuck)
  | succ fuel ih =>
    intro fuel' a hfirst outer outer' s t hmarks htwin hs ht hfault hfault'
    cases fuel' with
    | zero => exact absurd hfault' (fault_withFault t .stuck)
    | succ fuel' =>
      obtain ⟨heq, hnext⟩ := hfirst hmarks htwin hs ht (KeepsFaults.firstRound hkeeps hfault)
        (KeepsFaults.firstRound hkeeps' hfault')
      rcases hround : body a s with ⟨b | b, u⟩ <;> rcases hround' : body' a t with ⟨b' | b', u'⟩ <;>
        rw [hround, hround'] at heq hnext <;> cases heq
      · rw [loopFrom_done hround, loopFrom_done hround']
        exact ⟨rfl, hnext⟩
      · rw [loopFrom_yield hround] at hfault ⊢
        rw [loopFrom_yield hround'] at hfault' ⊢
        exact ih fuel' b (hothers b) hmarks hnext trivial trivial hfault hfault'

theorem loop {init : σ} (hfirst : Coupled C marks sight (body init) (body' init))
    (hothers : ∀ a, Coupled C marks .nothing (body a) (body' a))
    (hkeeps : ∀ a, KeepsFaults (body a)) (hkeeps' : ∀ a, KeepsFaults (body' a)) :
    Coupled C marks sight (Parser.loop init body) (Parser.loop init body') :=
  fun _ _ s t hmarks => loopFrom hothers hkeeps hkeeps' (s.rest.length + 2) (t.rest.length + 2)
    init hfirst hmarks

theorem whileTrue {body body' : Parser Bool} (h : Coupled C marks .nothing body body')
    (hkeeps : KeepsFaults body) (hkeeps' : KeepsFaults body') :
    Coupled C marks .nothing (Parser.whileTrue body) (Parser.whileTrue body') := by
  have hround : Coupled C marks .nothing (roundOf body ()) (roundOf body' ()) :=
    h.bind (fun _ => .pure _) (fun _ => .pure _) fun _ => .pure _
  exact loop hround (fun _ => hround) (fun _ => hkeeps.bind fun _ => .pure _)
    fun _ => hkeeps'.bind fun _ => .pure _

end Repetition

/-! ### Recovery -/

section Recovery

variable {stopAtPipe : Bool} {depth : Nat} {outer outer' : List Tree} {s t : State}

/-- A lexeme is passed over unless the stage ends here. -/
theorem skipOne (hstop : stopAtPipe = true ∨ C.Tight) (htwin : Twin C depth outer outer' s t) :
    (∃ u v, Parser.skipOne stopAtPipe depth s = (.done depth, u) ∧
      Parser.skipOne stopAtPipe depth t = (.done depth, v) ∧ Twin C depth outer outer' u v) ∨
    ∃ d u v, Parser.skipOne stopAtPipe depth s = (.yield d, u) ∧
      Parser.skipOne stopAtPipe depth t = (.yield d, v) ∧ Twin C d outer outer' u v := by
  have hlook := htwin.skipTrivia.look
  obtain ⟨hnil, hnil'⟩ | ⟨l, m, a, b, hl, hm, hentry, hrest⟩ | ⟨l, a, hl, hnil, hpipe, hdepth⟩ :=
    htwin.aheadSkipped.elim
  · have hs : s.next? = none := (next?_skipTrivia s).symm.trans (next?_of_nil hnil)
    have ht : t.next? = none := (next?_skipTrivia t).symm.trans (next?_of_nil hnil')
    exact .inl ⟨_, _, skipOne_of_none hs, skipOne_of_none ht, hlook⟩
  · have hs : s.next? = some l.kind :=
      (next?_skipTrivia s).symm.trans ((ready_skipTrivia s).next?_of_cons hl)
    have ht : t.next? = some l.kind := by
      rw [← next?_skipTrivia, (ready_skipTrivia t).next?_of_cons hm]
      exact congrArg (fun e => some e.1) hentry.symm
    rw [skipOne_of_some hs, skipOne_of_some ht]
    split
    · exact .inl ⟨_, _, rfl, rfl, hlook⟩
    · exact .inr ⟨_, _, _, rfl, rfl, hlook.bump ((look_rest _).trans hl) ((look_rest _).trans hm)
        hentry hrest⟩
  · have hs : s.next? = some .pipe :=
      (next?_skipTrivia s).symm.trans (((ready_skipTrivia s).next?_of_cons hl).trans
        (congrArg some hpipe))
    have ht : t.next? = none := (next?_skipTrivia t).symm.trans (next?_of_nil hnil)
    obtain rfl | htight := hstop
    · rw [skipOne_of_some hs, skipOne_of_none ht, if_pos (by rw [hdepth]; rfl)]
      exact .inl ⟨_, _, rfl, rfl, hlook⟩
    · have hrest := htwin.skipTrivia.rest
      rw [hnil] at hrest
      exact absurd (htight hrest (ready_skipTrivia s)) (by rw [hl]; exact List.cons_ne_nil _ _)

/-- What is passed over is the same. -/
theorem skipFrom (hstop : stopAtPipe = true ∨ C.Tight) :
    ∀ fuel fuel' depth s t, Twin C depth outer outer' s t →
      (Parser.loopFrom (Parser.skipOne stopAtPipe) fuel depth s).2.fault = none →
      (Parser.loopFrom (Parser.skipOne stopAtPipe) fuel' depth t).2.fault = none →
      Twin C 0 outer outer' (Parser.loopFrom (Parser.skipOne stopAtPipe) fuel depth s).2
        (Parser.loopFrom (Parser.skipOne stopAtPipe) fuel' depth t).2 := by
  intro fuel
  induction fuel with
  | zero =>
    intro fuel' depth s t _ hfault _
    exact absurd hfault (fault_withFault s .stuck)
  | succ fuel ih =>
    intro fuel' depth s t htwin hfault hfault'
    cases fuel' with
    | zero => exact absurd hfault' (fault_withFault t .stuck)
    | succ fuel' =>
      obtain ⟨u, v, hu, hv, hnext⟩ | ⟨d, u, v, hu, hv, hnext⟩ := skipOne hstop htwin
      · rw [loopFrom_done hu, loopFrom_done hv]
        exact hnext.outside
      · rw [loopFrom_yield hu] at hfault ⊢
        rw [loopFrom_yield hv] at hfault' ⊢
        exact ih fuel' d u v hnext hfault hfault'

theorem skipBalanced (hstop : stopAtPipe = true ∨ C.Tight) :
    Coupled C marks sight (Parser.skipBalanced stopAtPipe) (Parser.skipBalanced stopAtPipe) :=
  fun _ _ s t _ htwin _ _ hfault hfault' => ⟨rfl, skipFrom hstop (s.rest.length + 2)
    (t.rest.length + 2) 0 s t htwin hfault hfault'⟩

end Recovery

theorem recover (kind : DiagnosticKind) (detail : String) :
    Coupled C marks .nothing (Parser.recover kind detail) (Parser.recover kind detail) := by
  refine atStageEnd (reportWith _ _) (node _ (bind (reportWith _ _) (fun _ => ?_) ?_ ?_))
  · exact skipBalanced (.inl rfl)
  · exact fun _ => .skipBalanced _
  · exact fun _ => .skipBalanced _

theorem descend {below : Option Inner} {stopAtPipe : Bool} {body : Inner → Parser Unit}
    (hstop : stopAtPipe = true ∨ C.Tight)
    (h : ∀ inner ∈ below, Coupled C marks .nothing (body inner) (body inner)) :
    Coupled C marks .nothing (Parser.descend below stopAtPipe body)
      (Parser.descend below stopAtPipe body) := by
  intro outer outer' s t hmarks htwin _ _ hfault hfault'
  cases below with
  | some inner =>
    obtain ⟨-, hinside⟩ := h inner rfl hmarks htwin.refresh trivial trivial hfault hfault'
    exact ⟨rfl, hinside.refresh⟩
  | none =>
    rw [descend_none] at hfault hfault' ⊢
    rw [descend_none]
    have hskip : Coupled C marks .nothing (Parser.node .error (Parser.skipBalanced stopAtPipe))
        (Parser.node .error (Parser.skipBalanced stopAtPipe)) := node .error (skipBalanced hstop)
    exact hskip hmarks
      (htwin.skipTrivia.withNotes (C.tooDeep htwin.notes htwin.skipTrivia.rest
        (ready_skipTrivia s) (ready_skipTrivia t))) trivial trivial
      hfault hfault'

end Coupled

end Coupled

end SplQuery

import SplQuery.Proofs.Reading.Adds

/-!
# What the basic steps put into the tree

Each step of which the grammar is made, where it finds what it looks for. Questions are answered
from the lexemes to come; nothing is noted.

* `Looks.asks_current` and the like — a question and what follows on its answer.
* `node_adds`, `wrapFrom_adds` — nodes around what is put in.
* `Loops` — repetition with any number of rounds that is enough.
-/

namespace SplQuery

namespace State

open SplQuery.Parser

/-! ## Asking -/

namespace Adds

variable {β : Type} {s t : State} {f : Option Kind → Parser β} {g : Bool → Parser β}
  {Q : β → State → Prop}

theorem asks_current (h : Adds [] s t) (hf : ∀ u, Looks s u → Ends (f s.next?) u Q) :
    Ends (current >>= f) t Q := by
  have hlooks : Looks s t.skipTrivia.look := by
    exact (h.looks (looks_skipTrivia t)).adds.looks (looks_look (ready_skipTrivia t))
  have hnext : (current t).1 = s.next? := by
    rw [(current_ends t).2, next?_eq, next?_eq, h.coming]
    rfl
  refine Ends.bind (P := fun k u => Looks s u ∧ k = s.next?) ⟨hlooks, hnext⟩ ?_
  rintro k u ⟨hu, rfl⟩
  exact hf u hu

theorem asks_ahead (h : Adds [] s t) (hf : ∀ u, Looks s u → Ends (f s.second?) u Q) :
    Ends (Parser.ahead >>= f) t Q := by
  have hahead : t.ahead.map (·.kind) = s.ahead.map (·.kind) := by
    have hentries := congrArg (List.map (·.1)) h.coming.symm
    simpa only [Tree.leavesOfAll, List.nil_append, State.coming, List.map_map, Function.comp_def,
      Lexeme.entry] using hentries
  have hsecond : (Parser.ahead t).1 = s.second? := by
    rw [(ahead_ends t).2, second?, second?, ← List.getElem?_map, hahead, List.getElem?_map]
  refine Ends.bind (P := fun k u => Looks s u ∧ k = s.second?)
    ⟨h.looks (looks_skipTrivia t), hsecond⟩ ?_
  rintro k u ⟨hu, rfl⟩
  exact hf u hu

theorem asks_text {k : Kind} {w : String} {r : List (Kind × String)} {f : String → Parser β}
    (h : Adds [] s t) (hs : s.coming = (k, w) :: r) (hf : ∀ u, Looks s u → Ends (f w) u Q) :
    Ends (currentText >>= f) t Q := by
  have hlooks : Looks s t.skipTrivia := h.looks (looks_skipTrivia t)
  obtain ⟨l, ls, hrest, hentry, -, -⟩ := hlooks.ready.rest (hlooks.coming.trans hs)
  have htext : (currentText t).1 = w := by
    change t.skipTrivia.rest.head?.elim "" (·.text) = w
    rw [hrest]
    exact congrArg Prod.snd hentry
  refine Ends.bind (P := fun text u => Looks s u ∧ text = w) ⟨hlooks, htext⟩ ?_
  rintro text u ⟨hu, rfl⟩
  exact hf u hu

theorem asks_isAt {kind : Kind} (h : Adds [] s t)
    (hg : ∀ u, Looks s u → Ends (g (s.next? == some kind)) u Q) :
    Ends (isAt kind >>= g) t Q := by
  have hbind : (isAt kind >>= g) = (current >>= fun k => g (k == some kind)) := rfl
  rw [hbind]
  exact h.asks_current hg

theorem asks_isIn {member : Kind → Bool} (h : Adds [] s t)
    (hg : ∀ u, Looks s u → Ends (g (s.next?.any member)) u Q) :
    Ends (isIn member >>= g) t Q := by
  have hbind : (isIn member >>= g) = (current >>= fun k => g (k.any member)) := rfl
  rw [hbind]
  exact h.asks_current hg

theorem asks_isAhead {kind : Kind} (h : Adds [] s t)
    (hg : ∀ u, Looks s u → Ends (g (s.second? == some kind)) u Q) :
    Ends (isAhead kind >>= g) t Q := by
  have hbind : (isAhead kind >>= g) = (Parser.ahead >>= fun k => g (k == some kind)) := rfl
  rw [hbind]
  exact h.asks_ahead hg

theorem isAhead_looks (kind : Kind) (h : Adds [] s t) :
    Ends (isAhead kind) t fun b u => b = (s.second? == some kind) ∧ Looks s u :=
  h.asks_ahead fun _ hu => .pure ⟨rfl, hu⟩

theorem asks_atStageEnd (h : Adds [] s t) (hg : ∀ u, Looks s u → Ends (g s.atEnd) u Q) :
    Ends (atStageEnd >>= g) t Q :=
  h.asks_current (f := fun k => g (k.all _)) hg

end Adds

end State

open State

namespace Parser

variable {s t m : State} {k : Kind} {w : String} {r : List (Kind × String)} {ts us : List Tree}

/-! ## Reading -/

theorem bump_adds (hs : s.Ready) (h : s.coming = (k, w) :: r) :
    Ends bump s fun _ t => Adds [.leaf k w] s t := adds_bump hs h

theorem eatTrivia_looks (s : State) : Ends eatTrivia s fun _ t => Looks s t :=
  ⟨(looks_skipTrivia s).then (adds_drain _), ready_skipTrivia s⟩

theorem eat_adds (h : s.coming = (k, w) :: r) :
    Ends (eat k) s fun b t => b = true ∧ Adds [.leaf k w] s t := by
  refine (Adds.refl s).asks_isAt fun t ht => ?_
  rw [next?_of_coming h, beq_self_eq_true, if_pos rfl]
  refine (bump_adds ht.ready (ht.coming.trans h)).bind fun _ u hu => ?_
  exact .pure ⟨rfl, ht.then hu⟩

theorem eat_looks {kind : Kind} (h : s.next? ≠ some kind) :
    Ends (eat kind) s fun b t => b = false ∧ Looks s t := by
  refine (Adds.refl s).asks_isAt fun t ht => ?_
  rw [beq_eq_false_iff_ne.mpr h, if_neg Bool.false_ne_true]
  exact .pure ⟨rfl, ht⟩

theorem expect_adds (spelling : String) (h : s.coming = (k, w) :: r) :
    Ends (expect k spelling) s fun _ t => Adds [.leaf k w] s t := by
  refine (eat_adds h).bind ?_
  rintro _ t ⟨rfl, ht⟩
  exact .pure ht

theorem require_looks {member : Kind → Bool} (h : s.next?.any member = true) :
    Ends (require member) s fun _ t => Looks s t := by
  refine (Adds.refl s).asks_isIn fun t ht => ?_
  rw [h]
  exact .pure ht

/-! ## Nodes -/

theorem node_adds {shape : Shape} {body : Parser Unit}
    (h : Ends body (opened s) fun _ t => Adds ts (opened s) t) :
    Ends (node shape body) s fun _ t => Adds [.node shape ts] s t :=
  node_ends (h.mono fun _ _ => Adds.close)

theorem single_adds {shape : Shape} (hs : s.Ready) (h : s.coming = (k, w) :: r) :
    Ends (single shape) s fun _ t => Adds [.node shape [.leaf k w]] s t :=
  node_adds (bump_adds hs h)

/-- Where a mark is made, nothing is held back. -/
theorem mark_looks (s : State) :
    Ends mark s fun n t => Looks s t ∧ t.Tidy ∧ n = t.built.length := by
  have hlooks : Looks s (mark s).2 := eatTrivia_looks s
  have htidy : (mark s).2.Tidy := List.forall_mem_nil _
  exact ⟨hlooks, htidy, rfl⟩

theorem wrapFrom_adds {shape : Shape} {body : Parser Unit} (h : Adds ts m s) (hm : m.Tidy)
    (hbody : Ends body (cut m.built.length s) fun _ t => Adds us (cut m.built.length s) t) :
    Ends (wrapFrom m.built.length shape body) s fun _ t => Adds [.node shape (ts ++ us)] m t :=
  wrapFrom_ends (hbody.mono fun _ _ h' => h.wrap hm h')

/-! ## Delimiters, commands and levels -/

theorem pushOpener_looks (kind : Kind) (s : State) :
    Ends (pushOpener kind) s fun _ t => Looks s t := by
  obtain ⟨hadds, hready⟩ := looks_skipTrivia s
  exact ⟨⟨hadds.coming, hadds.rest, hadds.reports, hadds.tidy, hadds.built⟩, hready⟩

theorem close_adds (kind : DiagnosticKind) (h : s.coming = (k, w) :: r) :
    Ends (close k kind) s fun _ t => Adds [.leaf k w] s t := by
  refine Ends.bind (P := fun _ t => s = t) (.get rfl) ?_
  rintro _ _ rfl
  refine Ends.bind (P := fun _ t => Adds [] s t) (.modify ?_) fun _ t ht => ?_
  · exact ⟨rfl, List.suffix_refl _, rfl, id, fun _ => ⟨[], rfl, rfl⟩⟩
  · refine (eat_adds (ht.coming.symm.trans h)).bind ?_
    rintro _ u ⟨rfl, hu⟩
    exact .pure (ht.trans hu)

theorem inCommand_adds {word : Option CommandWord} {body : Parser Unit}
    (h : Ends body (entered word s) fun _ t => Adds ts (entered word s) t) :
    Ends (inCommand word body) s fun _ t => Adds ts s t :=
  inCommand_ends (h.mono fun _ _ h => ⟨h.coming, h.rest, h.reports, h.tidy, h.built⟩)

/-- Where there is a level further down, what is nested is read there. -/
theorem descend_adds {inner : Inner} {stopAtPipe : Bool} {body : Inner → Parser Unit}
    (h : Ends (body inner) s.refresh fun _ t => Adds ts s.refresh t) :
    Ends (descend (some inner) stopAtPipe body) s fun _ t => Adds ts s t := by
  refine Ends.bind (P := fun _ t => s.refresh = t) (.modify rfl) ?_
  rintro _ _ rfl
  refine h.bind fun _ t ht => .modify ?_
  have hadds := ((adds_refresh s).trans ht).trans (adds_refresh t)
  rwa [List.append_nil] at hadds

/-! ## Repetition -/

/-- However many rounds there may be, if they are enough for the lexemes to come, the repetition
from `a` on ends where `Q` holds. -/
def LoopsFrom {σ : Type} (body : σ → Parser (ForInStep σ)) (a : σ) (s : State)
    (Q : σ → State → Prop) : Prop :=
  ∀ fuel, s.coming.length < fuel → Ends (loopFrom body fuel a) s Q

/-- The same for a repetition that remembers nothing. -/
def Loops (body : Parser Bool) (s : State) (Q : State → Prop) : Prop :=
  LoopsFrom (roundOf body) () s fun _ t => Q t

section LoopsFrom

variable {σ : Type} {body : σ → Parser (ForInStep σ)} {a : σ} {Q : σ → State → Prop}

theorem loop_of_loopsFrom (h : LoopsFrom body a s Q) : Ends (loop a body) s Q := by
  refine Ends.bind (P := fun b t => b = s ∧ t = s) (.get ⟨rfl, rfl⟩) ?_
  rintro _ t ⟨rfl, rfl⟩
  have hle := length_coming_le t
  exact h _ (by omega)

/-- The last round. -/
theorem LoopsFrom.last (h : Ends (body a) s fun r t => ∃ b, r = .done b ∧ Q b t) :
    LoopsFrom body a s Q := by
  intro fuel hfuel
  obtain ⟨n, rfl⟩ := Nat.exists_eq_succ_of_ne_zero (Nat.ne_of_gt (Nat.zero_lt_of_lt hfuel))
  refine Ends.bind h ?_
  rintro _ t ⟨b, rfl, ht⟩
  exact .pure ht

/-- A round after which there are more. -/
theorem LoopsFrom.more
    (h : Ends (body a) s fun r t => ∃ b, r = .yield b ∧ t.coming.length < s.coming.length ∧
      LoopsFrom body b t Q) : LoopsFrom body a s Q := by
  intro fuel hfuel
  obtain ⟨n, rfl⟩ := Nat.exists_eq_succ_of_ne_zero (Nat.ne_of_gt (Nat.zero_lt_of_lt hfuel))
  refine Ends.bind h ?_
  rintro _ t ⟨b, rfl, hlt, ht⟩
  exact ht n (by omega)

theorem LoopsFrom.mono {P : σ → State → Prop} (h : LoopsFrom body a s P)
    (hP : ∀ b t, P b t → Q b t) : LoopsFrom body a s Q :=
  fun fuel hfuel => (h fuel hfuel).mono fun _ _ ht => hP _ _ ht

end LoopsFrom

section Repetition

variable {body : Parser Bool} {Q : State → Prop}

theorem whileTrue_of_loops (h : Loops body s Q) : Ends (whileTrue body) s fun _ t => Q t :=
  loop_of_loopsFrom h

theorem Loops.mono {P : State → Prop} (h : Loops body s P) (hP : ∀ t, P t → Q t) :
    Loops body s Q :=
  LoopsFrom.mono h fun _ => hP

theorem Loops.last (h : Ends body s fun more t => more = false ∧ Q t) : Loops body s Q := by
  refine LoopsFrom.last (h.bind ?_)
  rintro _ t ⟨rfl, ht⟩
  exact .pure ⟨(), rfl, ht⟩

theorem Loops.more
    (h : Ends body s fun more t =>
      more = true ∧ t.coming.length < s.coming.length ∧ Loops body t Q) : Loops body s Q := by
  refine LoopsFrom.more (h.bind ?_)
  rintro _ t ⟨rfl, hlt, ht⟩
  exact .pure ⟨(), rfl, hlt, ht⟩

end Repetition

end Parser

end SplQuery

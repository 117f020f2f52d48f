import SplQuery.Proofs.Fair.Grammar

/-!
# Pipelines keep states fair

Where nothing is found wrong, each round over the stages of a query puts in a pipe and a stage. What
a round finds wrong it notes. A first stage with nothing in it stands before a lexeme that no stage
begins with, and the first round passes over that.

* `State.Grown` — what rounds put in.
* `State.Staged` — what there is in a query once there is something.
-/

namespace SplQuery

open SplQuery.Tree State

namespace State

/-- From `s` to `t` trees were put in, each with something in it, and `k` more stages than pipes
unless something was found wrong. -/
structure Grown (k : Int) (s t : State) : Prop where
  reports : ∀ d ∈ s.reports, d ∈ t.reports
  built : ∃ new, t.built = new ++ s.built ∧ (∀ u ∈ new, u.isVoid = false) ∧
    (t.reports = [] → balance new = k)

/-- What is put into a query, of which the lexemes to come are those of `o` where it opens, once
there is something in it. -/
structure Staged (o t : State) : Prop where
  token : hasToken t.built = true
  seated : Seated t.built.reverse
  balanced : t.reports = [] → balance t.built = if o.next? = some .pipe then 0 else 1

variable {j k : Int} {whole : Bool} {start : Nat} {reads : Bool} {o s t u : State}

theorem Grown.of_same (hreports : t.reports = s.reports) (hbuilt : t.built = s.built) :
    Grown 0 s t :=
  ⟨fun d hd => hreports ▸ hd, [], hbuilt, fun u hu => (by cases hu), fun _ => rfl⟩

theorem Grown.trans (h : Grown j s t) (h' : Grown k t u) : Grown (j + k) s u := by
  obtain ⟨new, hnew, hfull, hbalance⟩ := h.built
  obtain ⟨new', hnew', hfull', hbalance'⟩ := h'.built
  refine ⟨fun d hd => h'.reports d (h.reports d hd), new' ++ new, ?_, fun v hv => ?_,
    fun hnone => ?_⟩
  · rw [hnew', hnew, List.append_assoc]
  · exact (List.mem_append.mp hv).elim (hfull' v) (hfull v)
  · rw [balance_append, hbalance' hnone, hbalance (eq_nil_of_reports h'.reports hnone),
      Int.add_comm]

/-- What there is once something was found wrong needs no counting. -/
theorem Grown.of_loud (h : Grown j s t) (hloud : t.reports ≠ []) : Grown k s t := by
  obtain ⟨new, hnew, hfull, -⟩ := h.built
  exact ⟨h.reports, new, hnew, hfull, fun hnone => absurd hnone hloud⟩

theorem Peeked.grown (h : Peeked s t) : Grown 0 s t := .of_same h.reports h.built

theorem Fair.grownDrain (hs : s.Fair whole start) : Grown 0 s s.drain := by
  refine ⟨fun d hd => hd, (s.held.map leaf).reverse, rfl, fun u hu => ?_, fun _ => ?_⟩
  · obtain ⟨l, -, rfl⟩ := List.mem_map.mp (List.mem_reverse.mp hu)
    rfl
  · rw [balance_reverse, balance_trivia hs.held]

/-- A pipe is put in. -/
theorem Fair.grownPipe (hs : s.Fair whole start) (hready : s.Ready) (hnext : s.next? = some .pipe) :
    Grown (-1) s s.bump := by
  obtain ⟨l, ls, hrest, hkind, -⟩ := hready.rest_of_next? hnext
  have hbump : Grown (-1) s.drain s.bump := by
    rw [bump_of_cons hrest]
    refine ⟨fun d hd => hd, [leaf l], rfl, fun u hu => ?_, fun _ => ?_⟩
    · rw [List.mem_singleton.mp hu]
      rfl
    · rw [leaf, hkind]
      rfl
  exact hs.grownDrain.trans hbump

/-- A node is put in. -/
theorem Fair.grownNode {α : Type} (hs : s.Fair whole start) (shape : Shape) (p : Parser α)
    (hreports : ∀ d ∈ s.reports, d ∈ (Parser.node shape p s).2.reports)
    (hfull : (node shape (p (Parser.opened s)).2.built.reverse).isVoid = false) :
    Grown (balance [node shape (p (Parser.opened s)).2.built.reverse]) s
      (Parser.node shape p s).2 := by
  have hnode : Grown (balance [node shape (p (Parser.opened s)).2.built.reverse]) s.drain
      (Parser.node shape p s).2 :=
    ⟨hreports, [_], rfl, fun u hu => List.mem_singleton.mp hu ▸ hfull, fun _ => rfl⟩
  have hboth := hs.grownDrain.trans hnode
  rwa [Int.zero_add] at hboth

theorem balance_stage {shape : Shape} {children : List Tree}
    (h : (node shape children).isStage = true) : balance [node shape children] = 1 := by
  rw [balance, List.countP_singleton, List.countP_singleton, h]
  rfl

/-- Only more stages are put in, each after a pipe. -/
theorem Staged.grown (h : Staged o s) (hgrown : Grown 0 s t)
    (htoken : hasToken s.built = true → hasToken t.built = true) : Staged o t := by
  obtain ⟨new, hnew, hfull, hbalance⟩ := hgrown.built
  refine ⟨htoken h.token, ?_, fun hnone => ?_⟩
  · rw [hnew, List.reverse_append]
    exact h.seated.append fun u hu => hfull u (List.mem_reverse.mp hu)
  · rw [hnew, balance_append, hbalance hnone, Int.zero_add]
    exact h.balanced (eq_nil_of_reports hgrown.reports hnone)

/-! ## What comes first -/

/-- What is read from where a lexeme is directly ahead begins with it. -/
theorem Leads.begins (h : Leads (Parser.opened s) t) (hready : s.Ready)
    (hheld : ∀ l ∈ t.held, l.isTrivia = true) (hshort : t.rest.length < s.rest.length) :
    BeginsSolid t.built.reverse := by
  have hleaves : leavesOfAll t.built.reverse ++ (t.held ++ t.rest).map Lexeme.entry =
      s.rest.map Lexeme.entry := h.leaves
  obtain ⟨l, ls, hrest⟩ : ∃ l ls, s.rest = l :: ls :=
    List.exists_cons_of_length_pos (Nat.zero_lt_of_lt hshort)
  have hl : l.isTrivia = false := hready l (by rw [hrest]; rfl)
  rw [hrest] at hleaves
  cases hfirst : leavesOfAll t.built.reverse with
  | cons entry entries =>
    rw [hfirst] at hleaves
    obtain ⟨rfl, -⟩ := List.cons.inj hleaves
    exact ⟨l.kind, l.text, congrArg List.head? hfirst, hl⟩
  | nil =>
    -- nothing was put in: the lexeme ahead would be held, which only trivia is
    rw [hfirst, List.nil_append] at hleaves
    cases hheld' : t.held with
    | nil =>
      have hlength := congrArg List.length hleaves
      rw [hheld', List.nil_append, List.length_map, List.length_map, ← hrest] at hlength
      exact absurd hlength (Nat.ne_of_lt hshort)
    | cons m ms =>
      rw [hheld'] at hleaves
      have hkind : m.kind = l.kind := congrArg Prod.fst (List.cons.inj hleaves).1
      have hm : m.kind.isTrivia = true := hheld m (by rw [hheld']; exact List.mem_cons_self)
      rw [hkind] at hm
      exact absurd (hl.symm.trans hm) Bool.false_ne_true

/-- The first lexeme in a query is the one that is next where the query opens. -/
theorem Leads.leading (h : Leads (Parser.opened s) t) (htoken : hasToken t.built = true) :
    leading t.built.reverse = if s.next? = some .pipe then 0 else 1 := by
  have hleaves : leavesOfAll t.built.reverse ++ (t.held ++ t.rest).map Lexeme.entry =
      s.rest.map Lexeme.entry := h.leaves
  rw [← hasToken_reverse, hasToken, List.any_eq_true, ← List.find?_isSome,
    Option.isSome_iff_exists] at htoken
  obtain ⟨entry, hentry⟩ := htoken
  have hfind : (s.rest.map Lexeme.entry).find? (!·.1.isTrivia) = some entry := by
    rw [← hleaves, List.find?_append, hentry]
    rfl
  have hnext : s.next? = some entry.1 := by
    rw [List.find?_map] at hfind
    obtain ⟨l, hl, rfl⟩ := Option.map_eq_some_iff.mp hfind
    rw [next?, State.ahead, List.head?_filter]
    exact congrArg (Option.map (·.kind)) hl
  rw [Tree.leading, hentry, hnext, Option.any_some]
  by_cases hpipe : entry.1 = .pipe
  · rw [hpipe]
    rfl
  · rw [if_pos (bne_iff_ne.mpr hpipe), if_neg fun h => hpipe (Option.some.inj h)]

end State

namespace Keeps

open SplQuery.Parser SplQuery.Grammar

variable {whole : Bool} {start : Nat} {s : State} {k : Int}

/-! ## What is noted -/

theorem reportWith_loud (hs : s.Fair whole start) (kind : DiagnosticKind) (detail : String) :
    (Parser.reportWith kind detail s).2.reports ≠ [] := by
  have hreport : Keeps .nothing false (Parser.reportWith kind detail) := reportWith kind detail
  refine (hreport whole start s hs trivial).fair.reports_of_last (p := s.skipTrivia.span.start) ?_
  rw [reportWith_eq]
  exact lastReport_told _ _ _ _ _ _

theorem report_loud (hs : s.Fair whole start) (kind : DiagnosticKind) :
    (Parser.report kind s).2.reports ≠ [] := by
  have hreport : Keeps .nothing false (Parser.report kind) := report kind
  refine (hreport whole start s hs trivial).fair.reports_of_last (p := s.skipTrivia.span.start) ?_
  rw [report_eq]
  exact lastReport_told _ _ _ _ _ _

/-- Reports stay in a step. -/
theorem reports_of {α : Type} {p : Parser α} {reads : Bool} (hp : Keeps .nothing reads p)
    (hs : s.Fair whole start) : ∀ d ∈ s.reports, d ∈ (p s).2.reports :=
  (hp whole start s hs trivial).reports

theorem report_grown (hs : s.Fair whole start) (kind : DiagnosticKind) :
    Grown k s (Parser.report kind s).2 := by
  have hsame : (Parser.report kind s).2.built = s.built := by rw [report_eq]; rfl
  refine Grown.of_loud (j := 0) ⟨reports_of (report kind) hs, [], hsame, fun u hu => (by cases hu),
    fun _ => rfl⟩ (report_loud hs kind)

theorem recover_loud (hs : s.Fair whole start) (kind : DiagnosticKind) (detail : String) :
    (Parser.recover kind detail s).2.reports ≠ [] := by
  have hlook := (peeked_skipTrivia s).look.fair hs
  rw [recover_eq]
  split
  · exact reportWith_loud hlook kind detail
  · have hreport : Keeps .nothing false (Parser.reportWith kind detail) := reportWith kind detail
    have hskip := (hreport true _ _ hlook.opened trivial).fair
    exact (skipBalanced true true _ _ hskip trivial).reports_ne
      (reportWith_loud hlook.opened kind detail)

theorem recover_grown (hs : s.Fair whole start) (kind : DiagnosticKind) (detail : String) :
    Grown k s (Parser.recover kind detail s).2 := by
  refine Grown.of_loud (j := 0) ?_ (recover_loud hs kind detail)
  have hreports := reports_of (recover kind detail) hs
  have hpeeked := (peeked_skipTrivia s).look
  rw [recover_eq] at hreports ⊢
  split at hreports
  · next hend =>
    rw [if_pos hend]
    refine ⟨hreports, [], ?_, fun u hu => (by cases hu), fun _ => rfl⟩
    rw [reportWith_eq]
    exact hpeeked.built
  · next hend =>
    rw [if_neg hend]
    exact hpeeked.grown.trans
      ((hpeeked.fair hs).grownNode .error _ (fun d hd => hreports d (hpeeked.reports ▸ hd)) rfl)

/-- Where the stage does not end, what is passed over begins with the lexeme ahead. -/
theorem recover_begins (hs : s.Fair whole start) (hready : s.Ready) (hend : s.atEnd = false)
    (kind : DiagnosticKind) (detail : String) :
    ∃ us, (Parser.recover kind detail s).2.built = .node .error us :: s.drain.built ∧
      BeginsSolid us := by
  have hpeeked := (peeked_skipTrivia s).look
  rw [recover_eq, if_neg (by rw [hend]; exact Bool.false_ne_true), ← hpeeked.drain_built hready]
  have hend' : s.skipTrivia.look.atEnd = false := by rw [State.atEnd, hpeeked.next?]; exact hend
  have hopened := (hpeeked.fair hs).opened
  have hready' := hpeeked.ready
  generalize s.skipTrivia.look = t at hopened hready' hend'
  have hreport := reportWith_ends kind detail (opened t)
  have hskip := skipBalanced_ends true (Parser.reportWith kind detail (opened t)).2
  have hshort := (hskip.2 (hreport.atEnd.trans hend')).shorter
  have hleads := hreport.passes.leads.trans hskip.1.leads
  have hreporting : Keeps .nothing false (Parser.reportWith kind detail) := reportWith kind detail
  have hfair := (hreporting true _ _ hopened trivial).fair
  have hheld := (skipBalanced true true _ _ hfair trivial).fair.held
  exact ⟨_, rfl, hleads.begins hready' hheld
    (Nat.lt_of_lt_of_le hshort hreport.passes.leads.rest.length_le)⟩

theorem refuse_grown (hs : s.Fair whole start) {head : Kind} (hnext : s.next? = some head)
    (kind : DiagnosticKind) : Grown k s (Parser.refuse kind s).2 := by
  have hreport : Keeps .nothing false (Parser.report kind) := report kind
  have hfair := (hreport whole start s hs trivial).fair
  have hrest : (Parser.report kind s).2.rest ≠ [] := by
    rw [report_eq]
    exact rest_ne_nil_of_next? ((peeked_skipTrivia s).next?.trans hnext)
  change Grown k s (bumpAsError (Parser.report kind s).2).2
  rw [bumpAsError_eq hrest, ← Int.add_zero k]
  have hreports : (Parser.node .error Parser.bump (Parser.report kind s).2).2.reports =
      (Parser.report kind s).2.reports :=
    congrArg Notes.reports (notes_bump (opened (Parser.report kind s).2))
  have hnode := hfair.grownNode .error Parser.bump
    (fun d hd => hreports.symm ▸ hd) rfl
  exact (report_grown hs kind).trans hnode

end Keeps

namespace Grammar

open SplQuery.Parser

variable {below : Option Inner} {whole : Bool} {start : Nat} {s : State}

/-! ## Stages -/

theorem require_bind {β : Type} (member : Kind → Bool) {f : Unit → Parser β} {k : Kind}
    (hnext : s.next? = some k) (hmember : member k = true) :
    (require member >>= f) s = f () s.skipTrivia.look := by
  change f (require member s).1 (require member s).2 = _
  rw [require_eq hnext hmember]

theorem grown_inCommand {word : Option CommandWord} {shape : Shape} {p : Parser Unit}
    (hcommand : shape.isCommand = true) (hs : s.Fair whole start)
    (hreports : ∀ d ∈ s.reports, d ∈ (inCommand word (node shape p) s).2.reports) :
    Grown 1 s (inCommand word (node shape p) s).2 := by
  have hentered : (entered word s).Fair whole start := hs.congr rfl rfl rfl rfl rfl rfl rfl
  have hplain : shape.isPlain = true := by cases shape <;> first | rfl | cases hcommand
  have hnode := hentered.grownNode shape p hreports (isVoid_of_plain hplain)
  rw [balance_stage (isStage_node (by rw [hcommand, Bool.or_true]))] at hnode
  exact ⟨hnode.reports, hnode.built⟩

theorem keeps_genericCommand (hbelow : InnersKeep below) {k : Kind} (hk : k.isWord = true) :
    Keeps (.here k) true (genericCommand below) :=
  keeps_of_alike hbelow (.genericCommand (Kind.free_of_member rfl hk))

theorem grown_genericCommand (hbelow : InnersKeep below) (hs : s.Fair whole start) {k : Kind}
    (hholds : (Sight.here k).Holds s) (hk : k.isWord = true) :
    Grown 1 s (genericCommand below s).2 :=
  grown_inCommand rfl hs (keeps_genericCommand hbelow hk whole start s hs hholds).reports

theorem keeps_command (hbelow : InnersKeep below) (word : CommandWord) :
    Keeps (.here (.command word)) true (command below word) :=
  keeps_of_alike hbelow (.command word)

theorem grown_command (hbelow : InnersKeep below) (hs : s.Fair whole start) {word : CommandWord}
    (hholds : (Sight.here (.command word)).Holds s) : Grown 1 s (command below word s).2 := by
  have hreports := (keeps_command hbelow word whole start s hs hholds).reports
  have hpeeked : Peeked s s.skipTrivia.look.skipTrivia.look := by
    have hfirst := (peeked_skipTrivia s).look
    rw [hfirst.ready.skipTrivia]
    exact hfirst.look
  have hcommand : command below word s = inCommand (some word) (node (shapeOf word) (do
      bump
      bodyOf below word
      finishStage)) s.skipTrivia.look.skipTrivia.look := by
    have hnext : s.skipTrivia.look.next? = some (.command word) :=
      (peeked_skipTrivia s).look.next?.trans hholds.2
    rw [command, require_bind _ hholds.2 rfl,
      require_bind (· == .command word) hnext (beq_self_eq_true _)]
  rw [hcommand] at hreports ⊢
  refine hpeeked.grown.trans (grown_inCommand ?_ (hpeeked.fair hs) fun d hd => ?_)
  · cases word <;> rfl
  · exact hreports d (hpeeked.reports ▸ hd)

theorem keeps_stage (hbelow : InnersKeep below) : Keeps .nothing false (stage below) :=
  keeps_of_alike hbelow .stage

/-- One stage is put in, or it is noted that there is none. -/
theorem grown_stage (hbelow : InnersKeep below) (hs : s.Fair whole start) :
    Grown 1 s (stage below s).2 := by
  refine (ends_current s).bind (f := _) (Q := fun _ t => Grown 1 s t) fun k t ⟨ht, hk⟩ => ?_
  have hfair := ht.fair hs
  have hgrown {α : Type} {p : Parser α} (hp : Grown 1 t (p t).2) :
      Ends p t fun _ u => Grown 1 s u := ht.grown.trans hp
  split
  · exact hgrown (grown_command hbelow hfair (ht.here hk.symm))
  · exact hgrown (grown_genericCommand hbelow hfair (ht.here hk.symm) rfl)
  · exact hgrown (grown_genericCommand hbelow hfair (ht.here hk.symm) rfl)
  · exact hgrown (Keeps.report_grown hfair _)
  · exact hgrown (Keeps.report_grown hfair _)
  · exact hgrown (Keeps.report_grown hfair _)
  · have htext := peeked_skipTrivia t
    exact hgrown (htext.grown.trans (Keeps.recover_grown (k := 1) (htext.fair hfair) _ _))

/-- A round puts in a pipe and a stage, or it is noted what it found in their place. -/
theorem keeps_nextStage (hbelow : InnersKeep below) (nested : Bool) :
    Keeps .nothing false (nextStage below nested) := by
  refine .peek .current fun s _ => ?_
  rw [current_eq]
  unfold nextStageAt
  split
  · exact ⟨.nothing, trivial, .pure _⟩
  · next hnext =>
    refine ⟨.here .rbracket, ((peeked_skipTrivia s).look).here hnext, .ite (.pure _) ?_⟩
    exact (Keeps.refuse (k := .rbracket) rfl _).forget.andAfter fun _ => .pure _
  · exact ⟨.nothing, trivial, Keeps.bump.andAfter fun _ =>
      (keeps_stage hbelow).andAfter fun _ => .pure _⟩
  · exact ⟨.nothing, trivial, Keeps.currentText.andAfter fun w =>
      (Keeps.recover _ _).andAfter fun _ => .pure _⟩

theorem grown_nextStage (hbelow : InnersKeep below) (nested : Bool) (hs : s.Fair whole start) :
    Grown 0 s (nextStage below nested s).2 := by
  refine (ends_current s).bind (f := _) (Q := fun _ t => Grown 0 s t) fun k t ⟨ht, hk⟩ => ?_
  have hfair := ht.fair hs
  unfold nextStageAt
  split
  · exact ht.grown
  · split
    · exact ht.grown
    · exact ht.grown.trans (Keeps.refuse_grown (k := 0) hfair (ht.next?.trans hk.symm) _)
  · have hbump := hfair.grownPipe ht.ready (ht.next?.trans hk.symm)
    exact ht.grown.trans (hbump.trans (grown_stage hbelow hfair.keptBump.fair))
  · have htext := peeked_skipTrivia t
    exact ht.grown.trans (htext.grown.trans (Keeps.recover_grown (k := 0) (htext.fair hfair) _ _))

theorem keeps_stages (hbelow : InnersKeep below) (nested : Bool) :
    Keeps .nothing false (stages below nested) :=
  Keeps.loop ((keeps_nextStage hbelow nested).andAfter fun _ => .pure _)
    fun _ => (keeps_nextStage hbelow nested).andAfter fun _ => .pure _

theorem grown_rounds {body : Parser Bool} (hkeeps : Keeps .nothing false body)
    (hbody : ∀ s : State, s.Fair whole start → Grown 0 s (body s).2) :
    ∀ fuel s, s.Fair whole start → Grown 0 s (loopFrom (roundOf body) fuel () s).2 := by
  intro fuel
  induction fuel with
  | zero => exact fun s _ => .of_same rfl rfl
  | succ fuel ih =>
    intro s hs
    have hfirst : Grown 0 s (roundOf body () s).2 := hbody s hs
    have hfair : State.Fair whole start (roundOf body () s).2 :=
      (hkeeps whole start s hs trivial).fair
    rcases hround : roundOf body () s with ⟨a | a, t⟩ <;> rw [hround] at hfirst hfair
    · rw [loopFrom_done hround]
      exact hfirst
    · rw [loopFrom_yield hround]
      exact hfirst.trans (ih t hfair)

/-! ## The first stage -/

/-- After the first stage there is one, or a search with nothing in it before a lexeme that is
still to be read. -/
def Begun (o t : State) : Prop :=
  hasToken t.built = true ∧ Grown 1 o t ∨
    ∃ u, Peeked o u ∧ t.built = .node .searchExpr [] :: u.drain.built ∧ t.held = [] ∧
      t.rest = u.rest

variable {o t u : State}

theorem Begun.of_peeked (ho : Peeked o t) (h : Begun t u) (hready : t.Ready) : Begun o u := by
  rcases h with ⟨htoken, hgrown⟩ | ⟨v, hv, hbuilt, hheld, hrest⟩
  · exact .inl ⟨htoken, ho.grown.trans hgrown⟩
  · refine .inr ⟨v, ⟨hv.built.trans ho.built, hv.held.trans ?_, hv.rest.trans ?_,
      hv.notes.trans ho.notes⟩, hbuilt, hheld, hrest⟩
    · rw [hready.skipTrivia, ho.held]
    · rw [hready.skipTrivia, ho.rest]

theorem keeps_moreTerms (hbelow : InnersKeep below) (stop : Kind → Bool) (k : Kind)
    (hk : endsSearch stop k = false) : Keeps (.here k) true (moreTerms below stop) :=
  keeps_of_alike hbelow (.moreTerms hk)

theorem begun_searchExpr (hbelow : InnersKeep below) (hs : s.Fair false start) (hready : s.Ready) :
    Kept false start false s (searchExpr below nowhere s).2 ∧
      Begun s (searchExpr below nowhere s).2 := by
  have hkept := Keeps.searchNode (keeps_moreTerms hbelow nowhere) hs
    fun hwhole => absurd hwhole Bool.false_ne_true
  refine ⟨hkept, ?_⟩
  obtain ⟨-, hpeeked | htoken⟩ := Keeps.searchRounds (keeps_moreTerms hbelow nowhere) hs.opened
  · have hskip : (opened s).skipTrivia = opened s := (ready_opened hready).skipTrivia
    refine .inr ⟨s, ⟨rfl, ?_, ?_, rfl⟩, ?_, ?_, ?_⟩
    · rw [hready.skipTrivia]
    · rw [hready.skipTrivia]
    · exact congrArg (fun ts : List Tree => Tree.node .searchExpr ts.reverse :: s.drain.built)
        hpeeked.built
    · exact hpeeked.held.trans (by rw [hskip]; rfl)
    · exact hpeeked.rest.trans (by rw [hskip]; rfl)
  · rw [← hasToken_reverse] at htoken
    have hgrown := hs.grownNode .searchExpr (searchTerms below nowhere) hkept.reports
      (isVoid_of_token htoken)
    rw [balance_stage (isStage_node rfl)] at hgrown
    refine .inl ⟨?_, hgrown⟩
    change hasToken (Tree.node .searchExpr _ :: s.drain.built) = true
    rw [hasToken_cons, Tree.leaves, ← hasToken]
    exact Bool.or_eq_true_iff.mpr (.inl htoken)

theorem begun_firstStage (hbelow : InnersKeep below) (hs : s.Fair false start) :
    Kept false start false s (firstStage below s).2 ∧ Begun s (firstStage below s).2 := by
  have hsearch {t : State} (ht : Peeked s t) :
      Kept false start false s (searchExpr below nowhere t).2 ∧
        Begun s (searchExpr below nowhere t).2 := by
    obtain ⟨hkept, hbegun⟩ := begun_searchExpr hbelow (ht.fair hs) ht.ready
    exact ⟨(ht.kept hs).trans hkept, hbegun.of_peeked ht ht.ready⟩
  refine (ends_current s).bind (f := _)
    (Q := fun _ t => Kept false start false s t ∧ Begun s t) fun k t ⟨ht, hk⟩ => ?_
  split
  · next word _ =>
    have hsecond : Ends Parser.ahead t fun _ u => Peeked s u := by
      have hskip : Parser.ahead t = (t.second?, t) := by rw [ahead_eq, ht.ready.skipTrivia]
      rw [Ends, hskip]
      exact ht
    refine hsecond.bind fun l u hu => ?_
    split
    · exact hsearch hu
    · have hhere := hu.here hk.symm
      have hkept := keeps_command hbelow word false start u (hu.fair hs) hhere
      refine ⟨(hu.kept hs).trans hkept.forget, .inl ⟨hkept.token (.inl rfl), ?_⟩⟩
      exact hu.grown.trans (grown_command hbelow (hu.fair hs) hhere)
  · exact hsearch ht

/-! ## All stages -/

theorem nextStage_eq (below : Option Inner) (nested : Bool) (s : State) :
    nextStage below nested s = nextStageAt below nested s.next? s.skipTrivia.look := by
  change nextStageAt below nested (current s).1 (current s).2 = _
  rw [current_eq]

/-- What was put into a query in which nothing was before. -/
theorem staged_of_grown {k : Int} (h : Grown k o t) (ho : o.built = [])
    (htoken : hasToken t.built = true)
    (hk : t.reports = [] → k = if o.next? = some .pipe then 0 else 1) : Staged o t := by
  obtain ⟨new, hnew, hfull, hbalance⟩ := h.built
  rw [ho, List.append_nil] at hnew
  refine ⟨htoken, seated_of_none fun v hv => ?_, fun hnone => ?_⟩
  · exact hfull v (hnew ▸ List.mem_reverse.mp hv)
  · rw [hnew, hbalance hnone, hk hnone]

/-- Further rounds keep what there is in order. -/
theorem staged_rounds (hbelow : InnersKeep below) (nested : Bool) (hs : s.Fair whole start)
    (h : Staged o s) (fuel : Nat) :
    Staged o (loopFrom (roundOf (nextStage below nested)) fuel () s).2 := by
  have hround (a : Unit) : Keeps .nothing false (roundOf (nextStage below nested) a) :=
    (keeps_nextStage hbelow nested).andAfter fun _ => .pure _
  have hkept := Keeps.loopFrom hround fuel () whole start s hs trivial
  exact h.grown (grown_rounds (keeps_nextStage hbelow nested)
    (fun t ht => grown_nextStage hbelow nested ht) fuel s hs) fun htoken =>
      hkept.token (.inr htoken)

/-- Where a stage ends before there is any, the first round ends the query, reads a pipe, or passes
over a bracket. -/
theorem staged_firstRound (hbelow : InnersKeep below) (nested : Bool) (hs : o.Fair false start)
    (ho : o.built = []) (hw : Peeked o s) (hend : o.atEnd = true) :
    (∃ t, nextStage below nested s = (false, t) ∧ t.built = []) ∨
      ∃ t, nextStage below nested s = (true, t) ∧ Staged o t := by
  have hfair := hw.fair hs
  have hgrown := hw.grown.trans (grown_nextStage hbelow nested hfair)
  have hpeeked := (peeked_skipTrivia s).look
  rw [nextStage_eq, hw.next?] at hgrown ⊢
  have hbuilt : s.skipTrivia.look.built = [] := hpeeked.built.trans (hw.built.trans ho)
  cases hnext : o.next? with
  | none => exact .inl ⟨_, rfl, hbuilt⟩
  | some k =>
    have hhere := hpeeked.here (hw.next?.trans hnext)
    rw [hnext] at hgrown
    cases k with
    | rbracket =>
      cases nested with
      | true => exact .inl ⟨_, rfl, hbuilt⟩
      | false =>
        have hrefuse : Keeps (.here .rbracket) true (refuse .unmatchedBracket) := .refuse rfl _
        have hrefused := hrefuse false start _ (hpeeked.fair hfair) hhere
        have hone : Grown 1 o (refuse .unmatchedBracket s.skipTrivia.look).2 :=
          hw.grown.trans (hpeeked.grown.trans
            (Keeps.refuse_grown (hpeeked.fair hfair) hhere.2 .unmatchedBracket (k := 1)))
        refine .inr ⟨_, rfl, staged_of_grown hone ho (hrefused.token (.inl rfl)) fun _ => ?_⟩
        rw [hnext]
        rfl
    | pipe =>
      have hbump := (hpeeked.fair hfair).readBump hhere.1 hhere.2
      have hstage := keeps_stage hbelow false start _ hbump.fair trivial
      refine .inr ⟨_, rfl, staged_of_grown hgrown ho ?_ fun _ => (if_pos hnext).symm⟩
      exact hstage.token (.inr (hbump.token (.inl rfl)))
    | _ =>
      rw [State.atEnd, hnext] at hend
      cases hend

/-- Before the end of a stage a round passes over what it finds. -/
theorem nextStage_recovers (below : Option Inner) (nested : Bool) (hend : s.atEnd = false) :
    ∃ detail, nextStage below nested s =
      (true, (recover .unexpectedToken detail s.skipTrivia.look.skipTrivia).2) := by
  obtain ⟨k, hnext⟩ := next?_of_not_atEnd hend
  rw [State.atEnd, hnext, Option.all_some] at hend
  rw [nextStage_eq, hnext]
  refine ⟨ticked (currentText s.skipTrivia.look).1, ?_⟩
  cases k <;> first | rfl | cases hend

/-- A search with nothing in it is in order once what follows it has been passed over. -/
theorem staged_of_recover (ho : o.built = []) (hu : Peeked o u) (hs : s.Fair false start)
    (hbuilt : s.built = .node .searchExpr [] :: u.drain.built) (hheld : s.held = [])
    (hready : s.Ready) (hend : s.atEnd = false) (detail : String) :
    Staged o (recover .unexpectedToken detail s.skipTrivia.look.skipTrivia).2 := by
  have hpeeked : Peeked s s.skipTrivia.look.skipTrivia := by
    have hfirst := (peeked_skipTrivia s).look
    rw [hfirst.ready.skipTrivia]
    exact hfirst
  have hfair := hpeeked.fair hs
  have hgoes : s.skipTrivia.look.skipTrivia.atEnd = false := by
    rw [State.atEnd, hpeeked.next?]
    exact hend
  obtain ⟨us, hus, hbegins⟩ :=
    Keeps.recover_begins hfair hpeeked.ready hgoes .unexpectedToken detail
  have hdrain :
      s.skipTrivia.look.skipTrivia.drain.built = .node .searchExpr [] :: u.drain.built := by
    rw [hpeeked.drain_built hready, State.drain, hheld, hbuilt]
    rfl
  rw [hdrain] at hus
  refine ⟨?_, ?_, fun hnone => absurd hnone (Keeps.recover_loud hfair .unexpectedToken detail)⟩
  · rw [hus, hasToken_cons, Tree.leaves, ← hasToken, hasToken_of_begins hbegins, Bool.true_or]
  · rw [hus, List.reverse_cons, List.reverse_cons, List.append_assoc]
    refine seated_of_begins [.node .error us] (fun v hv => ?_) (fun v hv => ?_) ?_
    · rw [List.mem_reverse, State.drain, hu.built, ho, List.append_nil, List.mem_reverse] at hv
      obtain ⟨l, -, rfl⟩ := List.mem_map.mp hv
      rfl
    · rw [List.mem_singleton.mp hv]
      rfl
    · rw [BeginsSolid, leavesOfAll_singleton]
      exact hbegins

/-- The rounds after the first stage keep what there is in order, and make it so if that stage is a
search with nothing in it. -/
theorem staged_of_begun (hbelow : InnersKeep below) (nested : Bool) (ho : o.built = [])
    (hend : o.atEnd = false) (hs : s.Fair false start) (h : Begun o s) :
    Staged o (stages below nested s).2 := by
  have hnot : o.next? ≠ some .pipe := fun hpipe => by
    rw [State.atEnd, hpipe] at hend
    cases hend
  obtain ⟨htoken, hgrown⟩ | ⟨u, hu, hbuilt, hheld, hrest⟩ := h
  · have hstaged := staged_of_grown hgrown ho htoken fun _ => (if_neg hnot).symm
    exact staged_rounds hbelow nested hs hstaged (s.rest.length + 1 + 1)
  · have hready : s.Ready := hu.ready.of_rest hrest
    have hsame : s.next? = o.next? := (next?_of_rest hrest).trans hu.next?
    have hgoes : s.atEnd = false := by
      rw [State.atEnd, hsame]
      exact hend
    obtain ⟨detail, hround⟩ := nextStage_recovers below nested hgoes
    have hkept := keeps_nextStage hbelow nested false start s hs trivial
    rw [hround] at hkept
    rw [stages_eq, whileTrue_yes hround]
    exact staged_rounds hbelow nested hkept.fair
      (staged_of_recover ho hu hs hbuilt hheld hready hgoes detail) _

/-- There is nothing in a query, or what there is is in order. -/
theorem staged_allStages (hbelow : InnersKeep below) (nested : Bool) (ho : o.built = [])
    (hs : o.Fair false start) :
    Kept false start false o (allStages below nested o).2 ∧
      ((allStages below nested o).2.built = [] ∨ Staged o (allStages below nested o).2) := by
  have hpeeked := (peeked_skipTrivia o).look
  have hfair := hpeeked.fair hs
  have hunfold : allStages below nested o = (if o.atEnd = true then stages below nested
      else firstStage below >>= fun _ => stages below nested) o.skipTrivia.look := by
    change (if (atStageEnd o).1 = true then stages below nested
      else firstStage below >>= fun _ => stages below nested) (atStageEnd o).2 = _
    rw [atStageEnd_eq]
  rw [hunfold]
  split
  · next hend =>
    have hkept := keeps_stages hbelow nested false start _ hfair trivial
    refine ⟨(hpeeked.kept hs).trans hkept, ?_⟩
    obtain ⟨t, ht, hbuilt⟩ | ⟨t, ht, hstaged⟩ :=
      staged_firstRound hbelow nested hs ho hpeeked hend
    · rw [stages_eq, whileTrue_no ht]
      exact .inl hbuilt
    · have hround := (keeps_nextStage hbelow nested false start _ hfair trivial).fair
      rw [ht] at hround
      rw [stages_eq, whileTrue_yes ht]
      exact .inr (staged_rounds hbelow nested hround hstaged _)
  · next hend =>
    obtain ⟨hfirst, hbegun⟩ := begun_firstStage hbelow hfair
    have hkept := hfirst.trans (keeps_stages hbelow nested false start _ hfirst.fair trivial)
    refine ⟨(hpeeked.kept hs).trans hkept, .inr ?_⟩
    exact staged_of_begun hbelow nested ho (Bool.not_eq_true _ ▸ hend) hfirst.fair
      (hbegun.of_peeked hpeeked hpeeked.ready)

theorem leads_allStages (hbelow : Fits below) (nested : Bool) (s : State) :
    Leads s (allStages below nested s).2 := by
  have hends : Ends (allStages below nested) s fun _ t => Leads s t := by
    refine (atStageEnd_ends s).bind fun b t ⟨ht, _⟩ => ?_
    have hrest {u : State} (hu : Leads s u) :
        Ends (stages below nested) u fun _ v => Leads s v :=
      (stages_ends hbelow nested u).mono fun _ _ hv => hu.trans hv.1.leads
    split
    · exact hrest ht.passes.leads
    · exact (firstStage_ends hbelow t).bind fun _ u hu => hrest (ht.passes.leads.trans hu.leads)
  exact hends

/-! ## Queries -/

/-- A query has nothing in it, or as many stages as its pipes ask for unless something was found
wrong. -/
theorem kept_pipeline (hbelow : InnersKeep below) (hfits : Fits below) (nested : Bool)
    (hs : s.Fair whole start) (hbefore : whole = true → EndsSolid s.drain.built.reverse) :
    Kept whole start false s (pipeline below nested s).2 := by
  have hopened : (opened s).Fair false (s.place start) := { hs.opened with seated := nofun }
  obtain ⟨hinner, hstaged⟩ := staged_allStages hbelow nested rfl hopened
  have hleads := leads_allStages hfits nested (opened s)
  change Kept whole start false s
    ((allStages below nested (opened s)).2.closeNode .pipeline s.drain.built)
  generalize (allStages below nested (opened s)).2 = t at hinner hstaged hleads
  refine hs.close hinner ⟨nofun, fun _ => ?_, fun _ => ?_, nofun, fun _ hnone => ?_, nofun, nofun⟩
    fun hwhole _ => hbefore hwhole
  · rw [hasToken_reverse, List.reverse_eq_nil_iff]
    exact hstaged.symm.imp_left Staged.token
  · rcases hstaged with hnil | hstaged
    · rw [hnil]
      exact seated_of_none nofun
    · exact hstaged.seated
  · rcases hstaged with hnil | hstaged
    · rw [hnil]
      rfl
    · have hbalance := hstaged.balanced hnone
      rw [hleads.leading hstaged.token]
      rw [← balance_reverse, balance, next?_opened] at hbalance
      split at hbalance
      · next hpipe =>
        rw [if_pos hpipe]
        omega
      · next hpipe =>
        rw [if_neg hpipe]
        omega

/-- What may be nested keeps states fair, however deep that may be. -/
theorem innersKeep_belowAt (n : Nat) : InnersKeep (belowAt n) := by
  induction n with
  | zero => exact ⟨fun body _ => .descend_none _ body, .descend_none _ _⟩
  | succ n ih =>
    refine ⟨fun body hbody => .descend _ ?_, .descend _ ?_⟩
    · cases hbody with
      | searchNot stop => exact keeps_of_alike ih .searchNot
      | searchTerms => exact keeps_of_alike ih .searchTerms
      | expression least =>
        exact keeps_of_alike ih (.operators least)
    · exact fun _ _ _ hs hread =>
        kept_pipeline ih (fits_belowAt n) true hs fun _ => endsSolid_of_justRead hread

end Grammar

end SplQuery

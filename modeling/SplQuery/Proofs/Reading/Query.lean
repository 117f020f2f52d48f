import SplQuery.Proofs.Diagnostic.Filtered
import SplQuery.Proofs.Parse
import SplQuery.Proofs.Reading.Meaning
import SplQuery.Proofs.Reading.Primitive
import SplQuery.Query.Parse

/-!
# Queries of one command

A query that is a pipe and one command is read as a pipeline of one stage, where the arguments of
the command are read as trees of their own up to the end of the query. Of a text without garbage
nothing else is found.

* `command_adds`, `query_adds` — the tree of the query, given those of the arguments.
* `ofLexemes_of_adds` — what the parse of the lexemes gives.
-/

namespace SplQuery

namespace Grammar

open SplQuery.Parser State

variable {below : Option Inner} {word : CommandWord} {s : State} {w v : String} {ts : List Tree}

/-- The tree of a command, given the trees of its arguments. -/
def commandTree (word : CommandWord) (w : String) (ts : List Tree) : Tree :=
  .node (shapeOf word) (.leaf (.command word) w :: ts)

/-- The tree of a query that is a pipe and one command. -/
def queryTree (v : String) (word : CommandWord) (w : String) (ts : List Tree) : Tree :=
  .node .root [.node .pipeline [.leaf .pipe v, commandTree word w ts]]

/-- Nothing is left of a stage at the end of the query. -/
theorem finishStage_looks (h : s.coming = []) : Ends finishStage s fun _ t => Looks s t := by
  refine (Adds.refl s).asks_atStageEnd fun t ht => ?_
  rw [State.atEnd, next?_of_coming_nil h]
  exact .pure ht

/-- The arguments of a command are read up to the end of the query. -/
def ReadsBody (below : Option Inner) (word : CommandWord) (ts : List Tree) (s : State) : Prop :=
  ∀ t, t.coming = Tree.leavesOfAll ts → t.rest <:+ s.rest →
    Ends (bodyOf below word) t fun _ u => Adds ts t u

theorem ReadsBody.of_suffix {t : State} (h : ReadsBody below word ts s)
    (hrest : t.rest <:+ s.rest) : ReadsBody below word ts t :=
  fun u hu hsuffix => h u hu (hsuffix.trans hrest)

theorem command_adds (hs : s.coming = (.command word, w) :: Tree.leavesOfAll ts)
    (hbody : ReadsBody below word ts s) :
    Ends (command below word) s fun _ t => Adds [commandTree word w ts] s t := by
  have hword : s.next?.any Kind.isWord = true := by
    rw [next?_of_coming hs]
    rfl
  refine (require_looks hword).bind fun _ t ht => ?_
  have hcommand : t.next?.any (· == .command word) = true := by
    rw [next?_of_coming (ht.coming.trans hs)]
    exact beq_self_eq_true _
  refine (require_looks hcommand).bind fun _ u hu => ?_
  refine (inCommand_adds (node_adds ?_)).mono fun _ v hv => ht.then (hu.then hv)
  have hopened : (opened (entered (some word) u)).coming = (.command word, w) :: _ :=
    hu.coming.trans (ht.coming.trans hs)
  have hready : (opened (entered (some word) u)).Ready := hu.ready
  have hsuffix : (opened (entered (some word) u)).rest <:+ s.rest :=
    hu.adds.rest.trans ht.adds.rest
  refine (bump_adds hready hopened).bind fun _ v hv => ?_
  have hcoming : v.coming = Tree.leavesOfAll ts := hv.coming_eq hopened
  refine (hbody v hcoming (hv.rest.trans hsuffix)).bind fun _ x hx => ?_
  have hend : x.coming = [] := hx.coming_eq (hcoming.trans (List.append_nil _).symm)
  exact (finishStage_looks hend).mono fun _ y hy => hv.trans (hx.andLooks hy)

/-- A pipe and one command. -/
theorem pipeline_adds
    (hs : s.coming = (.pipe, v) :: (.command word, w) :: Tree.leavesOfAll ts)
    (hbody : ReadsBody below word ts s) :
    Ends (pipeline below false) s fun _ t =>
      Adds [.node .pipeline [.leaf .pipe v, commandTree word w ts]] s t := by
  refine node_adds ?_
  have hopened : (opened s).coming = _ := hs
  refine (Adds.refl _).asks_atStageEnd fun t ht => ?_
  rw [State.atEnd, next?_of_coming hopened]
  refine whileTrue_of_loops (.more ?_)
  -- the first round reads the pipe and the stage, the second one finds the end
  have ht' : t.coming = _ := ht.coming.trans hopened
  refine (Adds.refl t).asks_current fun u hu => ?_
  have hu' : u.coming = _ := hu.coming.trans ht'
  rw [next?_of_coming ht']
  refine (bump_adds hu.ready hu').bind fun _ x hx => ?_
  have hx' : x.coming = (.command word, w) :: Tree.leavesOfAll ts := hx.coming_eq hu'
  have hsuffix : x.rest <:+ s.rest :=
    hx.rest.trans (hu.adds.rest.trans ht.adds.rest)
  have hend {y : State} (hy : Adds [commandTree word w ts] x y) : y.coming = [] := by
    refine hy.after (hx'.trans ?_)
    rw [commandTree, Tree.leaves_node, List.append_nil]
    rfl
  refine Ends.bind (P := fun _ y => Adds [commandTree word w ts] x y) ?_
    fun _ y hy => .pure ⟨rfl, ?_, ?_⟩
  · refine (Adds.refl x).asks_current fun y hy => ?_
    rw [next?_of_coming hx']
    have hread := command_adds (hy.coming.trans hx')
      (hbody.of_suffix (hy.adds.rest.trans hsuffix))
    exact hread.mono fun _ z hz => hy.then hz
  · rw [ht', hend hy]
    exact Nat.zero_lt_succ _
  · refine .last ((Adds.refl y).asks_current fun z hz => ?_)
    rw [next?_of_coming_nil (hend hy)]
    exact .pure ⟨rfl, ht.then (hu.then ((hx.trans hy).andLooks hz))⟩

/-- A whole query of one command. -/
theorem query_adds {limit : Nat}
    (hs : s.coming = (.pipe, v) :: (.command word, w) :: Tree.leavesOfAll ts)
    (hbody : ReadsBody (belowAt limit) word ts s) :
    Ends (query limit) s fun _ t => Adds [queryTree v word w ts] s t := by
  refine node_adds ?_
  have hopened : (opened s).coming = _ := hs
  refine (pipeline_adds hopened (hbody.of_suffix (List.suffix_refl _))).bind fun _ t ht => ?_
  exact (eatTrivia_looks t).mono fun _ u hu => ht.andLooks hu

end Grammar

namespace Parse

open SplQuery.Parser State Grammar

/-- The parse of lexemes that are a pipe and one command, whose arguments are read as trees of their
own: there is nothing wrong, and the tree is that of the query, but for trivia. -/
theorem ofLexemes_of_adds {lexemes : List Lexeme} {word : CommandWord} {v w : String}
    {ts : List Tree} (stop : Nat) {limit : Nat}
    (hs : (start lexemes stop).coming = (.pipe, v) :: (.command word, w) :: Tree.leavesOfAll ts)
    (hbody : ReadsBody (belowAt limit) word ts (start lexemes stop)) :
    (ofLexemes lexemes stop limit).diagnostics = [] ∧
      (ofLexemes lexemes stop limit).tree.bare = [queryTree v word w ts] := by
  have hadds : Adds [queryTree v word w ts] (start lexemes stop)
      (finalState lexemes stop limit) :=
    (query_adds hs hbody).bind (Q := fun _ t => Adds [queryTree v word w ts] (start lexemes stop) t)
      fun _ t ht => (eatTrivia_looks t).mono fun _ u hu => ht.andLooks hu
  obtain ⟨-, -, -, children, hbuilt⟩ := finalState_leads lexemes stop limit
  change (finalState lexemes stop limit).built = _ at hbuilt
  constructor
  · rw [ofLexemes, hadds.reports]
    rfl
  · obtain ⟨new, hnew, hbare⟩ := hadds.built (List.forall_mem_nil _)
    have hnew : (finalState lexemes stop limit).built = new := hnew.trans (List.append_nil new)
    rw [← hnew, hbuilt, List.reverse_singleton, Tree.bareAll_singleton] at hbare
    rw [ofLexemes, hbuilt]
    exact hbare

end Parse

/-- Where there is no garbage there is no lexical error. -/
theorem lexErrors_eq_nil {text : String} {limit : Nat} (h : ∀ l ∈ lex text, l.kind ≠ .garbage) :
    (parseQuery text limit).lexErrors = [] := by
  have hgarbage : (lex text).filter (·.kind == .garbage) = [] := by
    rw [List.filter_eq_nil_iff]
    intro l hl
    simpa using h l hl
  change ((lex text).filter (·.kind == .garbage)).map _ = []
  rw [hgarbage]
  rfl

/-- There are errors to be shown wherever anything was noted. -/
theorem ParsedQuery.success_iff {q : ParsedQuery} :
    q.success = true ↔ q.lexErrors = [] ∧ q.diagnostics = [] := by
  rw [success, Bool.and_eq_true, List.isEmpty_iff, List.isEmpty_iff, parseErrors,
    List.map_eq_nil_iff, (Diagnostic.chosen_filtered _).eq_nil_iff]

/-- A text of a pipe, a command and arguments, without garbage: the query is found without an error,
and its tree is that of the command, but for trivia. -/
theorem parseQuery_of_coming {text : String} {word : CommandWord} {v w : String} {ts : List Tree}
    {limit : Nat} (hclean : ∀ l ∈ lex text, l.kind ≠ .garbage)
    (hcoming : (State.start (lex text) text.utf8ByteSize).coming =
      (.pipe, v) :: (.command word, w) :: Tree.leavesOfAll ts)
    (hbody : Grammar.ReadsBody (Grammar.belowAt limit) word ts
      (State.start (lex text) text.utf8ByteSize)) :
    (parseQuery text limit).success = true ∧
      (parseQuery text limit).tree.bare = [Grammar.queryTree v word w ts] := by
  obtain ⟨hdiagnostics, hbare⟩ := Parse.ofLexemes_of_adds text.utf8ByteSize hcoming hbody
  exact ⟨ParsedQuery.success_iff.mpr ⟨lexErrors_eq_nil hclean, hdiagnostics⟩,
    (Placed.bare_place _ 0).trans hbare⟩

/-- The same where each token is apart from the others by a blank. -/
theorem parseQuery_of_spells {text : String} {word : CommandWord} {v w : String} {ts : List Tree}
    {limit : Nat}
    (h : Lexeme.Spells (lex text) ((.pipe, v) :: (.command word, w) :: Tree.leavesOfAll ts))
    (hbody : Grammar.ReadsBody (Grammar.belowAt limit) word ts
      (State.start (lex text) text.utf8ByteSize)) :
    (parseQuery text limit).success = true ∧
      (parseQuery text limit).tree.bare = [Grammar.queryTree v word w ts] :=
  parseQuery_of_coming h.clean h.entries hbody

/-- The query whose tree is that of one command has one stage, that command. -/
theorem stages_of_bare {p : Placed} {word : CommandWord} {v w : String} {ts : List Tree}
    {P : Command → Prop} (h : p.bare = [Grammar.queryTree v word w ts])
    (hcommand : ∀ q : Placed, q.bare = [Grammar.commandTree word w ts] →
      ∃ c, q.meaning = .command c ∧ P c) :
    ∃ c span, p.pipeline.stages = [.command c span] ∧ P c := by
  obtain ⟨span, core?, children, qs, rfl, hsolid, hqs⟩ := Placed.node_of_bare h
  obtain _ | @⟨pipeline, _, _, _, hpipeline, _ | _⟩ := hqs
  obtain ⟨span', core?', children', qs, rfl, hsolid', hqs⟩ := Placed.node_of_bare hpipeline
  obtain _ | @⟨pipe, _, _, _, hpipe, _ | @⟨stage, _, _, _, hstage, _ | _⟩⟩ := hqs
  obtain ⟨⟨pipeSpan, rfl⟩, -⟩ := Placed.leaf_of_bare hpipe
  obtain ⟨c, hc, hP⟩ := hcommand stage hstage
  refine ⟨c, stage.core, ?_, hP⟩
  have hstages : (Placed.partsOfAll children').filterMap (·.stage?) = [.command c stage.core] := by
    have hread (p : Part) (hp : p.meaning = .nothing) : p.stage? = none := by
      rw [Part.stage?, hp]
    rw [Placed.filterMap_parts hread, hsolid']
    simp only [Placed.partsOfAll, Placed.meaning, hc, Part.stage?, List.filterMap_cons,
      List.filterMap_nil]
  have hpipeline : (Placed.node span' core?' .pipeline children').meaning = .pipeline
      (.mk [.command c stage.core] (Placed.node span' core?' .pipeline children').core) := by
    rw [Placed.meaning, Meaning.ofNode, hstages]
  have hroot : (Placed.node span core? .root children).meaning = .pipeline
      (.mk [.command c stage.core] (Placed.node span' core?' .pipeline children').core) := by
    rw [Placed.meaning, Meaning.ofNode, Meaning.part?_eq, hsolid, Placed.partsOfAll, hpipeline]
    rfl
  rw [Placed.pipeline, hroot]
  rfl

end SplQuery

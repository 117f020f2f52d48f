import SplQuery.Proofs.Formed.Command
import SplQuery.Proofs.Parse
import SplQuery.Query.Parse

/-!
# Trees of queries in which nothing is wrong

Where a parse notes nothing, every node of the tree holds what the grammar of trees says. Where the
tree is placed, its nodes hold what they held before, and the core of every node is made of those of
its children. What a node means is found in the placed tree.

* `Grammar.puts_pipeline` — stages are put together.
* `Grammar.innersForm_belowAt` — however deep queries are nested.
* `parseTree_formed` — the trees of whole texts.
* `Placed.Formed` — a placed tree all of whose nodes hold what they may.
* `Placed.Formed.rec_nodes` — what holds of leaves and is handed up from children to nodes.
* `parseQuery_formed` — the placed trees of texts in which nothing is wrong.
-/

namespace SplQuery

namespace Grammar

open SplQuery.Parser Shape

variable {below : Option Inner}

/-! ## Commands -/

/-- What is left over of a stage is noted. -/
theorem forms_finishStage : Forms (fun _ c => c = .none) .nothing finishStage :=
  .asking .atStageEnd fun _ => .ite (fun _ => .pure rfl) fun _ =>
    .asking .currentText fun _ => .recover _ _

/-- A command by its word. -/
theorem puts_command (hbelow : InnersForm below) (word : CommandWord) :
    PutsNode (shapeOf word) .nothing (command below word) := by
  have hwords (words : List Kind) : (shapeOf word).WordsFit words := by cases word <;> trivial
  refine .asking (.require _) fun _ => .asking (.require _) fun _ => .inCommand _ (.node
    (M := fun _ c => (shapeOf word).PartsFit c.parts) ?_ fun _ c hc => ⟨hwords c.words, hc⟩)
  have hbody := (forms_bodyOf hbelow word).bind (K := fun _ _ c => c = .none)
    (N := fun _ c => (shapeOf word).PartsFit c.parts) (fun _ => forms_finishStage)
    fun _ _ c d hc hd => by rwa [hd, Content.append_none]
  exact Forms.bump.bind (fun _ => hbody) fun _ _ c d hc hd => by
    rwa [Content.parts_append, hc, List.nil_append]

/-- A command that is not known. -/
theorem puts_genericCommand (hbelow : InnersForm below) :
    PutsNode .genericCommand .nothing (genericCommand below) := by
  refine .inCommand _ (.node (M := fun _ c => Only isArgument c.parts) ?_
    fun _ _ hc => ⟨trivial, hc⟩)
  exact Puts.bump.bind fun _ => (puts_argumentList hbelow).bind fun _ =>
    forms_finishStage.mono fun _ _ hc => hc ▸ only_nil

theorem isStage_shapeOf (word : CommandWord) : (shapeOf word).isStage = true := by
  cases word <;> rfl

/-! ## Stages -/

/-- The first stage is a search or a command. -/
theorem puts_firstStage (hbelow : InnersForm below) :
    PutsOne isStage .nothing (firstStage below) := by
  have hsearch : PutsOne isStage .nothing (searchExpr below nowhere) :=
    (puts_searchExpr hbelow).one rfl
  refine .asking .current fun k => ?_
  split
  · exact .asking .ahead fun _ => .ite (fun _ => hsearch) fun _ =>
      (puts_command hbelow _).one (isStage_shapeOf _)
  · exact hsearch

theorem puts_stage (hbelow : InnersForm below) : PutsOne isStage .nothing (stage below) := by
  refine .asking .current fun k => ?_
  split
  · exact (puts_command hbelow _).one (isStage_shapeOf _)
  · exact (puts_genericCommand hbelow).one rfl
  · exact (puts_genericCommand hbelow).one rfl
  iterate 3 exact .noisy (.report _)
  · exact .asking .currentText fun _ => .recover _ _

theorem puts_nextStage (hbelow : InnersForm below) (nested : Bool) :
    Puts isStage .nothing (nextStage below nested) := by
  refine .asking .current fun k => ?_
  unfold nextStageAt
  split
  · exact Puts.pure _
  · exact .ite (fun _ => Puts.pure _) fun _ => Puts.bind (.noisy (.refuse _)) fun _ => .pure _
  · exact Puts.bump.bind fun _ => (puts_stage hbelow).puts.bind fun _ => .pure _
  · exact .asking .currentText fun _ => Forms.bind (M := fun _ c => c = .none)
      (K := fun _ _ c => c = .none) (.recover _ _) (fun _ => .pure rfl) fun _ _ c d hc hd => by
        rw [hc, hd]
        exact only_nil

/-- A pipeline holds stages. -/
theorem puts_pipeline (hbelow : InnersForm below) (nested : Bool) :
    PutsNode .pipeline .nothing (pipeline below nested) := by
  have hstages : Puts isStage .nothing (stages below nested) :=
    .whileTrue (puts_nextStage hbelow nested)
  refine .node (M := fun _ c => Only isStage c.parts) ?_ fun _ _ hc => ⟨trivial, hc⟩
  exact .asking .atStageEnd fun _ => .ite (fun _ => hstages) fun _ =>
    (puts_firstStage hbelow).puts.bind fun _ => hstages

/-! ## Depth -/

theorem innersForm_belowAt (n : Nat) : InnersForm (belowAt n) := by
  induction n with
  | zero =>
    exact ⟨fun _ => .noisy (.descend_none _ _), fun _ => .noisy (.descend_none _ _),
      .noisy (.descend_none _ _), .noisy (.descend_none _ _)⟩
  | succ n ih =>
    refine ⟨fun least => .descend _ ?_, fun stop => .descend _ ?_, .descend _ ?_, .descend _ ?_⟩ <;>
      rintro _ ⟨⟩
    · exact puts_operators ih least
    · exact puts_searchNot ih
    · exact puts_searchTerms ih
    · exact (puts_pipeline ih true).one rfl

theorem puts_query (limit : Nat) : PutsNode .root .nothing (query limit) := by
  refine .node (M := fun _ c => One (· == .pipeline) c.parts) ?_ fun _ _ hc => ⟨trivial, hc⟩
  refine (puts_pipeline (innersForm_belowAt limit) false).bind (K := fun _ _ c => c = .none)
    (fun _ => .eatTrivia) fun _ _ c d hc hd => ?_
  rw [hc, hd]
  exact one_singleton rfl

end Grammar

/-! ## Whole trees -/

section Whole

open SplQuery.Tree State

/-- Where a parse notes nothing, every node of the tree holds what the grammar of trees says. -/
theorem parseTree_formed {text : String} {limit : Nat}
    (h : (parseTree text limit).diagnostics = []) : (parseTree text limit).tree.Formed := by
  have hparse : Forms (fun _ c => c = .part .root) .nothing (do
      Grammar.query limit
      Parser.eatTrivia) :=
    (Grammar.puts_query limit).bind (K := fun _ _ c => c = .none) (fun _ => .eatTrivia)
      fun _ _ c d hc hd => by rw [hc, hd]; rfl
  have hreports : (Parse.finalState (lex text) text.utf8ByteSize limit).reports = [] :=
    List.reverse_eq_nil_iff.mp h
  have hafter := (hparse 0).carries (start (lex text) text.utf8ByteSize) [] trivial
    (audible_start _ _) rfl ⟨nofun, [], rfl, nofun, rfl⟩ hreports
  obtain ⟨new, hnew, hformed, -⟩ := hafter.built
  have hbuilt : new = [(parseTree text limit).tree] := by
    rw [← Parse.built_finalState, ← List.append_nil new]
    exact hnew.symm
  exact hformed _ (by rw [hbuilt]; exact List.mem_singleton_self _)

end Whole

/-! ## Placed trees -/

namespace Placed

/-- Placed trees as what stands under a node. -/
def content (ps : List Placed) : Content :=
  ⟨(ps.filterMap lexeme?).map (·.kind), ps.filterMap shape?⟩

mutual

/-- Every node of the tree holds what its shape asks for, its core is made of theirs, and a lexeme
is as wide as its text. -/
def Formed : Placed → Prop
  | .leaf span _ text => span.stop = span.start + text.utf8ByteSize
  | .node _ core? shape children =>
    core? = coreOfAll children ∧ shape.Holds (content children) ∧ FormedAll children

/-- Every node of the trees holds what its shape asks for. -/
def FormedAll : List Placed → Prop
  | [] => True
  | p :: ps => p.Formed ∧ FormedAll ps

end

theorem formedAll_iff {ps : List Placed} : FormedAll ps ↔ ∀ p ∈ ps, p.Formed := by
  induction ps with
  | nil => exact ⟨fun _ => List.forall_mem_nil _, fun _ => trivial⟩
  | cons p ps ih => rw [FormedAll, ih, List.forall_mem_cons]

namespace Formed

section Node

variable {span : Span} {core? : Option Span} {shape : Shape} {ps : List Placed}

theorem core (h : (node span core? shape ps).Formed) : core? = coreOfAll ps := h.1

theorem words (h : (node span core? shape ps).Formed) : shape.WordsFit (content ps).words :=
  h.2.1.words

theorem parts (h : (node span core? shape ps).Formed) : shape.PartsFit (content ps).parts :=
  h.2.1.parts

theorem children (h : (node span core? shape ps).Formed) : ∀ p ∈ ps, p.Formed :=
  formedAll_iff.mp h.2.2

end Node

/-- What leaves have and nodes have from their children holds of all trees that are formed. -/
theorem rec_nodes {motive : Placed → Prop} (leaf : ∀ span kind text, motive (.leaf span kind text))
    (node : ∀ span core? shape children, (Placed.node span core? shape children).Formed →
      (∀ p ∈ children, motive p) → motive (.node span core? shape children))
    {p : Placed} (h : p.Formed) : motive p := by
  induction p using Placed.rec (motive_2 := fun ps => FormedAll ps → ∀ p ∈ ps, motive p) with
  | leaf span kind text => exact leaf span kind text
  | node span core? shape children ih => exact node span core? shape children h (ih h.2.2)
  | nil =>
    rename_i hp
    cases hp
  | cons p ps ihp ihps =>
    rename_i hps q hq
    exact List.forall_mem_cons.mpr ⟨ihp hps.1, ihps hps.2⟩ q hq

/-- All nodes of a tree that is formed are. -/
theorem of_mem_nodes {p : Placed} (h : p.Formed) : ∀ n ∈ p.nodes, n.Formed := by
  induction p using Placed.rec (motive_2 := fun ps =>
    FormedAll ps → ∀ n ∈ nodesOfAll ps, n.Formed) with
  | leaf => exact List.forall_mem_nil _
  | node span core? shape children ih => exact List.forall_mem_cons.mpr ⟨h, ih h.2.2⟩
  | nil =>
    rename_i hn
    cases hn
  | cons p ps ihp ihps =>
    rename_i hps n hn
    exact List.forall_mem_append.mpr ⟨ihp hps.1, ihps hps.2⟩ n hn

end Formed

/-! ## Nodes among children -/

section Children

variable {children : List Placed}

/-- A child that is a node is of a shape that the node may have under it. -/
theorem mem_parts {p : Placed} {s : Shape} (hp : p ∈ children) (hs : p.shape? = some s) :
    s ∈ (content children).parts :=
  List.mem_filterMap.mpr ⟨p, hp, hs⟩

/-- Shapes of a class are those of all children that are nodes. -/
theorem shape_of_only {member : Shape → Bool} (h : Shape.Only member (content children).parts)
    {p : Placed} (hp : p ∈ children) : p.shape?.all member = true := by
  cases hs : p.shape? with
  | none => rfl
  | some s => exact h s (mem_parts hp hs)

/-- As many nodes are of a class as there are among the shapes. -/
theorem countP_parts (member : Shape → Bool) :
    (content children).parts.countP member =
      (children.filter (·.shape?.any member)).length := by
  change (children.filterMap shape?).countP _ = _
  rw [← List.countP_eq_length_filter, List.countP_filterMap]
  exact List.countP_congr fun p _ => by cases p.shape? <;> rfl

theorem isNode_eq_any (shape : Shape) (p : Placed) :
    p.isNode shape = p.shape?.any (· == shape) := by
  rw [isNode]
  cases p.shape? <;> rfl

end Children

end Placed

/-! ## Trees that are placed -/

namespace Tree

open Placed

theorem content_placeAll (start : Nat) (ts : List Tree) :
    Placed.content (placeAll start ts) = content ts := by
  induction ts generalizing start with
  | nil => rfl
  | cons t ts ih =>
    obtain ⟨hwords, hparts⟩ := Content.mk.inj (ih (t.place start).span.stop)
    refine congrArg₂ Content.mk ?_ ?_
    · cases t with
      | node shape children => exact hwords
      | leaf kind text =>
        rw [placeAll, place, List.filterMap_cons, lexeme?, List.filterMap_cons, word?]
        cases kind.isTrivia with
        | true => exact hwords
        | false => exact congrArg (kind :: ·) hwords
    · cases t with
      | node shape children => exact congrArg (shape :: ·) hparts
      | leaf kind text => exact hparts

/-- A tree that is formed is so wherever it is placed. -/
theorem formed_place {t : Tree} {start : Nat} (h : t.Everywhere Fits start) :
    (t.place start).Formed := by
  induction t using Tree.rec (motive_2 := fun ts => ∀ start, EverywhereAll Fits start ts →
    FormedAll (placeAll start ts)) generalizing start with
  | leaf => rfl
  | node shape children ih =>
    refine ⟨rfl, ?_, ih start h.2⟩
    rw [content_placeAll]
    exact h.1
  | nil => trivial
  | cons t ts iht ihts =>
    rename_i start h
    rw [placeAll, span_place]
    exact ⟨iht h.1, ihts _ h.2⟩

end Tree

/-- Where a parse notes nothing, the tree of the text is formed. -/
theorem parseQuery_formed {text : String} {limit : Nat}
    (h : (parseQuery text limit).diagnostics = []) : (parseQuery text limit).tree.Formed :=
  Tree.formed_place (parseTree_formed h 0)

end SplQuery

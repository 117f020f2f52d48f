import SplQuery.Proofs.Arguments.Parts
import SplQuery.Proofs.Arguments.Words
import SplQuery.Proofs.Formed.Query
import SplQuery.Proofs.Nested.Stages

/-!
# What is kept of free arguments

Of a command that is not known the arguments are kept. All options are, each with the value that was
given for it last, and so are the queries between brackets and the names of fields to group by. So
are values, unless there is a loose `as` in the wrong place. A field after `over` is not kept.

* `Options.get?_ofList` — the value that is given last.
* `Arguments.options_ofParts`, `Arguments.byFields_ofParts` — what is kept beside values.
* `Placed.KeptAs` — what is kept of the arguments under a node.
* `parseQuery_keptArguments` — whole texts.
* `no_over_kept` — the field after `over`.
-/

namespace SplQuery

open Placed Shape

/-- The value of a name is the one that is given last. -/
theorem Options.get?_ofList (pairs : List (String × String)) (name : String) :
    (ofList pairs).get? name = (pairs.filter (·.1 = name)).getLast?.map (·.2) := by
  induction pairs using List.reverseRecOn with
  | nil => rfl
  | append_singleton pairs pair ih =>
    have hlast : ofList (pairs ++ [pair]) = (ofList pairs).insert pair.1 pair.2 :=
      List.foldl_append
    rw [hlast, get?_insert, ih, List.filter_append]
    split
    · next hname =>
      rw [List.filter_cons_of_pos (by simpa using hname), List.filter_nil, List.getLast?_concat]
      rfl
    · next hname => rw [List.filter_cons_of_neg (by simpa using hname), List.filter_nil,
        List.append_nil]

/-! ## Free arguments -/

namespace Arguments

/-- The options are given one after another. -/
theorem options_ofParts (parts : List Part) : (ofParts parts).options =
    .ofList ((Meaning.partsOf .optionArg parts).filterMap (·.tree.option?)) := by
  have hfold (p : Progress) : (parts.foldl Progress.add p).arguments.options =
      ((Meaning.partsOf .optionArg parts).filterMap (·.tree.option?)).foldl
        (fun o pair => o.insert pair.1 pair.2) p.arguments.options := by
    induction parts generalizing p with
    | nil => rfl
    | cons part parts ih =>
      have hadd := (p.grows part).options
      rw [List.foldl_cons, ih, hadd, Meaning.partsOf, Meaning.partsOf]
      split
      · next h =>
        rw [List.filter_cons, if_pos h, List.filterMap_cons]
        cases part.tree.option? <;> rfl
      · next h => rw [List.filter_cons, if_neg h]
  exact hfold _

/-- The names to group by are kept in order. -/
theorem byFields_ofParts (parts : List Part) : (ofParts parts).byFields =
    (Meaning.partsOf .byClause parts).flatMap (·.tree.clauseItems.map (·.fieldRef)) := by
  rw [list_ofParts rfl fun p part => (p.grows part).byFields]
  induction parts with
  | nil => rfl
  | cons part parts ih =>
    rw [List.flatMap_cons, ih, Meaning.partsOf, Meaning.partsOf, List.filter_cons]
    split
    · rw [List.flatMap_cons]
    · rfl

end Arguments

/-! ## Commands -/

namespace Meaning

variable {node : Placed} {parts : List Part} {shape : Shape} {name : String} {options : Options}
  {arguments : List String} {queries : List Pipeline}

/-- A command with free arguments is known or it is not. -/
theorem genericCommand_of_freeCommand
    (h : freeCommand node parts = .generic name options arguments queries) :
    genericCommand node (.ofParts parts) = .generic name options arguments queries := by
  rw [freeCommand] at h
  cases hword : node.commandWord? with
  | none =>
    rw [hword] at h
    exact h
  | some word =>
    rw [hword, Option.bind_some] at h
    cases hsimple : simple? word (.ofParts parts) with
    | some c =>
      rw [hsimple] at h
      cases h
    | none =>
      rw [hsimple] at h
      cases word <;> first | exact h | cases h

/-- What keeps its arguments as they are written has free arguments. -/
theorem generic_of_command?
    (h : command? node parts shape = some (.generic name options arguments queries)) :
    (shape = .genericCommand ∨ shape = .keywordCommand) ∧
      genericCommand node (.ofParts parts) = .generic name options arguments queries := by
  cases shape with
  | genericCommand => exact ⟨.inl rfl, Option.some.inj h⟩
  | keywordCommand => exact ⟨.inr rfl, genericCommand_of_freeCommand (Option.some.inj h)⟩
  | _ => cases h

end Meaning

/-! ## Nodes -/

namespace Placed

variable {n : Placed} {shape : Shape}

/-- The parts of a shape under a node. -/
theorem partsOf_children (shape : Shape) (n : Placed) :
    (Meaning.partsOf shape (partsOfAll n.children)).map (·.tree) = n.nodesOf shape := by
  rw [Meaning.partsOf, partsOfAll_eq_map, List.filter_map, List.map_map, nodesOf]
  exact List.map_id _

/-- What is kept of the arguments under a node of a command: -/
structure KeptAs (n : Placed) (name : String) (options : Options) (arguments : List String)
    (queries : List Pipeline) : Prop where
  /-- the word that the command begins with, in lower case -/
  name : name = n.firstLexeme?.elim "" (·.text.toLower)
  /-- there are no other nodes than arguments -/
  children : ∀ p ∈ n.children, p.shape?.all Shape.isArgument = true
  /-- an option has a name and a value -/
  option : ∀ o ∈ n.nodesOf .optionArg, ∃ (word : Lexeme) (value : Placed),
    o.firstLexeme? = some word ∧ o.node? .optionValue = some value ∧
      o.option? = some (word.text.toLower, value.value)
  /-- a name has the value that it is given last -/
  options : ∀ key, options.get? key =
    (((n.nodesOf .optionArg).filterMap (·.option?)).filter (·.1 = key)).getLast?.map (·.2)
  /-- where there is another name there are two nodes -/
  renamed : ∀ p ∈ n.nodesOf .aliasedField, ∃ value other, p.childNodes = [value, other]
  /-- the values, some of which may be lost, and all names after `by` -/
  arguments : ∃ told kept : List String,
    arguments = told ++ ((n.nodesOf .byClause).flatMap fun c =>
      c.nodes.filter (·.isNode .fieldItem)).map (·.value) ∧
    kept.Sublist (n.words.flatMap (·.texts)) ∧ List.Forall₂ Word.Spells told kept ∧
    (kept = n.words.flatMap (·.texts) ↔ Word.allKept .nothing n.words = true)
  /-- the queries between brackets -/
  queries : queries = (n.nodesOf .subsearch).map (·.pipeline)

/-- Where there is another name there are two nodes. -/
theorem Formed.childNodes_of_aliasedField {p : Placed} (h : p.Formed)
    (hp : p.isNode .aliasedField = true) : ∃ value other, p.childNodes = [value, other] := by
  obtain ⟨span, core?, children, rfl⟩ := eq_node_of_isNode hp
  obtain ⟨s, -, hparts⟩ := h.parts
  refine List.length_eq_two.mp ?_
  have hall : (content children).parts.countP (fun _ => true) = 2 := by
    rw [hparts]
    rfl
  rw [countP_parts] at hall
  refine (congrArg List.length (List.filter_congr fun p _ => ?_)).trans hall
  cases p.shape? <;> rfl

/-- Only arguments are under a node of a command with free arguments. -/
theorem Formed.isArgument_of_child (h : n.Formed) (hshape : n.shape? = some shape)
    (hfree : shape = .genericCommand ∨ shape = .keywordCommand) :
    ∀ p ∈ n.children, p.shape?.all Shape.isArgument = true := by
  cases n with
  | leaf => cases hshape
  | node span core? shape' children =>
    obtain rfl := Option.some.inj hshape
    intro p hp
    obtain rfl | rfl := hfree
    · exact shape_of_only h.parts hp
    · exact shape_of_only h.parts hp

/-- The words among the parts of a node. -/
theorem words_partsOfAll (n : Placed) :
    (partsOfAll n.children).filterMap (·.tree.word?) = n.words := by
  rw [partsOfAll_eq_map, List.filterMap_map]
  rfl

end Placed

/-! ## Whole texts -/

/-- What is under a node of a text for which nothing is noted is kept by the arguments that are
found there. -/
theorem keptAs_ofParts {text : String} {limit : Nat} {n : Placed} {shape : Shape}
    (h : (parseQuery text limit).diagnostics = []) (hn : n ∈ (parseQuery text limit).tree.nodes)
    (hshape : n.shape? = some shape)
    (hfree : shape = .genericCommand ∨ shape = .keywordCommand) :
    n.KeptAs (n.firstLexeme?.elim "" (·.text.toLower))
      (Arguments.ofParts (partsOfAll n.children)).options
      (Arguments.ofParts (partsOfAll n.children)).flat
      (Arguments.ofParts (partsOfAll n.children)).queries := by
  have hformed := (parseQuery_formed h).of_mem_nodes
  have hchild {c : Placed} {s : Shape} (hc : c ∈ n.nodesOf s) :
      c ∈ (parseQuery text limit).tree.nodes ∧ c.isNode s = true := by
    obtain ⟨hmem, hs⟩ := List.mem_filter.mp hc
    exact ⟨mem_nodes_of_child hn hmem (by rw [eq_of_beq hs]; rfl), hs⟩
  have hrenamed : ∀ p ∈ n.nodesOf .aliasedField, ∃ value other, p.childNodes = [value, other] :=
    fun p hp => (hformed p (hchild hp).1).childNodes_of_aliasedField (hchild hp).2
  constructor
  case name => rfl
  case children => exact (hformed n hn).isArgument_of_child hshape hfree
  case option =>
    intro o ho
    obtain ⟨word, value, hword, hvalue⟩ := exists_name_value (hchild ho).1 (hchild ho).2
    refine ⟨word, value, hword, hvalue, ?_⟩
    rw [option?, hword, hvalue]
    rfl
  case options =>
    intro key
    rw [Arguments.options_ofParts, Options.get?_ofList, ← partsOf_children, List.filterMap_map]
    rfl
  case renamed => exact hrenamed
  case arguments =>
    obtain ⟨kept, hkept⟩ := Heard.exists_kept n.words
    refine ⟨_, kept, ?_, hkept⟩
    have hparts : ∀ part ∈ partsOfAll n.children, part.tree.isNode .aliasedField = true →
        ∃ value other, part.tree.childNodes = [value, other] := by
      intro part hpart haliased
      obtain ⟨p, hp, rfl⟩ := mem_partsOfAll hpart
      exact hrenamed p (List.mem_filter.mpr ⟨hp, haliased⟩)
    have hby : (Arguments.ofParts (partsOfAll n.children)).byFields =
        (n.nodesOf .byClause).flatMap (·.clauseItems.map (·.fieldRef)) := by
      rw [Arguments.byFields_ofParts, ← partsOf_children, List.flatMap_map]
    rw [Arguments.flat_ofParts hparts, words_partsOfAll, hby, List.map_flatMap, List.map_flatMap]
    refine congrArg _ (List.flatMap_congr fun c hc => ?_)
    rw [clauseItems_eq (hchild hc).1 (hchild hc).2, List.map_map]
    rfl
  case queries => rw [Arguments.queries_ofParts, queries_partsOfAll, nodesOf]

/-- **Arguments are kept**, in every text for which nothing is noted and at any depth: a command
that is not known stands for a node, and keeps what is under the node. -/
theorem parseQuery_keptArguments {text : String} {limit : Nat} {name : String} {options : Options}
    {arguments : List String} {queries : List Pipeline} {span : Span}
    (h : (parseQuery text limit).diagnostics = [])
    (hc : .command (.generic name options arguments queries) span ∈
      (parseQuery text limit).query.everyStage) :
    ∃ n ∈ (parseQuery text limit).tree.nodes,
      n.meaning = .command (.generic name options arguments queries) ∧ n.core = span ∧
        n.KeptAs name options arguments queries := by
  obtain ⟨n, hn, hmeaning, hcore⟩ := exists_node_of_command hc
  obtain ⟨shape, hshape, hcommand⟩ := command?_of_meaning hmeaning
  obtain ⟨hfree, hgeneric⟩ := Meaning.generic_of_command? hcommand
  obtain ⟨rfl, rfl, rfl, rfl⟩ := Command.generic.inj hgeneric
  exact ⟨n, hn, hmeaning, hcore, keptAs_ofParts h hn hshape hfree⟩

/-- The arguments of a command that is not known. -/
def Command.arguments? : Command → Option (List String)
  | .generic _ _ arguments _ => some arguments
  | _ => none

theorem Command.exists_generic {p : Pipeline} {arguments : List String}
    (h : arguments ∈ p.commands.filterMap (·.arguments?)) : ∃ name options queries span,
      .command (.generic name options arguments queries) span ∈ p.everyStage := by
  obtain ⟨c, hc, harguments⟩ := List.mem_filterMap.mp h
  obtain ⟨span, hstage⟩ := Pipeline.mem_everyStage_of_mem_commands hc
  cases c with
  | generic name options arguments' queries =>
    obtain rfl := Option.some.inj harguments
    exact ⟨name, options, queries, span, hstage⟩
  | _ => cases harguments

/-- An option, a value with another name, a name after `by` and a query. -/
theorem parseQuery_keptArguments_sample : ∃ name options queries span,
    (parseQuery "| mycmd a=1 b AS c by d [search x]" 128).diagnostics = [] ∧
      .command (.generic name options ["b", "as", "c", "d"] queries) span ∈
        (parseQuery "| mycmd a=1 b AS c by d [search x]" 128).query.everyStage ∧
      ∃ n : Placed, n.KeptAs name options ["b", "as", "c", "d"] queries := by
  have hnone : (parseQuery "| mycmd a=1 b AS c by d [search x]" 128).diagnostics = [] := by
    decide +kernel
  have hcommands : (parseQuery "| mycmd a=1 b AS c by d [search x]" 128).query.commands.filterMap
      (·.arguments?) = [["b", "as", "c", "d"]] := by
    decide +kernel
  obtain ⟨name, options, queries, span, hc⟩ :=
    Command.exists_generic (hcommands ▸ List.mem_singleton_self _)
  obtain ⟨n, -, -, -, hkept⟩ := parseQuery_keptArguments hnone hc
  exact ⟨name, options, queries, span, hnone, hc, n, hkept⟩

/-- The field after `over` is not among the arguments. -/
theorem no_over_kept : ¬∀ (text : String) (limit : Nat) (name : String) (options : Options)
    (arguments : List String) (queries : List Pipeline) (span : Span),
    (parseQuery text limit).diagnostics = [] →
    .command (.generic name options arguments queries) span ∈
      (parseQuery text limit).query.everyStage →
    ∃ n ∈ (parseQuery text limit).tree.nodes,
      n.core = span ∧ n.isNode .genericCommand = true ∧
        ∀ c ∈ n.nodesOf .overClause, ∀ f ∈ c.nodesOf .fieldItem, f.value ∈ arguments := by
  intro h
  have hnone : (parseQuery "| mycmd a over b" 128).diagnostics = [] := by decide +kernel
  have hcommands : (parseQuery "| mycmd a over b" 128).query.commands.filterMap
      (·.arguments?) = [["a"]] := by
    decide +kernel
  have hover : ((parseQuery "| mycmd a over b" 128).tree.nodes.all fun n =>
      !n.isNode .genericCommand || (n.nodesOf .overClause).any fun c =>
        (c.nodesOf .fieldItem).any (·.value == "b")) = true := by
    decide +kernel
  obtain ⟨name, options, queries, span, hc⟩ :=
    Command.exists_generic (hcommands ▸ List.mem_singleton_self _)
  obtain ⟨n, hn, -, hshape, hkept⟩ := h _ _ _ _ _ _ span hnone hc
  have hboth := List.all_eq_true.mp hover n hn
  rw [hshape, Bool.not_true, Bool.false_or] at hboth
  obtain ⟨c, hc, hany⟩ := List.any_eq_true.mp hboth
  obtain ⟨f, hf, hvalue⟩ := List.any_eq_true.mp hany
  have hmem := hkept c hc f hf
  rw [eq_of_beq hvalue] at hmem
  exact absurd hmem (by decide)

end SplQuery

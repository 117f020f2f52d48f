import Mathlib.Algebra.Group.Nat.Defs
import SplQuery.Proofs.Nested.Stages
import SplQuery.Query.Parse

/-!
# How many fields a command creates

The names of the fields that a command adds to every event are as many as a number in the query
says, or they stand beside one another in the query: then there are few of them, given its length.
The names that a number asks for may be more than a list can hold. The program ends when it comes to
list them, also where the command is one that the query leaves out in the end.

* `Command.numbered?` — a number in the query that says how many fields there are.
* `SimpleCommand.listed` — what the created fields are found from, by how much it adds.
* `Placed.countP_names_le` — how many names there are directly under a node.
* `parseQuery?_eq_none` — where the program ends.
* `parseQuery_created` — whole texts.
-/

namespace SplQuery

open Placed

/-! ## Commands -/

namespace SimpleCommand

/-- How many fields a number in the query says that the command creates. -/
def numbered? : SimpleCommand → Option Nat
  | .transpose rowCount _ => rowCount.map (· + 1)
  | .autoregress _ _ lags => some lags.length
  | _ => none

/-- How many fields a number in the query may ask for. -/
def numberBound : SimpleCommand → Nat
  | .transpose .. => 2 ^ 64
  | _ => 2 ^ 32

theorem numberBound_le (c : SimpleCommand) : c.numberBound ≤ 2 ^ 64 := by
  cases c <;> simp [numberBound]

/-- Only a number of rows asks for more fields than there are numbers of 32 bits. -/
theorem eq_transpose_of_lt {c : SimpleCommand} (h : 2 ^ 32 < c.numberBound) :
    ∃ rowCount options, c = .transpose rowCount options := by
  cases c with
  | transpose rowCount options => exact ⟨rowCount, options, rfl⟩
  | _ => simp [numberBound] at h

/-- How many fields a command creates for the names that it lists. -/
def listed : SimpleCommand → Nat
  | .trendline trends => trends.length
  | .predict predicted _ => 3 * predicted.length
  | _ => 0

theorem length_lagFields (field : String) (newName : Option String) (lags : List Nat) :
    (lagFields field newName lags).length = lags.length := by
  unfold lagFields
  split
  · rfl
  · exact List.length_map _

theorem length_predictedFields (fs : List RenamedField) :
    (fs.flatMap predictedFields).length = 3 * fs.length := by
  induction fs with
  | nil => rfl
  | cons f fs ih =>
    rw [List.flatMap_cons, List.length_append, ih, List.length_cons, Nat.mul_succ, Nat.add_comm]
    rfl

theorem length_transposedFields (rowCount : Option Nat) (options : Options) :
    (transposedFields rowCount options).length = rowCount.getD defaultTransposeRows + 1 := by
  rw [transposedFields, List.length_cons, List.length_map, List.length_range]

theorem length_createdFields (c : SimpleCommand) : c.createdFields.length = c.createdCount := by
  cases c with
  | transpose rowCount options => exact length_transposedFields rowCount options
  | _ => rfl

/-- A number in the query says how many fields there are. -/
theorem length_createdFields_of_numbered {c : SimpleCommand} {n : Nat}
    (h : c.numbered? = some n) : c.createdFields.length = n := by
  cases c with
  | transpose rowCount options =>
    obtain ⟨rows, rfl, rfl⟩ := Option.map_eq_some_iff.mp h
    exact length_transposedFields _ options
  | autoregress field newName lags =>
    obtain rfl := Option.some.inj h
    exact length_lagFields field newName lags
  | _ => cases h

/-- Without such a number there are ten fields at the most, or those of a list. -/
theorem length_createdFields_le {c : SimpleCommand} (h : c.numbered? = none) :
    c.createdFields.length ≤ c.listed + 10 := by
  have hfew {m n : Nat} (h : m.ble n = true) : m ≤ n := Nat.le_of_ble_eq_true h
  cases c with
  | trendline trends =>
    rw [createdFields, List.length_map]
    exact Nat.le_add_right _ _
  | predict predicted options =>
    rw [createdFields, length_predictedFields]
    exact Nat.le_add_right _ _
  | transpose rowCount options =>
    obtain rfl := Option.map_eq_none_iff.mp h
    rw [createdFields, length_transposedFields]
    exact hfew rfl
  | autoregress => cases h
  | strcat sources target allRequired => cases target <;> exact hfew rfl
  | addtotals fields row column fieldname options => cases row <;> exact hfew rfl
  | iplocation field leading allFields => cases leading <;> cases allFields <;> exact hfew rfl
  | makeresults count annotate options => cases annotate <;> exact hfew rfl
  | top variant count fields byFields options =>
    rw [createdFields, topFields]
    split <;> split <;> exact hfew rfl
  | untable xField yField dataField => cases yField <;> cases dataField <;> exact hfew rfl
  | fit algorithm target features model newName options =>
    cases newName <;> cases target <;> exact hfew rfl
  | _ => exact hfew rfl

end SimpleCommand

/-! ## Names under a node -/

/-- A node of this shape is a name, or has one, that a command lists. -/
def Shape.isName : Shape → Bool
  | .argument | .aliasedField | .fieldCall => true
  | _ => false

theorem Shape.isSolid_of_isName {s : Shape} (h : s.isName = true) : s.isSolid = true := by
  cases s <;> first | rfl | cases h

namespace Arguments

theorem length_nameLast (a : Arguments) (name : String) :
    (a.nameLast name).positionals.length = a.positionals.length := by
  unfold nameLast
  split
  · rfl
  · next last hlast =>
    have hne : a.positionals ≠ [] := fun hnil => by
      rw [hnil] at hlast
      cases hlast
    rw [List.length_append, List.length_dropLast]
    exact Nat.sub_add_cancel (List.length_pos_iff.mpr hne)

/-- Every value is a name, and some are other names of the value before them. -/
theorem length_positionals_add (p : Progress) (part : Part) :
    (p.add part).arguments.positionals.length ≤
      p.arguments.positionals.length + if part.tree.shape?.any Shape.isName then 1 else 0 := by
  have hname (h : part.tree.shape?.any Shape.isName = true) {n : Nat}
      (hn : n ≤ p.arguments.positionals.length + 1) :
      n ≤ p.arguments.positionals.length + if part.tree.shape?.any Shape.isName then 1 else 0 := by
    rwa [if_pos h]
  simp only [Progress.add]
  split
  · cases part.tree.option? <;> exact Nat.le_add_right _ _
  · next h =>
    refine hname (by rw [h]; rfl) ?_
    simp only [Progress.addValue]
    split
    · rw [length_nameLast]
      exact Nat.le_succ _
    · split
      · exact Nat.le_succ _
      · exact Nat.le_of_eq List.length_append
  · next h =>
    refine hname (by rw [h]; rfl) ?_
    unfold addAliased
    split
    · exact Nat.le_succ _
    · exact Nat.le_of_eq List.length_append
  all_goals exact Nat.le_add_right _ _

/-- There are no more values than there are names among the parts. -/
theorem length_positionals_ofParts (parts : List Part) : (ofParts parts).positionals.length ≤
    parts.countP (·.tree.shape?.any Shape.isName) := by
  have hfold (parts : List Part) (p : Progress) :
      (parts.foldl Progress.add p).arguments.positionals.length ≤
        p.arguments.positionals.length + parts.countP (·.tree.shape?.any Shape.isName) := by
    induction parts generalizing p with
    | nil => exact Nat.le_refl _
    | cons part parts ih =>
      have hadd := length_positionals_add p part
      rw [List.foldl_cons, List.countP_cons]
      exact (ih _).trans (by omega)
  exact (hfold parts _).trans (Nat.le_of_eq (Nat.zero_add _))

end Arguments

namespace Text

theorem readBelow?_lt {bound n : Nat} {text : String} (h : readBelow? bound text = some n) :
    n < bound := by
  simp only [readBelow?, Option.ite_none_left_eq_some, Option.ite_none_right_eq_some] at h
  obtain ⟨-, hlt, hn⟩ := h
  exact Option.some.inj hn ▸ hlt

end Text

namespace Meaning

/-- There are no more lags than there are numbers of 32 bits. -/
theorem length_lags_le (text : String) : (lags text).length ≤ 2 ^ 32 := by
  simp only [lags]
  split
  · cases Text.readSmall? _ <;> exact Nat.le_of_ble_eq_true rfl
  · split
    · next low high hlow hhigh =>
      have hlt := Text.readBelow?_lt hhigh
      split
      · rw [List.length_map, List.length_range]
        omega
      · exact Nat.le_of_ble_eq_true rfl
    · exact Nat.le_of_ble_eq_true rfl

variable {word : CommandWord} {a : Arguments} {c : SimpleCommand}

/-- A command with free arguments lists no more than its values, each thrice at the most. -/
theorem listed_simple? (h : simple? word a = some c) : c.listed ≤ 3 * a.positionals.length := by
  cases word with
  | predict =>
    obtain rfl := Option.some.inj h
    exact Nat.le_of_eq (congrArg (3 * ·) (List.length_map _))
  | _ => first
    | (cases h; done)
    | obtain rfl := Option.some.inj h
      exact Nat.zero_le _

/-- A number of rows is one of 64 bits, a number of lags one of 32. -/
theorem numbered_simple? (h : simple? word a = some c) : ∀ n ∈ c.numbered?, n ≤ c.numberBound := by
  intro n hn
  cases word with
  | transpose =>
    obtain rfl := Option.some.inj h
    obtain ⟨rows, hrows, rfl⟩ := Option.map_eq_some_iff.mp hn
    obtain ⟨text, -, htext⟩ := Option.bind_eq_some_iff.mp hrows
    change rows + 1 ≤ 2 ^ 64
    exact Text.readBelow?_lt htext
  | autoregress =>
    obtain rfl := Option.some.inj h
    obtain rfl := Option.some.inj hn
    cases a.options.get? "p" with
    | none => exact Nat.le_of_ble_eq_true rfl
    | some text => exact length_lags_le text
  | _ => first
    | (cases h; done)
    | obtain rfl := Option.some.inj h
      cases hn

variable {n : Placed} {shape : Shape}

theorem countP_partsOfAll (ps : List Placed) :
    (partsOfAll ps).countP (·.tree.shape?.any Shape.isName) =
      ps.countP (·.shape?.any Shape.isName) := by
  rw [partsOfAll_eq_map, List.countP_map]
  rfl

theorem listed_freeCommand (h : freeCommand n (partsOfAll n.children) = .simple c) :
    c.listed ≤ 3 * n.children.countP (·.shape?.any Shape.isName) ∧
      ∀ m ∈ c.numbered?, m ≤ c.numberBound := by
  have hvalues := Arguments.length_positionals_ofParts (partsOfAll n.children)
  rw [countP_partsOfAll] at hvalues
  simp only [freeCommand] at h
  cases hword : n.commandWord? with
  | none =>
    rw [hword] at h
    cases h
  | some word =>
    rw [hword, Option.bind_some] at h
    cases hsimple : simple? word (.ofParts (partsOfAll n.children)) with
    | some d =>
      rw [hsimple] at h
      obtain rfl := Command.simple.inj h
      exact ⟨(listed_simple? hsimple).trans (Nat.mul_le_mul_left 3 hvalues),
        numbered_simple? hsimple⟩
    | none =>
      rw [hsimple] at h
      cases word <;> cases h

/-- What a command lists stands directly under its node. -/
theorem listed_command? (h : command? n (partsOfAll n.children) shape = some (.simple c)) :
    c.listed ≤ 3 * n.children.countP (·.shape?.any Shape.isName) ∧
      ∀ m ∈ c.numbered?, m ≤ c.numberBound := by
  have hfree {d : SimpleCommand} (hn : d.numbered? = none) :
      ∀ m ∈ d.numbered?, m ≤ d.numberBound := by
    intro m hm
    rw [hn] at hm
    cases hm
  cases shape with
  | trendlineCommand =>
    obtain rfl := Command.simple.inj (Option.some.inj h)
    refine ⟨?_, hfree rfl⟩
    have hcalls : (n.nodesOf .fieldCall).length ≤
        n.children.countP (·.shape?.any Shape.isName) := by
      rw [nodesOf, ← List.countP_eq_length_filter]
      refine List.countP_mono_left fun p _ hp => ?_
      rw [shape_of_isNode hp]
      rfl
    exact ((List.length_filterMap_le _ _).trans hcalls).trans (Nat.le_mul_of_pos_left _ (by decide))
  | keywordCommand => exact listed_freeCommand (Option.some.inj h)
  | strcatCommand =>
    obtain rfl := Command.simple.inj (Option.some.inj h)
    simp only [strcatCommand]
    split <;> exact ⟨Nat.zero_le _, hfree rfl⟩
  | fitCommand =>
    obtain rfl := Command.simple.inj (Option.some.inj h)
    simp only [fitCommand]
    split <;> exact ⟨Nat.zero_le _, hfree rfl⟩
  | _ => first
    | (cases h; done)
    | obtain rfl := Command.simple.inj (Option.some.inj h)
      exact ⟨Nat.zero_le _, hfree rfl⟩

end Meaning

/-! ## Names in a text -/

namespace Placed

variable {n p : Placed}

/-- Trees of which each has a lexeme are no more than the lexemes under them. -/
theorem countP_le_length_leaves {ps : List Placed} {test : Placed → Bool}
    (h : ∀ p ∈ ps, test p = true → p.leaves ≠ []) :
    ps.countP test ≤ (leavesOfAll ps).length := by
  induction ps with
  | nil => exact Nat.le_refl _
  | cons p ps ih =>
    obtain ⟨hp, hps⟩ := List.forall_mem_cons.mp h
    rw [List.countP_cons, leavesOfAll, List.length_append, Nat.add_comm]
    refine Nat.add_le_add ?_ (ih hps)
    split
    · next htest => exact List.length_pos_iff.mpr (hp htest)
    · exact Nat.zero_le _

end Placed

/-- A text has no more lexemes than bytes. -/
theorem length_lex_le (text : String) : (lex text).length ≤ text.utf8ByteSize := by
  have hlength (ls : List Lexeme) (h : ∀ l ∈ ls, l.text.toList ≠ []) :
      ls.length ≤ (Lexeme.texts ls).length := by
    induction ls with
    | nil => exact Nat.le_refl _
    | cons l ls ih =>
      obtain ⟨hl, hls⟩ := List.forall_mem_cons.mp h
      have hpos := List.length_pos_iff.mpr hl
      have hrest := ih hls
      rw [Lexeme.texts, List.flatMap_cons, List.length_append, List.length_cons]
      change _ ≤ _ + (Lexeme.texts ls).length
      omega
  have hle := hlength (lex text) (lex_ne_nil text)
  rw [lex_texts] at hle
  rw [Text.utf8ByteSize_eq_width]
  exact hle.trans (Text.length_le_width _)

/-- There are no more names directly under a node than bytes in the text. -/
theorem countP_names_le {text : String} {limit : Nat} {n : Placed}
    (hn : n ∈ (parseQuery text limit).tree.nodes) :
    n.children.countP (·.shape?.any Shape.isName) ≤ text.utf8ByteSize := by
  have hleaves : ∀ c ∈ n.children, c.shape?.any Shape.isName = true → c.leaves ≠ [] := by
    intro c hc hname
    obtain ⟨shape, hshape, hname⟩ := (Option.any_eq_true _ _).mp hname
    have hmem := mem_nodes_of_child hn hc (by rw [hshape]; rfl)
    rcases mem_nodes_parseTree hmem with hroot | ⟨start, shape', children, rfl, hfair⟩
    · rw [shape_of_isNode hroot] at hshape
      obtain rfl := Option.some.inj hshape
      cases hname
    · obtain rfl : shape' = shape := Option.some.inj hshape
      rw [Tree.leaves_place]
      intro hnil
      have htoken := hfair.solid (Shape.isSolid_of_isName hname)
      rw [Tree.hasToken, show Tree.leavesOfAll children = [] from hnil] at htoken
      cases htoken
  have htree : (parseQuery text limit).tree.leaves = (lex text).map Lexeme.entry := by
    rw [parseQuery, Tree.leaves_place]
    exact Parse.leaves_ofLexemes _ _ _
  have hsublist := (leaves_sublist_of_mem_nodes hn).length_le
  rw [htree, List.length_map] at hsublist
  have hcount := countP_le_length_leaves hleaves
  have hself : (leavesOfAll n.children).length ≤ n.leaves.length := by
    cases n with
    | leaf => exact Nat.zero_le _
    | node => exact Nat.le_refl _
  exact hcount.trans (hself.trans (hsublist.trans (length_lex_le text)))

/-! ## Whole texts -/

namespace Command

/-- How many fields a number in the query says that the command creates. -/
def numbered? : Command → Option Nat
  | .simple c => c.numbered?
  | _ => none

theorem isListable_iff {c : Command} :
    c.isListable = true ↔ c.createdFields.length ≤ SimpleCommand.maxListed := by
  cases c with
  | simple c =>
    rw [createdFields, SimpleCommand.length_createdFields]
    exact decide_eq_true_iff
  | _ => exact iff_of_true rfl (Nat.zero_le _)

end Command

/-- The program ends where one of the commands that are made has more fields than can be listed. -/
theorem parseQuery?_eq_none {text : String} {limit : Nat} : parseQuery? text limit = none ↔
    ∃ c ∈ (parseQuery text limit).tree.lowered,
      SimpleCommand.maxListed < c.createdFields.length := by
  simp [parseQuery?, Command.isListable_iff]

theorem eq_of_parseQuery? {text : String} {limit : Nat} {q : ParsedQuery}
    (h : parseQuery? text limit = some q) : parseQuery text limit = q :=
  Option.some.inj (Option.ite_none_right_eq_some.mp h).2

variable {text : String} {limit : Nat}

/-- A command that is made comes from a node of the tree. -/
theorem created_of_lowered {c : Command} (h : c ∈ (parseQuery text limit).tree.lowered) :
    (∀ n ∈ c.numbered?, c.createdFields.length = n ∧ n ≤ 2 ^ 64 ∧
      (2 ^ 32 < n → ∃ rowCount options, c = .simple (.transpose rowCount options))) ∧
    (c.numbered? = none → c.createdFields.length ≤ 3 * text.utf8ByteSize + 16) := by
  obtain ⟨n, hvisited, hmeaning⟩ := mem_lowered.mp h
  obtain ⟨shape, -, hcommand⟩ := command?_of_meaning hmeaning
  cases c with
  | simple c =>
    obtain ⟨hlisted, hnumbered⟩ := Meaning.listed_command? hcommand
    have hcount := countP_names_le (mem_nodes_of_mem_visited hvisited)
    refine ⟨fun m hm => ⟨SimpleCommand.length_createdFields_of_numbered hm, ?_, fun hlt => ?_⟩,
      fun hnone => ?_⟩
    · exact (hnumbered m hm).trans c.numberBound_le
    · obtain ⟨rowCount, options, rfl⟩ :=
        SimpleCommand.eq_transpose_of_lt (hlt.trans_le (hnumbered m hm))
      exact ⟨rowCount, options, rfl⟩
    · have hcreated := SimpleCommand.length_createdFields_le hnone
      change c.createdFields.length ≤ _
      omega
  | _ => exact ⟨nofun, fun _ => Nat.zero_le _⟩

/-- Only a number of rows asks for more fields than can be listed. -/
theorem eq_transpose_of_lowered {c : Command} (h : c ∈ (parseQuery text limit).tree.lowered)
    (hsize : text.utf8ByteSize < 2 ^ 32)
    (hlt : SimpleCommand.maxListed < c.createdFields.length) : ∃ rows options,
      c = .simple (.transpose (some rows) options) ∧ SimpleCommand.maxListed ≤ rows := by
  have hmax : 3 * 2 ^ 32 + 16 ≤ SimpleCommand.maxListed := by decide
  obtain ⟨hnumbered, hlisted⟩ := created_of_lowered h
  cases hn : c.numbered? with
  | none =>
    have := hlisted hn
    omega
  | some n =>
    obtain ⟨hlength, -, htranspose⟩ := hnumbered n hn
    obtain ⟨rowCount, options, rfl⟩ := htranspose (by omega)
    obtain ⟨rows, rfl, rfl⟩ := Option.map_eq_some_iff.mp hn
    exact ⟨rows, options, rfl, by omega⟩

/-- **What a command creates stands in the query**, whatever the text and however few levels there
may be, at any depth. Of the commands that are made to find the query each creates no more than
three fields for each byte of the text and sixteen, or as many as a number of the query says, which
may be up to 64 bits long. The commands of the query are among them. There is an answer only if the
fields of them all can be listed, and in a text whose places are numbers of 32 bits it is a number
of rows to be transposed if they cannot. -/
theorem parseQuery_created (text : String) (limit : Nat) :
    (∀ c ∈ (parseQuery text limit).tree.lowered,
      (∀ n ∈ c.numbered?, c.createdFields.length = n ∧ n ≤ 2 ^ 64) ∧
      (c.numbered? = none → c.createdFields.length ≤ 3 * text.utf8ByteSize + 16)) ∧
    (∀ q, parseQuery? text limit = some q → ∀ c span, .command c span ∈ q.query.everyStage →
      c ∈ (parseQuery text limit).tree.lowered ∧
        c.createdFields.length ≤ SimpleCommand.maxListed) ∧
    (parseQuery? text limit = none ↔ ∃ c ∈ (parseQuery text limit).tree.lowered,
      SimpleCommand.maxListed < c.createdFields.length) ∧
    (parseQuery? text limit = none → text.utf8ByteSize < 2 ^ 32 → ∃ rows options,
      .simple (.transpose (some rows) options) ∈ (parseQuery text limit).tree.lowered ∧
        SimpleCommand.maxListed ≤ rows) := by
  refine ⟨fun c hc => ?_, fun q hq c span hspan => ?_, parseQuery?_eq_none, fun hnone hsize => ?_⟩
  · obtain ⟨hnumbered, hlisted⟩ := created_of_lowered hc
    exact ⟨fun n hn => ⟨(hnumbered n hn).1, (hnumbered n hn).2.1⟩, hlisted⟩
  · obtain rfl := eq_of_parseQuery? hq
    have hlowered := mem_lowered_of_mem_everyStage hspan
    refine ⟨hlowered, Nat.le_of_not_lt fun hlt => ?_⟩
    rw [parseQuery?_eq_none.mpr ⟨c, hlowered, hlt⟩] at hq
    cases hq
  · obtain ⟨c, hc, hlt⟩ := parseQuery?_eq_none.mp hnone
    obtain ⟨rows, options, rfl, hrows⟩ := eq_transpose_of_lowered hc hsize hlt
    exact ⟨rows, options, hc, hrows⟩

/-- A short query that makes a command with 2 ^ 64 fields. -/
theorem exists_lowered_transpose :
    ∃ c ∈ (parseQuery "| transpose 18446744073709551615" 128).tree.lowered,
      c.createdFields.length = 2 ^ 64 := by
  have hlowered : (parseQuery "| transpose 18446744073709551615" 128).tree.lowered.map
      (·.numbered?) = [some (2 ^ 64)] := by
    decide +kernel
  obtain ⟨c, hc, hnumbered⟩ := List.mem_map.mp (hlowered ▸ List.mem_singleton_self (some (2 ^ 64)))
  exact ⟨c, hc, ((created_of_lowered hc).1 _ hnumbered).1⟩

theorem parseQuery?_transpose : parseQuery? "| transpose 18446744073709551615" 128 = none := by
  obtain ⟨c, hc, hlength⟩ := exists_lowered_transpose
  refine parseQuery?_eq_none.mpr ⟨c, hc, ?_⟩
  rw [hlength]
  decide

/-- Two names, one with another name: of these there are few, given the length of the text. And a
number of rows at which the program ends. -/
theorem parseQuery_created_sample :
    (∃ c ∈ (parseQuery "| predict x y as z" 128).tree.lowered,
      c.numbered? = none ∧ c.createdFields.length = 6 ∧
        c.createdFields.length ≤ 3 * "| predict x y as z".utf8ByteSize + 16) ∧
    parseQuery? "| transpose 18446744073709551615" 128 = none ∧ ∃ rows options,
      .simple (.transpose (some rows) options) ∈
        (parseQuery "| transpose 18446744073709551615" 128).tree.lowered ∧
      SimpleCommand.maxListed ≤ rows := by
  have hlowered : (parseQuery "| predict x y as z" 128).tree.lowered.map
      (fun c => (c.numbered?, c.createdFields.length)) = [(none, 6)] := by
    decide +kernel
  obtain ⟨c, hc, hcreated⟩ := List.mem_map.mp (hlowered ▸ List.mem_singleton_self (none, 6))
  obtain ⟨hnone, hlength⟩ := Prod.mk.inj hcreated
  obtain ⟨-, -, -, hends⟩ := parseQuery_created "| transpose 18446744073709551615" 128
  exact ⟨⟨c, hc, hnone, hlength, ((parseQuery_created _ _).1 c hc).2 hnone⟩, parseQuery?_transpose,
    hends parseQuery?_transpose (by decide +kernel)⟩

/-- It does not hold that there always is a query with few fields for each command, given the length
of the text: the program ends at a short query with a command that creates 2 ^ 64 fields. -/
theorem no_created_bound : parseQuery? "| transpose 18446744073709551615" 128 = none ∧
    (∃ c ∈ (parseQuery "| transpose 18446744073709551615" 128).tree.lowered,
      c.createdFields.length = 2 ^ 64) ∧
    ¬ ∀ (text : String) (limit : Nat), ∃ q, parseQuery? text limit = some q ∧
      ∀ c span, .command c span ∈ q.query.everyStage →
        c.createdFields.length ≤ 3 * text.utf8ByteSize + 16 := by
  refine ⟨parseQuery?_transpose, exists_lowered_transpose, fun h => ?_⟩
  obtain ⟨q, hq, -⟩ := h "| transpose 18446744073709551615" 128
  rw [parseQuery?_transpose] at hq
  cases hq

end SplQuery

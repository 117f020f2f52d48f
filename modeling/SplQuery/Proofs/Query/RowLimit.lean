import Mathlib.Algebra.Group.Nat.Defs
import SplQuery.Proofs.Lexeme.Marks
import SplQuery.Proofs.Lexeme.Tokens
import SplQuery.Proofs.Reading.RowLimit

/-!
# Row limits

The commands `top`, `rare`, `sort` and `head` may have a limit, which is written as a number by
itself or as an option `limit`. A text with either one is cut into lexemes each of which ends where
the next one begins, so the arguments are read as the trees of a limit and of a list of names.

The meaning of these trees differs: `sort` takes a number in front of its other arguments for its
limit and does not look at its options, while the other commands look for an option where there is
no such number.

* `meaning_limited` — where the limit of a command is found.
* `readsAs_stage` — a stage with a limit is read as its command.
* `parseQuery_rowLimit` — which limit a stage has, for each of the commands and in either spelling.
-/

namespace SplQuery

open Meaning Placed Grammar

/-! ## Numbers -/

namespace Text

theorem isBlank_of_isDigit {c : Char} (h : c.isDigit = true) : isBlank c = false := by
  rw [Char.isDigit_iff_toNat] at h
  simp only [isBlank, Bool.or_eq_false_iff, Bool.and_eq_false_iff, decide_eq_false_iff_not,
    beq_eq_false_iff_ne]
  have : '0'.toNat = 48 := rfl
  have : '9'.toNat = 57 := rfl
  omega

/-- A text of digits has no blanks at its ends. -/
theorem trim_of_isDigit {s : String} (h : ∀ c ∈ s.toList, c.isDigit = true) : trim s = s := by
  have hnot (cs : List Char) (hcs : ∀ c ∈ cs, c.isDigit = true) : cs.dropWhile isBlank = cs := by
    cases cs with
    | nil => rfl
    | cons c cs =>
      have hc := isBlank_of_isDigit (hcs c List.mem_cons_self)
      rw [List.dropWhile_cons_of_neg (by rw [hc]; exact Bool.false_ne_true)]
  rw [trim, trimChars, hnot _ h, hnot _ fun c hc => h c (List.mem_reverse.mp hc),
    List.reverse_reverse, String.ofList_toList]

theorem isDigit_of_mem_toString {n : Nat} : ∀ c ∈ (toString n).toList, c.isDigit = true := by
  intro c hc
  rw [Nat.toString_eq_repr, Nat.toList_repr] at hc
  exact Nat.isDigit_of_mem_toDigits (by decide) (by decide) hc

theorem toList_toString_ne_nil (n : Nat) : (toString n).toList ≠ [] := by
  rw [Nat.toString_eq_repr, Nat.toList_repr]
  exact List.ne_nil_of_length_pos Nat.length_toDigits_pos

/-- The digits of a number are read as that number. -/
theorem readCount?_toString {n : Nat} (hn : n < 2 ^ 64) : readCount? (toString n) = some n := by
  have hdigits : ∀ c ∈ (toString n).toList, c.isDigit = true := isDigit_of_mem_toString
  have hvalue : Decimal.ofDigits (toString n).toList = n := by
    rw [Nat.toString_eq_repr, Nat.toList_repr]
    exact Nat.ofDigitChars_toDigits (by decide) (by decide)
  have hall : (toString n).toList.all Char.isDigit = true := List.all_eq_true.mpr hdigits
  obtain ⟨c, cs, hcs⟩ := List.exists_cons_of_ne_nil (toList_toString_ne_nil n)
  have hplus : c ≠ '+' := by
    rintro rfl
    have hfalse := hdigits '+' (by rw [hcs]; exact List.mem_cons_self)
    cases hfalse
  rw [readCount?, trim_of_isDigit hdigits, readBelow?]
  rw [hcs] at hvalue hall ⊢
  split
  · next h => exact absurd (List.cons.inj h).1 hplus
  · rw [hall, hvalue]
    exact if_pos hn

/-- A text of digits is its own value. -/
theorem unquote_toString (n : Nat) : unquote (toString n) = toString n := by
  rw [unquote_eq_self_iff]
  rintro ⟨q, hbetween⟩
  have hhead := List.mem_of_head? hbetween.head?
  obtain rfl | rfl := hbetween.1 <;> cases isDigit_of_mem_toString _ hhead

end Text

/-! ## What a limit means -/

section Limits

variable {p : Placed} {shape : Shape} {k : Kind} {v w : String} {Us : List Tree}

/-- The tree is neither a number by itself nor an option. -/
def NoLimit (U : Tree) : Prop := ∀ ts, U ≠ .node .literal ts ∧ U ≠ .node .optionArg ts

theorem noLimit_leaf (k : Kind) (v : String) : NoLimit (.leaf k v) :=
  fun _ => ⟨Tree.noConfusion, Tree.noConfusion⟩

theorem noLimit_node {ts : List Tree} (hliteral : shape ≠ .literal) (hoption : shape ≠ .optionArg) :
    NoLimit (.node shape ts) :=
  fun _ => ⟨fun h => hliteral (Tree.node.inj h).1, fun h => hoption (Tree.node.inj h).1⟩

/-- Where no tree is a node of a shape, none is found. -/
theorem isNode_eq_false_of_forall₂ {qs : List Placed} {sought : Shape}
    (h : List.Forall₂ (fun q t => q.bare = [t]) qs Us) (hUs : ∀ U ∈ Us, ∀ ts, U ≠ .node sought ts) :
    ∀ q ∈ qs, q.isNode sought = false := by
  induction h with
  | nil => exact List.forall_mem_nil _
  | cons ha _ ih =>
    obtain ⟨hU, hUs⟩ := List.forall_mem_cons.mp hUs
    refine List.forall_mem_cons.mpr ⟨?_, ih hUs⟩
    rw [Bool.eq_false_iff, Ne, isNode_iff_of_bare ha]
    rintro ⟨ts, hts⟩
    exact hU ts hts

/-- A number in front of the other arguments is the leading one. -/
theorem leadingCount?_number
    (hp : p.bare = [.node shape (.leaf k v :: numberTree w :: Us)]) :
    p.leadingCount? = Text.readCount? w := by
  obtain ⟨span, core?, ps, qs, rfl, hsolid, hqs⟩ := node_of_bare hp
  obtain _ | @⟨a, _, _, _, ha, _ | @⟨b, _, _, _, hb, -⟩⟩ := hqs
  obtain ⟨⟨place, rfl⟩, -⟩ := leaf_of_bare ha
  have hnumber : b.isNode .literal = true := isNode_of_bare hb
  rw [leadingCount?, node?_eq, hsolid, List.find?_cons_of_neg (by exact Bool.false_ne_true),
    List.find?_cons_of_pos hnumber, Option.bind_some, text_of_bare hb]

/-- An option `limit` is found where there is no number in front of the other arguments. -/
theorem count?_option (hp : p.bare = [.node shape (.leaf k v :: limitTree w :: Us)])
    (hUs : ∀ U ∈ Us, NoLimit U) (hw : Text.unquote w = w) :
    p.leadingCount? = none ∧ p.options.count? "limit" = Text.readCount? w := by
  obtain ⟨span, core?, ps, qs, rfl, hsolid, hqs⟩ := node_of_bare hp
  have hliterals : ∀ q ∈ qs, ¬q.isNode .literal = true := by
    have hfalse : ∀ q ∈ qs, q.isNode .literal = false := by
      refine isNode_eq_false_of_forall₂ hqs fun U hU ts => ?_
      rcases List.mem_cons.mp hU with rfl | hU
      · exact nofun
      · rcases List.mem_cons.mp hU with rfl | hU
        · exact nofun
        · exact (hUs U hU ts).1
    exact fun q hq => Bool.eq_false_iff.mp (hfalse q hq)
  obtain _ | @⟨a, _, _, _, ha, _ | @⟨b, _, rest, _, hb, hrest⟩⟩ := hqs
  obtain ⟨⟨place, rfl⟩, -⟩ := leaf_of_bare ha
  constructor
  · rw [leadingCount?, node?_eq, hsolid, List.find?_eq_none.mpr hliterals, Option.bind_none]
  have hnodes : (Placed.node span core? shape ps).nodesOf .optionArg = [b] := by
    have hoption : b.isNode .optionArg = true := isNode_of_bare hb
    have hothers : ∀ q ∈ rest, ¬q.isNode .optionArg = true := fun q hq => Bool.eq_false_iff.mp
      (isNode_eq_false_of_forall₂ hrest (fun U hU ts => (hUs U hU ts).2) q hq)
    rw [nodesOf_eq, hsolid, List.filter_cons_of_neg (by exact Bool.false_ne_true),
      List.filter_cons_of_pos hoption, List.filter_eq_nil_iff.mpr hothers]
  have hpair : b.option? = some ("limit", w) := by
    obtain ⟨span, core?, ps, qs, rfl, hsolid, hqs⟩ := node_of_bare hb
    obtain _ | @⟨x, _, _, _, hx, _ | @⟨y, _, _, _, hy, _ | @⟨z, _, _, _, hz, _ | _⟩⟩⟩ := hqs
    obtain ⟨⟨xplace, rfl⟩, -⟩ := leaf_of_bare hx
    obtain ⟨⟨yplace, rfl⟩, -⟩ := leaf_of_bare hy
    have hvalue : z.isNode .optionValue = true := isNode_of_bare hz
    rw [option?, firstLexeme?_of_leaf rfl hsolid, node?_eq, hsolid,
      List.find?_cons_of_neg (by exact Bool.false_ne_true),
      List.find?_cons_of_neg (by exact Bool.false_ne_true), List.find?_cons_of_pos hvalue,
      Option.elim_some, Placed.value, text_of_bare hz, hw, Option.map_some,
      show "limit".toLower = "limit" by decide +kernel]
  have hvalue : (Options.empty.insert "limit" w).get? "limit" = some w := by
    rw [Options.get?_insert, if_pos rfl]
  rw [Placed.options, hnodes, List.filterMap_cons_some hpair, List.filterMap_nil, Options.ofList,
    List.foldl_cons, List.foldl_nil, Options.count?, hvalue, Option.bind_some]

/-- The command of a word has a limit, or none. -/
inductive HasLimit (count : Option Nat) : CommandWord → Command → Prop where
  | top {fields byFields : List FieldRef} {options : Options} :
    HasLimit count .top (.simple (.top .top count fields byFields options))
  | rare {fields byFields : List FieldRef} {options : Options} :
    HasLimit count .rare (.simple (.top .rare count fields byFields options))
  | sort {keys : List SortKey} {reversed : Bool} :
    HasLimit count .sort (.simple (.sort count keys reversed))
  | head {condition : Option Expression} {options : Options} :
    HasLimit count .head (.simple (.head count condition options))

/-- The words of the commands that may have a row limit. -/
def limitedWords : List CommandWord := [.top, .rare, .sort, .head]

variable {word : CommandWord} {n : Nat} {ts : List Tree}

/-- The word of a command is found. -/
theorem commandWord?_of_bare (hp : p.bare = [commandTree word v ts]) :
    p.commandWord? = some word := by
  obtain ⟨span, core?, ps, qs, rfl, hsolid, hqs⟩ := node_of_bare hp
  obtain _ | @⟨a, _, _, _, ha, -⟩ := hqs
  obtain ⟨⟨place, rfl⟩, hk⟩ := leaf_of_bare ha
  rw [commandWord?, firstLexeme?_of_leaf hk hsolid]
  rfl

/-- The limit of `sort` is the number in front of its other arguments and nothing else. The other
commands look for an option if there is no such number. -/
theorem meaning_limited (hword : word ∈ limitedWords) (hp : p.bare = [commandTree word v ts]) :
    ∃ c, p.meaning = .command c ∧ HasLimit
      (if word = .sort then p.leadingCount? else p.leadingCount?.or (p.options.count? "limit"))
      word c := by
  have hfound := commandWord?_of_bare hp
  obtain ⟨span, core?, ps, qs, rfl, -, -⟩ := node_of_bare hp
  simp only [limitedWords, List.mem_cons, List.not_mem_nil, or_false] at hword
  obtain rfl | rfl | rfl | rfl := hword
  · refine ⟨_, rfl, ?_⟩
    rw [topCommand, hfound]
    exact .top
  · refine ⟨_, rfl, ?_⟩
    rw [topCommand, hfound]
    exact .rare
  · exact ⟨_, rfl, .sort⟩
  · exact ⟨_, rfl, .head⟩

end Limits

/-! ## The text of a stage with a limit -/

open Scan Form Rule

theorem isNumber_toString (n : Nat) : IsNumber (toString n) := by
  rw [IsNumber, number, admits_thenOf_iff, admits_andThen_iff]
  refine ⟨(toString n).toList, [], admits_some_one_iff.mpr ⟨Text.toList_toString_ne_nil n,
    Text.isDigit_of_mem_toString⟩, ?_, (List.append_nil _).symm⟩
  rw [Form.optional, admits_orOf_iff]
  exact .inr (admits_done_iff.mpr rfl)

/-- A comma ends before everything. -/
theorem comma_endsAt (s : List Char) : EndsAt [','] s := by
  intro c _ t
  by_contra hsome
  obtain ⟨k, hk⟩ := Option.ne_none_iff_exists'.mp hsome
  obtain ⟨r, hr, -, hadmits⟩ := exists_rule_of_kindOf? (c := ',') rfl hk
  have hrules : Rule.all.filter (·.form.mayStart ',') = [⟨Form.text ",", .comma⟩] := rfl
  rw [hrules, List.mem_singleton] at hr
  rw [hr, admits_text_iff] at hadmits
  cases hadmits

/-- An equals sign ends before everything but another one. -/
theorem equals_endsAt {s : List Char} (hs : s.head? ≠ some '=') : EndsAt ['='] s := by
  intro c hc t
  by_contra hsome
  obtain ⟨k, hk⟩ := Option.ne_none_iff_exists'.mp hsome
  obtain ⟨r, hr, -, hadmits⟩ := exists_rule_of_kindOf? (c := '=') rfl hk
  have hrules : Rule.all.filter (·.form.mayStart '=') =
    [⟨Form.text "==", .doubleEquals⟩, ⟨Form.text "=", .equals⟩] := rfl
  rw [hrules, List.mem_cons, List.mem_singleton] at hr
  rcases hr with rfl | rfl <;> rw [admits_text_iff] at hadmits <;> cases hadmits
  exact hs hc

/-- How names may be separated in a list: the text, and the lexemes in it as kinds and texts. -/
inductive Separates : String → List (Kind × List Char) → Prop where
  | blank : Separates " " [gap]
  | comma : Separates "," [(.comma, [','])]
  | both : Separates ", " [(.comma, [',']), gap]

/-- A name as a kind and a text. -/
def nameOf (f : String) : Kind × List Char := (.identifier, f.toList)

/-- Names with separators between them, as kinds and texts. -/
def listOf (sep : List (Kind × List Char)) : List String → List (Kind × List Char)
  | [] => []
  | [f] => [nameOf f]
  | f :: g :: fs => nameOf f :: (sep ++ listOf sep (g :: fs))

/-- A text ends where another begins, and the two are not joined. -/
def Parts (a b : Kind × List Char) : Prop :=
  EndsAt a.2 b.2 ∧ (Wildcard.isPart a.1 = false ∨ Wildcard.isPart b.1 = false)

theorem parts_gap {t : Kind × List Char} (h : Freestanding t.2 t.1) :
    Parts t gap ∧ Parts gap t :=
  ⟨⟨endsAt_gap h, .inr rfl⟩, gap_endsAt h, .inl rfl⟩

section Lists

variable {sep : String} {toks : List (Kind × List Char)} {names : List String}

theorem Separates.toList (h : Separates sep toks) : sep.toList = toks.flatMap (·.2) := by
  cases h <;> rfl

theorem toList_listOf (h : Separates sep toks) (names : List String) :
    (sep.intercalate names).toList = (listOf toks names).flatMap (·.2) := by
  rw [String.toList_intercalate]
  induction names using listOf.induct with
  | case1 => rfl
  | case2 f => simp [listOf, nameOf]
  | case3 f g fs ih =>
    rw [List.map_cons, List.map_cons, List.intercalate_cons_cons]
    rw [List.map_cons] at ih
    rw [ih, listOf, List.flatMap_cons, List.flatMap_append, h.toList]
    simp [nameOf]

theorem listOf_cons (f : String) (fs : List String) :
    ∃ r, listOf toks (f :: fs) = nameOf f :: r := by
  cases fs <;> exact ⟨_, rfl⟩

theorem mem_listOf (h : Separates sep toks) {e : Kind × List Char}
    (he : e ∈ listOf toks names) : e = gap ∨ e = (.comma, [',']) ∨ ∃ f ∈ names, e = nameOf f := by
  induction names using listOf.induct with
  | case1 => cases he
  | case2 f => exact .inr (.inr ⟨f, List.mem_cons_self, List.mem_singleton.mp he⟩)
  | case3 f g fs ih =>
    rw [listOf, List.mem_cons, List.mem_append] at he
    rcases he with rfl | he | he
    · exact .inr (.inr ⟨f, List.mem_cons_self, rfl⟩)
    · cases h <;> simp only [List.mem_cons, List.not_mem_nil, or_false] at he
      · exact .inl he
      · exact .inr (.inl he)
      · exact he.elim (fun he => .inr (.inl he)) .inl
    · rcases ih he with rfl | rfl | ⟨f', hf', rfl⟩
      · exact .inl rfl
      · exact .inr (.inl rfl)
      · exact .inr (.inr ⟨f', List.mem_cons_of_mem f hf', rfl⟩)

/-- Each name and each separator ends where the next one begins. -/
theorem listOf_isChain (h : Separates sep toks) (hnames : ∀ f ∈ names, IsIdentifier f) :
    (listOf toks names).IsChain Parts := by
  induction names using listOf.induct with
  | case1 => exact .nil
  | case2 f => exact .singleton _
  | case3 f g fs ih =>
    obtain ⟨hf, hnames⟩ := List.forall_mem_cons.mp hnames
    have hlist := ih hnames
    obtain ⟨r, hr⟩ : ∃ r, listOf toks (g :: fs) = nameOf g :: r := listOf_cons g fs
    rw [hr] at hlist
    have hfgap : Parts (nameOf f) gap := (parts_gap hf.freestanding).1
    have hgapg : Parts gap (nameOf g) := (parts_gap (hnames g List.mem_cons_self).freestanding).2
    have hfcomma : Parts (nameOf f) (.comma, [',']) := by
      refine ⟨fun c hc => ?_, .inr rfl⟩
      obtain rfl : ',' = c := Option.some.inj hc
      exact hf.ends (by decide)
    rw [listOf, hr]
    cases h with
    | blank => exact .cons_cons hfgap (.cons_cons hgapg hlist)
    | comma => exact .cons_cons hfcomma (.cons_cons ⟨comma_endsAt _, .inl rfl⟩ hlist)
    | both =>
      exact .cons_cons hfcomma (.cons_cons ⟨comma_endsAt _, .inl rfl⟩ (.cons_cons hgapg hlist))

theorem kindOf?_listOf (h : Separates sep toks) (hnames : ∀ f ∈ names, IsIdentifier f) :
    ∀ e ∈ listOf toks names, kindOf? Rule.all e.2 = some e.1 := by
  intro e he
  rcases mem_listOf h he with rfl | rfl | ⟨f, hf, rfl⟩
  · exact kindOf?_gap
  · decide
  · exact (hnames f hf).freestanding.kind

/-- The lexemes of a list without the trivia among them. -/
def itemsOf (toks : List (Kind × List Char)) : List (Kind × String) :=
  (toks.filter (!·.1.isTrivia)).map fun t => (t.1, String.ofList t.2)

theorem beginsList_itemsOf (h : Separates sep toks) (hne : names ≠ []) :
    BeginsList (itemsOf (listOf toks names)) := by
  constructor
  · intro e he
    obtain ⟨t, ht, rfl⟩ := List.mem_map.mp he
    obtain ⟨hmem, hsolid⟩ := List.mem_filter.mp ht
    rcases mem_listOf h hmem with rfl | rfl | ⟨f, -, rfl⟩
    · cases hsolid
    · exact .inl rfl
    · exact .inr rfl
  · obtain ⟨f, fs, rfl⟩ := List.exists_cons_of_ne_nil hne
    obtain ⟨r, hr⟩ : ∃ r, listOf toks (f :: fs) = nameOf f :: r := listOf_cons f fs
    refine ⟨f, itemsOf r, ?_⟩
    rw [hr, itemsOf, List.filter_cons_of_pos rfl, List.map_cons, nameOf, String.ofList_toList]
    rfl

end Lists

/-! ## Stages with a limit -/

section Stages

open State SplQuery.Parser

variable {s : State} {cs es : List (Kind × String)} {T : Tree} {w : String} {word : CommandWord}
  {limit n : Nat}

/-- The commands whose limit stands in front of names. -/
def listWords : List CommandWord := [.top, .rare, .sort]

/-- What may come after a limit: nothing if the command is `head`, and names otherwise. -/
def ComesAfter (word : CommandWord) (es : List (Kind × String)) : Prop :=
  word = .head ∧ es = [] ∨ word ∈ listWords ∧ BeginsList es

/-- A limit and what comes after it are read. -/
theorem readsBody_limited (limit : Nat) (hT : Limits w cs T) (ha : s.Loose)
    (hes : ComesAfter word es) :
    ∃ Us, (∀ U ∈ Us, NoLimit U) ∧ Tree.leavesOfAll (T :: Us) = cs ++ es ∧
      ReadsBody (belowAt limit) word (T :: Us) s := by
  obtain ⟨rfl, rfl⟩ | ⟨hword, hlist⟩ := hes
  · refine ⟨[], List.forall_mem_nil _, ?_, fun t ht hrest => ?_⟩
    · rw [Tree.leavesOfAll_singleton, hT.leaves, List.append_nil]
    · rw [Tree.leavesOfAll_singleton, hT.leaves] at ht
      exact headBody_adds hT (ha.suffix hrest) ht
  · have hfields : ∀ U ∈ [Tree.node .fieldList (es.map (itemTree id))], NoLimit U := by
      refine List.forall_mem_singleton.mpr (noLimit_node ?_ ?_) <;> decide
    have hkeys : ∀ U ∈ es.map (itemTree sortKeyTree), NoLimit U := by
      rw [List.forall_mem_map]
      intro e _
      rw [itemTree, sortKeyTree]
      split
      · refine noLimit_node ?_ ?_ <;> decide
      · exact noLimit_leaf _ _
    have hread {round : Nat → Parser (ForInStep Nat)} {Us : List Tree}
        (hround : ReadsList round w es Us) {t : State}
        (ht : t.coming = Tree.leavesOfAll (T :: Us)) (hrest : t.rest <:+ s.rest) :
        Ends (countedBody round) t fun _ u => Adds (T :: Us) t u := by
      refine hround.body hT (ha.suffix hrest) ?_ hlist
      rw [ht, Tree.leavesOfAll, hT.leaves, hround.leaves]
    have hleaves {round : Nat → Parser (ForInStep Nat)} {Us : List Tree}
        (hround : ReadsList round w es Us) : Tree.leavesOfAll (T :: Us) = cs ++ es := by
      rw [Tree.leavesOfAll, hT.leaves, hround.leaves]
    have htop := topRound_reads w hlist
    have hsort := sortBodyRound_reads w hlist
    simp only [listWords, List.mem_cons, List.not_mem_nil, or_false] at hword
    obtain rfl | rfl | rfl := hword
    · refine ⟨_, hfields, hleaves htop, fun t ht hrest => ?_⟩
      rw [bodyOf, topBody_eq]
      exact hread htop ht hrest
    · refine ⟨_, hfields, hleaves htop, fun t ht hrest => ?_⟩
      rw [bodyOf, topBody_eq]
      exact hread htop ht hrest
    · refine ⟨_, hkeys, hleaves hsort, fun t ht hrest => ?_⟩
      rw [bodyOf, sortBody_eq]
      exact hread hsort ht hrest

/-- A query is without errors, and its one stage is the command of a word, with a limit or none. -/
def ReadsAs (limit : Nat) (text : String) (word : CommandWord) (count : Option Nat) : Prop :=
  (parseQuery text limit).success = true ∧ ∃ c span,
    (parseQuery text limit).query.stages = [.command c span] ∧ HasLimit count word c

/-- There is at most one limit with which a query is read. -/
theorem ReadsAs.unique {limit : Nat} {text : String} {count count' : Option Nat}
    (h : ReadsAs limit text word count) (h' : ReadsAs limit text word count') : count = count' := by
  obtain ⟨-, c, span, hstages, hc⟩ := h
  obtain ⟨-, c', span', hstages', hc'⟩ := h'
  cases hstages.symm.trans hstages'
  cases hc <;> cases hc' <;> rfl

/-- A number as a kind and a text. -/
def numberOf (n : Nat) : Kind × List Char := (.numberLiteral, (toString n).toList)

/-- The lexemes of a limit, as kinds and texts. -/
def limitToks (asOption : Bool) (n : Nat) : List (Kind × List Char) :=
  if asOption then [nameOf "limit", (.equals, ['=']), numberOf n] else [numberOf n]

/-- The tree of a limit. -/
def limitTreeOf (asOption : Bool) (n : Nat) : Tree :=
  if asOption then limitTree (toString n) else numberTree (toString n)

variable {asOption : Bool}

theorem limits_limitToks (asOption : Bool) (n : Nat) :
    Limits (toString n) (itemsOf (limitToks asOption n)) (limitTreeOf asOption n) := by
  have hnumber : itemsOf [numberOf n] = [(.numberLiteral, toString n)] := by
    rw [itemsOf, List.filter_cons_of_pos rfl, List.map_cons, numberOf, String.ofList_toList]
    rfl
  cases asOption with
  | false =>
    have hitems : itemsOf (limitToks false n) = [(.numberLiteral, toString n)] := hnumber
    rw [hitems]
    exact .number
  | true =>
    have hitems : itemsOf (limitToks true n) =
        (.identifier, "limit") :: (.equals, "=") :: itemsOf [numberOf n] := rfl
    rw [hitems, hnumber]
    exact .option

theorem isIdentifier_limit : IsIdentifier "limit" := by decide

theorem freestanding_commandWord (hword : word ∈ limitedWords) :
    Freestanding word.spelling.toList (.command word) := by
  simp only [limitedWords, List.mem_cons, List.not_mem_nil, or_false] at hword
  rcases hword with rfl | rfl | rfl | rfl <;> exact freestanding_fixed (by decide) (by decide)

theorem freestanding_pipe : Freestanding ['|'] .pipe :=
  freestanding_fixed (by decide) (by decide)

theorem freestanding_number (n : Nat) : Freestanding (numberOf n).2 (numberOf n).1 :=
  (isNumber_toString n).freestanding

/-- After a blank, each part of a limit ends where the next one begins. -/
theorem limitToks_isChain {rest : List (Kind × List Char)}
    (hrest : (numberOf n :: rest).IsChain Parts) :
    (gap :: (limitToks asOption n ++ rest)).IsChain Parts := by
  cases asOption with
  | false => exact .cons_cons (parts_gap (freestanding_number n)).2 hrest
  | true =>
    have hlimit : Parts gap (nameOf "limit") := (parts_gap isIdentifier_limit.freestanding).2
    have hequals : Parts (nameOf "limit") (.equals, ['=']) := by
      refine ⟨fun c hc => ?_, .inr rfl⟩
      obtain rfl : '=' = c := Option.some.inj hc
      exact isIdentifier_limit.ends (by decide)
    have hvalue : Parts (.equals, ['=']) (numberOf n) := by
      refine ⟨equals_endsAt fun hhead => ?_, .inl rfl⟩
      have hdigit := Text.isDigit_of_mem_toString '=' (List.mem_of_head? hhead)
      cases hdigit
    exact .cons_cons hlimit (.cons_cons hequals (.cons_cons hvalue hrest))

theorem kindOf?_limitToks : ∀ e ∈ limitToks asOption n, kindOf? Rule.all e.2 = some e.1 := by
  have hnumber := (freestanding_number n).kind
  cases asOption with
  | false => exact List.forall_mem_singleton.mpr hnumber
  | true =>
    refine List.forall_mem_cons.mpr ⟨isIdentifier_limit.freestanding.kind, ?_⟩
    exact List.forall_mem_cons.mpr ⟨by decide, List.forall_mem_singleton.mpr hnumber⟩

/-- What may stand behind the limit of a command, as kinds and texts. -/
structure Follows (word : CommandWord) (n : Nat) (rest : List (Kind × List Char)) : Prop where
  limited : word ∈ limitedWords
  chain : (numberOf n :: rest).IsChain Parts
  kind : ∀ e ∈ rest, kindOf? Rule.all e.2 = some e.1
  after : ComesAfter word (itemsOf rest)

theorem follows_nil (n : Nat) : Follows .head n [] :=
  ⟨by decide, .singleton _, List.forall_mem_nil _, .inl ⟨rfl, rfl⟩⟩

theorem follows_list {sep : String} {toks : List (Kind × List Char)} {names : List String}
    (hword : word ∈ listWords) (hsep : Separates sep toks) (hne : names ≠ [])
    (hnames : ∀ f ∈ names, IsIdentifier f) : Follows word n (gap :: listOf toks names) := by
  have hlimited : word ∈ limitedWords := by
    simp only [listWords, limitedWords, List.mem_cons, List.not_mem_nil, or_false] at hword ⊢
    exact hword.imp_right fun h => h.imp_right .inl
  refine ⟨hlimited, .cons_cons (parts_gap (freestanding_number n)).1 ?_, ?_, .inr ⟨hword, ?_⟩⟩
  · have hchain := listOf_isChain hsep hnames
    obtain ⟨f, fs, rfl⟩ := List.exists_cons_of_ne_nil hne
    obtain ⟨r, hr⟩ : ∃ r, listOf toks (f :: fs) = nameOf f :: r := listOf_cons f fs
    rw [hr] at hchain ⊢
    exact .cons_cons (parts_gap (hnames f List.mem_cons_self).freestanding).2 hchain
  · exact List.forall_mem_cons.mpr ⟨kindOf?_gap, kindOf?_listOf hsep hnames⟩
  · rw [itemsOf, List.filter_cons_of_neg (by decide)]
    exact beginsList_itemsOf hsep hne

/-- The lexemes of a stage with a limit, as kinds and texts. -/
def stageToks (word : CommandWord) (asOption : Bool) (n : Nat) (rest : List (Kind × List Char)) :
    List (Kind × List Char) :=
  (.pipe, ['|']) :: gap :: (.command word, word.spelling.toList) :: gap ::
    (limitToks asOption n ++ rest)

variable {rest : List (Kind × List Char)}

theorem stageToks_isChain (asOption : Bool) (h : Follows word n rest) :
    (stageToks word asOption n rest).IsChain Parts := by
  have hpipe := parts_gap (t := (.pipe, ['|'])) freestanding_pipe
  have hcommand := parts_gap (t := (.command word, word.spelling.toList))
    (freestanding_commandWord h.limited)
  exact .cons_cons hpipe.1 (.cons_cons hcommand.2 (.cons_cons hcommand.1
    (limitToks_isChain h.chain)))

theorem kindOf?_stageToks (asOption : Bool) (h : Follows word n rest) :
    ∀ e ∈ stageToks word asOption n rest, kindOf? Rule.all e.2 = some e.1 := by
  refine List.forall_mem_cons.mpr ⟨freestanding_pipe.kind, List.forall_mem_cons.mpr
    ⟨kindOf?_gap, List.forall_mem_cons.mpr ⟨(freestanding_commandWord h.limited).kind,
      List.forall_mem_cons.mpr ⟨kindOf?_gap, ?_⟩⟩⟩⟩
  exact List.forall_mem_append.mpr ⟨kindOf?_limitToks, h.kind⟩

theorem itemsOf_stageToks :
    itemsOf (stageToks word asOption n rest) =
      (.pipe, "|") :: (.command word, word.spelling) ::
        (itemsOf (limitToks asOption n) ++ itemsOf rest) := by
  rw [stageToks, itemsOf, List.filter_cons_of_pos rfl, List.filter_cons_of_neg (by decide),
    List.filter_cons_of_pos rfl, List.filter_cons_of_neg (by decide), List.filter_append,
    List.map_cons, List.map_cons, List.map_append, String.ofList_toList]
  rfl

/-- The limit of a command whose first argument is a limit. -/
theorem meaning_limitTreeOf {p : Placed} {v : String} {Us : List Tree}
    (hword : word ∈ limitedWords) (hn : n < 2 ^ 64) (hUs : ∀ U ∈ Us, NoLimit U)
    (hp : p.bare = [commandTree word v (limitTreeOf asOption n :: Us)]) :
    ∃ c, p.meaning = .command c ∧
      HasLimit (if word = .sort ∧ asOption = true then none else some n) word c := by
  have hcount := Text.readCount?_toString hn
  obtain ⟨c, hc, hlimit⟩ := meaning_limited hword hp
  refine ⟨c, hc, ?_⟩
  cases asOption with
  | false =>
    have hleading : p.leadingCount? = some n := (leadingCount?_number hp).trans hcount
    rw [hleading, Option.some_or, ite_self] at hlimit
    rwa [if_neg (fun h => Bool.false_ne_true h.2)]
  | true =>
    obtain ⟨hleading, hoption⟩ := count?_option hp hUs (Text.unquote_toString n)
    rw [hleading, hoption, hcount] at hlimit
    simpa using hlimit

/-- A stage with a limit is read as its command. Only `sort` does not see a limit that is an
option. -/
theorem readsAs_stage (limit : Nat) (asOption : Bool) {t : String} (h : Follows word n rest)
    (hn : n < 2 ^ 64) (ht : t.toList = (stageToks word asOption n rest).flatMap (·.2)) :
    ReadsAs limit t word (if word = .sort ∧ asOption = true then none else some n) := by
  have hkind := kindOf?_stageToks asOption h
  have hchain := stageToks_isChain asOption h
  have hentries := lex_of_chain ht hkind (hchain.imp fun _ _ hp => hp.1)
    (hchain.imp fun _ _ hp => hp.2)
  have hclean : ∀ l ∈ lex t, l.kind ≠ .garbage :=
    Lexeme.clean_of_entries hentries fun e he => Rule.ne_garbage_of_kindOf? (hkind e he)
  have hloose : (start (lex t) t.utf8ByteSize).Loose :=
    Lexeme.isChain_of_entries (fun j k => Wildcard.isPart j = false ∨ Wildcard.isPart k = false)
      hentries (hchain.imp fun _ _ hp => hp.2)
  obtain ⟨Us, hUs, hleaves, hbody⟩ :=
    readsBody_limited limit (limits_limitToks asOption n) hloose h.after
  have hcoming : (start (lex t) t.utf8ByteSize).coming =
      (.pipe, "|") :: (.command word, word.spelling) ::
        Tree.leavesOfAll (limitTreeOf asOption n :: Us) := by
    rw [hleaves, ← itemsOf_stageToks]
    exact Lexeme.solid_of_entries hentries
  obtain ⟨hsuccess, hbare⟩ := parseQuery_of_coming hclean hcoming hbody
  refine ⟨hsuccess, ?_⟩
  exact stages_of_bare hbare fun q hq => meaning_limitTreeOf h.limited hn hUs hq

end Stages

/-- **Row limits.** After `top`, `rare`, `sort` and `head` a number is the limit of the command, and
so is the number that an option `limit` gives, except after `sort`, where the option is read without
an error and the command has no limit. -/
theorem parseQuery_rowLimit {word : CommandWord} (hword : word ∈ listWords) {n : Nat}
    (hn : n < 2 ^ 64) {names : List String} (hne : names ≠ [])
    (hnames : ∀ f ∈ names, IsIdentifier f) {sep : String} {toks : List (Kind × List Char)}
    (hsep : Separates sep toks) (limit : Nat) :
    ReadsAs limit ("| " ++ word.spelling ++ " " ++ toString n ++ " " ++ sep.intercalate names)
        word (some n) ∧
      ReadsAs limit
        ("| " ++ word.spelling ++ " limit=" ++ toString n ++ " " ++ sep.intercalate names)
        word (if word = .sort then none else some n) ∧
      ReadsAs limit ("| head " ++ toString n) .head (some n) ∧
      ReadsAs limit ("| head limit=" ++ toString n) .head (some n) := by
  have hlist : Follows word n (gap :: listOf toks names) := follows_list hword hsep hne hnames
  have hhead : Follows .head n [] := follows_nil n
  have hnames := toList_listOf hsep names
  have hspelling : CommandWord.head.spelling.toList = "head".toList := by decide
  refine ⟨?_, ?_, ?_, ?_⟩
  · have hread := readsAs_stage limit false hlist hn
      (t := "| " ++ word.spelling ++ " " ++ toString n ++ " " ++ sep.intercalate names)
      (by simp [stageToks, limitToks, numberOf, gap, hnames])
    simpa using hread
  · have hread := readsAs_stage limit true hlist hn
      (t := "| " ++ word.spelling ++ " limit=" ++ toString n ++ " " ++ sep.intercalate names)
      (by simp [stageToks, limitToks, numberOf, nameOf, gap, hnames])
    simpa using hread
  · exact readsAs_stage limit false hhead hn
      (by simp [stageToks, limitToks, numberOf, gap, hspelling])
  · exact readsAs_stage limit true hhead hn
      (by simp [stageToks, limitToks, numberOf, nameOf, gap, hspelling])

theorem parseQuery_rowLimit_sample :
    (CommandWord.sort ∈ listWords ∧ 10 < 2 ^ 64 ∧ ["x", "y"] ≠ [] ∧
      (∀ f ∈ ["x", "y"], IsIdentifier f) ∧ Separates ", " [(.comma, [',']), gap]) ∧
      ReadsAs 128 "| sort 10 x, y" .sort (some 10) ∧
      ReadsAs 128 "| sort limit=10 x, y" .sort none ∧
      ReadsAs 128 "| head 10" .head (some 10) ∧
      ReadsAs 128 "| head limit=10" .head (some 10) := by
  have hword : CommandWord.sort ∈ listWords := by decide
  have hnames : ∀ f ∈ ["x", "y"], IsIdentifier f := by decide
  refine ⟨⟨hword, by decide, List.cons_ne_nil _ _, hnames, .both⟩, ?_⟩
  have hread := parseQuery_rowLimit hword (n := 10) (by decide) (List.cons_ne_nil _ _) hnames .both
    128
  have hplain : "| " ++ CommandWord.sort.spelling ++ " " ++ toString 10 ++ " " ++
      ", ".intercalate ["x", "y"] = "| sort 10 x, y" := by decide +kernel
  have hoption : "| " ++ CommandWord.sort.spelling ++ " limit=" ++ toString 10 ++ " " ++
      ", ".intercalate ["x", "y"] = "| sort limit=10 x, y" := by decide +kernel
  have hplainHead : "| head " ++ toString 10 = "| head 10" := by decide +kernel
  have hoptionHead : "| head limit=" ++ toString 10 = "| head limit=10" := by decide +kernel
  rwa [hplain, hoption, hplainHead, hoptionHead, if_pos rfl] at hread

/-- With its limit as an option `sort` is read without an error, and is not limited. -/
theorem not_readsAs_sort_option :
    (parseQuery "| sort limit=10 x" 128).success = true ∧
      ¬ReadsAs 128 "| sort limit=10 x" .sort (some 10) := by
  have hfollows : Follows .sort 10 (gap :: listOf [gap] ["x"]) :=
    follows_list (by decide) .blank (List.cons_ne_nil _ _) (by decide)
  have hread := readsAs_stage 128 true (t := "| sort limit=10 x") hfollows (by decide) (by decide)
  rw [if_pos ⟨rfl, rfl⟩] at hread
  exact ⟨hread.1, fun h => Option.some_ne_none 10 (h.unique hread)⟩

end SplQuery

import SplQuery.Grammar.Pipeline

/-!
# How the grammar is made

Every production of the grammar is put together from a few steps, and much of what is true of parses
is true because of the way in which these are put together: what a production does depends only on
the lexemes directly ahead, it treats a pipe like the end of the query, it puts what it reads under
nodes of its own. `Alike` says of two programs that they are made in this way and that they differ
in nothing but the marks from which they wrap trees and what may be nested in them. A production is
alike to itself, at whatever depth. What is shown by induction over `Alike` holds of all
productions.

* `Sight` — what is known of the lexemes to come where a step starts.
* `Grammar.recipe?` — the shapes of nodes that are made in one way only.
* `Alike` — two programs are made in the same way, one rule for each way of putting steps together.
-/

namespace SplQuery

/-- What is known of the state in which a step starts. -/
inductive Sight where
  | nothing
  /-- a lexeme has just been read, and nothing after it -/
  | fresh
  /-- a lexeme has just been read, and past trivia there is one of a kind -/
  | next (kind : Kind)
  /-- directly ahead there is a lexeme of a kind, which is no trivia -/
  | here (kind : Kind)
  /-- directly ahead there is a lexeme of a kind, and past trivia another one after it -/
  | pair (kind second : Kind)

namespace Sight

/-- What is still known when trivia has been passed over. -/
def past : Sight → Sight
  | .fresh => .nothing
  | .next k => .here k
  | s => s

/-- What is still known inside a node that is opened. -/
def inside : Sight → Sight
  | .here k => .here k
  | .pair k l => .pair k l
  | _ => .nothing

/-- The kind of the lexeme directly ahead, if it is known. -/
def first? : Sight → Option Kind
  | .here k | .pair k _ => some k
  | _ => none

/-- What is known after the lexeme directly ahead has been read. -/
def afterBump : Sight → Sight
  | .pair _ l => .next l
  | _ => .fresh

end Sight

namespace Kind

/-- A parenthesis or bracket. -/
def isDelimiter : Kind → Bool
  | .lparen | .rparen | .lbracket | .rbracket => true
  | _ => false

/-- What is in a class without delimiters may be read by itself. -/
theorem free_of_member {member : Kind → Bool} {paired : Bool} {k : Kind}
    (h : [Kind.lparen, .rparen, .lbracket, .rbracket].all (!member ·) = true)
    (hk : member k = true) : (k.isDelimiter && paired) = false := by
  rw [Bool.and_eq_false_imp]
  intro hdelimiter
  have hnone : ∀ l ∈ [Kind.lparen, .rparen, .lbracket, .rbracket], member l ≠ true :=
    fun l hl => by simpa using List.all_eq_true.mp h l hl
  cases k <;> first
    | exact absurd hk (hnone _ (by decide))
    | cases hdelimiter

end Kind

namespace Shape

/-- A node of this shape may be without any lexeme but trivia. What it stands for has no place of
its own. -/
def mayBeHollow : Shape → Bool
  | .argList | .optionValue | .fieldList | .sortField | .searchTerm => true
  | _ => false

/-- A node of this shape is put in by productions of its own kind only. -/
def isSpecial : Shape → Bool
  | .root | .pipeline | .subsearch | .searchExpr | .aliasedField | .error => true
  | _ => false

/-- A node of this shape is put around trees of which it was not known when they were made. -/
def isWrapped : Shape → Bool
  | .searchComparison | .searchIn | .searchTerm | .searchOr | .inList | .binaryExpr => true
  | _ => false

end Shape

namespace Grammar

open SplQuery.Parser

/-- Whether a search ends before a lexeme of a kind. -/
def endsSearch (stop : Kind → Bool) (k : Kind) : Bool :=
  k matches .pipe | .rbracket | .rparen || stop k

/-- What is done unless a search ends. -/
def searchRound (stop : Kind → Bool) (more : Parser Bool) : Parser Bool := do
  if ← atSearchEnd stop then return false
  more

/-- What is repeated up to where a search ends. -/
def searchRounds (stop : Kind → Bool) (more : Parser Bool) : Parser Unit :=
  whileTrue (searchRound stop more)

/-- Another name after `as`, or a note that it is missing. -/
def otherName (member : Kind → Bool) (part : Parser Unit) : Parser Unit := do
  if ← isIn member then part
  else reportWith .expectedField "after \x60as\x60"

/-- What was read since a mark gets another name if there is an `as`. -/
def nameAfter (start : Nat) (member : Kind → Bool) (part : Parser Unit) : Parser Unit := do
  if ← isAt (.clause .as) then
    wrapFrom start .aliasedField do
      bump
      otherName member part

/-- A part and, after `as`, another name for it, which is such a part as well and begins with a
lexeme of a class. -/
def aliased (member : Kind → Bool) (part : Parser Unit) : Parser Unit := do
  let start ← mark
  part
  nameAfter start member part

/-- The parts of the grammar that may be nested without brackets. -/
inductive Nestable : (Inner → Parser Unit) → Prop where
  | searchNot (stop : Kind → Bool) : Nestable (·.searchNot stop)
  | searchTerms : Nestable (·.searchTerms)
  | expression (least : Nat) : Nestable (·.expression least)

/-- What may be nested in two programs. -/
structure Inners where
  /-- in the one -/
  left : Option Inner
  /-- in the other -/
  right : Option Inner

/-- The same may be nested in both. -/
abbrev Inners.same (below : Option Inner) : Inners := ⟨below, below⟩

/-- How the parenthesis is read that opens a group. -/
inductive Opening : Sight → {α : Type} → Parser α → Prop where
  | bump {sight : Sight} (hsight : sight.past.first? = some .lparen) : Opening sight bump
  | expect {sight : Sight} (spelling : String) : Opening sight (expect .lparen spelling)

/-- A group in parentheses. -/
def parens {α : Type} (opening : Parser α) (body : Parser Unit) : Parser Unit := do
  pushOpener .lparen
  let _ ← opening
  body
  close .rparen .unclosedParen

/-- How nodes of a shape are made. -/
structure Recipe where
  /-- what is known where such a node begins -/
  starts : Sight → Bool
  /-- what puts in what the node holds -/
  body : Parser Unit

/-- The call of a function of a field. -/
def callRecipe : Recipe where
  starts
    | .pair k .lparen => k.isWord
    | _ => false
  body := do
    bump
    parens (expect .lparen "(") do
      if ← isIn Kind.startsField then fieldItem
    if ← eat (.clause .as) then aliasName

/-- An option. -/
def optionRecipe : Recipe where
  starts sight := sight.first?.any Kind.isWord
  body := do
    bump
    let _ ← expect .equals "="
    node .optionValue do
      if ← isIn Kind.isGlue <||> isAt .lparen then gluedRun
      else reportWith .expectedValue "after \x60=\x60"

/-- What is grouped by. -/
def byRecipe : Recipe where
  starts _ := true
  body := do
    bump
    if (← fieldList Kind.endsFieldList) == 0 then
      reportWith .expectedField "after \x60by\x60"

/-- Lexemes that are taken as one: the first is of a class, and those of another class are joined to
it that are written directly after it. -/
structure Gluing where
  /-- what the first may be -/
  first : Kind → Bool
  /-- what the others may be -/
  more : Kind → Bool

/-- The shapes of nodes that are put around lexemes taken as one. -/
def gluing? : Shape → Option Gluing
  | .searchValue => some ⟨Kind.isGlue, Kind.isGlue⟩
  | .fieldItem => some ⟨Kind.startsField, Kind.continuesField⟩
  | _ => none

/-- The lexemes are read up to where they end. -/
def gluingRecipe (gluing : Gluing) : Recipe where
  starts sight := sight.first?.any gluing.first
  body := do
    bump
    gluedWhile gluing.more

/-- How nodes of a shape are made, for shapes that are made in one way only. -/
def recipe? : Shape → Option Recipe
  | .fieldCall => some callRecipe
  | .optionArg => some optionRecipe
  | .byClause => some byRecipe
  | shape => (gluing? shape).map gluingRecipe

/-- A node of this shape may be put in by any production. -/
def isOrdinary (shape : Shape) : Bool := !shape.isSpecial && (recipe? shape).isNone

theorem not_special_of_isOrdinary {shape : Shape} (h : isOrdinary shape = true) :
    shape.isSpecial = false := by
  rw [isOrdinary, Bool.and_eq_true] at h
  exact (Bool.not_eq_true' _).mp h.1

theorem recipe?_of_isOrdinary {shape : Shape} (h : isOrdinary shape = true) :
    recipe? shape = none := by
  rw [isOrdinary, Bool.and_eq_true] at h
  exact Option.isNone_iff_eq_none.mp h.2

theorem not_special_of_recipe? {shape : Shape} {recipe : Recipe} (h : recipe? shape = some recipe) :
    shape.isSpecial = false := by
  cases shape <;> first | rfl | cases h

/-- Two programs are made in the same way. They differ only in what may be nested in them, which is
`both`, and in the marks from which they wrap trees, which are `marks`. With `paired` they read
delimiters only as parts of groups. Where they start `sight` is known, and with `reads` they read a
lexeme that is no trivia. -/
inductive Alike (both : Inners) :
    Bool → Option (Nat × Nat) → Sight → Bool → {α : Type} → Parser α → Parser α → Prop where
  -- what is known may be forgotten
  | blind {paired : Bool} {marks : Option (Nat × Nat)} {sight : Sight} {reads : Bool} {α : Type}
      {p q : Parser α} (h : Alike both paired marks .nothing reads p q) :
      Alike both paired marks sight reads p q
  | narrow {paired : Bool} {marks : Option (Nat × Nat)} {k l : Kind} {reads : Bool} {α : Type}
      {p q : Parser α} (h : Alike both paired marks (.here k) reads p q) :
      Alike both paired marks (.pair k l) reads p q
  | forget {paired : Bool} {marks : Option (Nat × Nat)} {sight : Sight} {reads : Bool} {α : Type}
      {p q : Parser α} (h : Alike both paired marks sight reads p q) :
      Alike both paired marks sight false p q
  -- one step after another
  | pure {paired : Bool} {marks : Option (Nat × Nat)} {sight : Sight} {α : Type} (a : α) :
      Alike both paired marks sight false (Pure.pure a) (Pure.pure a)
  | bind {paired : Bool} {marks : Option (Nat × Nat)} {sight : Sight} {reads reads' : Bool}
      {α β : Type} {p q : Parser α} {f g : α → Parser β}
      (h : Alike both paired marks sight reads p q)
      (hf : ∀ a, Alike both paired marks .nothing reads' (f a) (g a)) :
      Alike both paired marks sight (reads || reads') (p >>= f) (q >>= g)
  -- questions
  | ask {paired : Bool} {marks : Option (Nat × Nat)} {reads : Bool} {β : Type}
      {f g : Option Kind → Parser β} (hf : f none = f (some .pipe)) (hg : g none = g (some .pipe))
      (hnone : Alike both paired marks .nothing reads (f none) (g none))
      (hsome : ∀ k, k ≠ .pipe → Alike both paired marks (.here k) reads (f (some k)) (g (some k))) :
      Alike both paired marks .nothing reads (current >>= f) (current >>= g)
  | look {paired : Bool} {marks : Option (Nat × Nat)} {sight : Sight} {k : Kind} {reads : Bool}
      {β : Type} {f g : Option Kind → Parser β} (hsight : sight.past.first? = some k)
      (h : Alike both paired marks sight.past reads (f (some k)) (g (some k))) :
      Alike both paired marks sight reads (current >>= f) (current >>= g)
  | askSecond {paired : Bool} {marks : Option (Nat × Nat)} {k : Kind} {reads : Bool} {β : Type}
      {f g : Option Kind → Parser β} (hf : f none = f (some .pipe)) (hg : g none = g (some .pipe))
      (hnone : Alike both paired marks (.here k) reads (f none) (g none))
      (hsome : ∀ l, l ≠ .pipe →
        Alike both paired marks (.pair k l) reads (f (some l)) (g (some l))) :
      Alike both paired marks (.here k) reads (ahead >>= f) (ahead >>= g)
  | idleSecond {paired : Bool} {marks : Option (Nat × Nat)} {reads : Bool} {β : Type}
      {f g : Option Kind → Parser β} (hf : ∀ k, f k = f none) (hg : ∀ k, g k = g none)
      (h : Alike both paired marks .nothing reads (f none) (g none)) :
      Alike both paired marks .nothing reads (ahead >>= f) (ahead >>= g)
  | text {paired : Bool} {marks : Option (Nat × Nat)} {sight : Sight} {k : Kind} {reads : Bool}
      {β : Type} {f g : String → Parser β} (hsight : sight.first? = some k)
      (h : ∀ w, Alike both paired marks sight reads (f w) (g w)) :
      Alike both paired marks sight reads (currentText >>= f) (currentText >>= g)
  | idleText {paired : Bool} {marks : Option (Nat × Nat)} {reads : Bool} {β : Type}
      {f g : String → Parser β} (hf : ∀ w, f w = f "") (hg : ∀ w, g w = g "")
      (h : Alike both paired marks .nothing reads (f "") (g "")) :
      Alike both paired marks .nothing reads (currentText >>= f) (currentText >>= g)
  | touching {paired : Bool} {marks : Option (Nat × Nat)} {β : Type} {f g : Option Kind → Parser β}
      {a : β} (hf : f (some .pipe) = Pure.pure a) (hg : g (some .pipe) = Pure.pure a)
      (h : ∀ k, k ≠ .pipe → Alike both paired marks (.here k) false (f (some k)) (g (some k))) :
      Alike both paired marks .nothing false
        (glued >>= fun b => if b = true then adjacent >>= f else Pure.pure a)
        (glued >>= fun b => if b = true then adjacent >>= g else Pure.pure a)
  | require {paired : Bool} {marks : Option (Nat × Nat)} {sight : Sight} {k : Kind} {reads : Bool}
      {β : Type} {member : Kind → Bool} {f g : Unit → Parser β} (hsight : sight.first? = some k)
      (hmember : member k = true) (h : Alike both paired marks sight reads (f ()) (g ())) :
      Alike both paired marks sight reads (require member >>= f) (require member >>= g)
  -- reading
  | bump {paired : Bool} {marks : Option (Nat × Nat)} {sight : Sight} {k : Kind} {reads : Bool}
      {β : Type} {f g : Unit → Parser β} (hsight : sight.first? = some k)
      (hfree : (k.isDelimiter && paired) = false)
      (h : Alike both paired marks sight.afterBump reads (f ()) (g ())) :
      Alike both paired marks sight true (bump >>= f) (bump >>= g)
  | bumpBlindly {paired : Bool} {marks : Option (Nat × Nat)} {k : Kind} {reads : Bool} {β : Type}
      {f g : Option Kind → Parser β} (hfree : (k.isDelimiter && paired) = false)
      (h : Alike both paired marks .nothing reads (current >>= f) (current >>= g)) :
      Alike both paired marks (.next k) reads (Parser.bump >>= fun _ => current >>= f)
        (Parser.bump >>= fun _ => current >>= g)
  -- nodes
  | node {paired : Bool} {marks : Option (Nat × Nat)} {sight : Sight} {reads : Bool} {α : Type}
      {p q : Parser α} {shape : Shape} (hshape : isOrdinary shape = true)
      (hreads : reads = true ∨ shape.mayBeHollow = true)
      (h : Alike both paired none sight.inside reads p q) :
      Alike both paired marks sight reads (node shape p) (node shape q)
  | byRecipe {paired : Bool} {marks : Option (Nat × Nat)} {sight : Sight} {shape : Shape}
      {recipe : Recipe} (hrecipe : recipe? shape = some recipe)
      (hsight : recipe.starts sight = true)
      (h : Alike both paired none sight.inside true recipe.body recipe.body) :
      Alike both paired marks sight true (node shape recipe.body) (node shape recipe.body)
  | searchNode {paired : Bool} {marks : Option (Nat × Nat)} {stop : Kind → Bool} {p q : Parser Bool}
      (hmore : ∀ k, endsSearch stop k = false → Alike both paired none (.here k) true p q)
      (h : Alike both paired none .nothing false (searchRounds stop p) (searchRounds stop q)) :
      Alike both paired marks .fresh false (node .searchExpr (searchRounds stop p))
        (node .searchExpr (searchRounds stop q))
  | mark {paired : Bool} {marks : Option (Nat × Nat)} {sight : Sight} {reads : Bool} {β : Type}
      {f g : Nat → Parser β}
      (h : ∀ m n, Alike both paired (some (m, n)) sight.past reads (f m) (g n)) :
      Alike both paired marks sight reads (mark >>= f) (mark >>= g)
  | wrapFrom {paired : Bool} {m n : Nat} {sight : Sight} {reads : Bool} {p q : Parser Unit}
      {shape : Shape} (hshape : shape.isWrapped = true)
      (hreads : reads = true ∨ shape.mayBeHollow = true)
      (h : Alike both paired none sight.inside reads p q) :
      Alike both paired (some (m, n)) sight reads (wrapFrom m shape p) (wrapFrom n shape q)
  | aliased {paired : Bool} {marks : Option (Nat × Nat)} {k : Kind} {shape : Shape}
      {member : Kind → Bool} {p q : Parser Unit} (hshape : shape.isSpecial = false)
      (hrecipe : ∀ recipe, recipe? shape = some recipe → p = recipe.body ∧
        ∀ l, l = k ∨ member l = true → recipe.starts (.here l) = true)
      (hmember : member .pipe = false) (h : ∀ l, Alike both false none (.here l) true p q)
      (hpaired : ∀ l, l = k ∨ member l = true → Alike both paired none (.here l) true p q) :
      Alike both paired marks (.here k) true (aliased member (node shape p))
        (aliased member (node shape q))
  -- what is wrong
  | report {paired : Bool} {marks : Option (Nat × Nat)} (kind : DiagnosticKind) :
      Alike both paired marks .nothing false (report kind) (report kind)
  | reportWith {paired : Bool} {marks : Option (Nat × Nat)} (kind : DiagnosticKind)
      (detail : String) :
      Alike both paired marks .nothing false (reportWith kind detail) (reportWith kind detail)
  | refuse {paired : Bool} {marks : Option (Nat × Nat)} {sight : Sight} {k : Kind}
      (hsight : sight.first? = some k) (kind : DiagnosticKind) :
      Alike both paired marks sight true (refuse kind) (refuse kind)
  | refuseWith {paired : Bool} {marks : Option (Nat × Nat)} {sight : Sight} {k : Kind}
      (hsight : sight.first? = some k) (kind : DiagnosticKind) (detail : String) :
      Alike both paired marks sight true (refuseWith kind detail) (refuseWith kind detail)
  | recover {paired : Bool} {marks : Option (Nat × Nat)} (kind : DiagnosticKind) (detail : String) :
      Alike both paired marks .nothing false (recover kind detail) (recover kind detail)
  -- delimiters
  | pushOpener {marks : Option (Nat × Nat)} {sight : Sight} {reads : Bool} {β : Type}
      {f g : Unit → Parser β} (kind : Kind)
      (h : Alike both false marks sight.past reads (f ()) (g ())) :
      Alike both false marks sight reads (pushOpener kind >>= f) (pushOpener kind >>= g)
  | close {marks : Option (Nat × Nat)} {closer : Kind} (hcloser : closer ≠ .pipe)
      (kind : DiagnosticKind) :
      Alike both false marks .nothing false (close closer kind) (close closer kind)
  | grouped {marks : Option (Nat × Nat)} {sight : Sight} {reads reads' : Bool} {α : Type}
      {opening : Parser α} {p q : Parser Unit} (hopening : Opening sight opening)
      (hpaired : Alike both true marks .nothing reads' p q)
      (h : Alike both false marks sight reads (parens opening p) (parens opening q)) :
      Alike both true marks sight reads (parens opening p) (parens opening q)
  | balanced {marks : Option (Nat × Nat)}
      (h : Alike both false marks (.here .lparen) true balancedParens balancedParens) :
      Alike both true marks (.here .lparen) true balancedParens balancedParens
  -- commands and repetition
  | inCommand {paired : Bool} {marks : Option (Nat × Nat)} {sight : Sight} {reads : Bool}
      {p q : Parser Unit} (word : Option CommandWord)
      (h : Alike both paired marks sight reads p q) :
      Alike both paired marks sight reads (inCommand word p) (inCommand word q)
  | loop {paired : Bool} {marks : Option (Nat × Nat)} {sight : Sight} {reads : Bool} {σ : Type}
      {init : σ} {body body' : σ → Parser (ForInStep σ)}
      (hfirst : Alike both paired marks sight reads (body init) (body' init))
      (hothers : ∀ a, Alike both paired marks .nothing false (body a) (body' a)) :
      Alike both paired marks sight reads (loop init body) (loop init body')
  -- nested parts
  | descend {paired : Bool} {marks : Option (Nat × Nat)} {body : Inner → Parser Unit}
      (hbody : Nestable body) :
      Alike both paired marks .nothing false (descend both.left true body)
        (descend both.right true body)
  | subsearch {paired : Bool} {marks : Option (Nat × Nat)} :
      Alike both paired marks (.here .lbracket) true (subsearch both.left) (subsearch both.right)

end Grammar

end SplQuery

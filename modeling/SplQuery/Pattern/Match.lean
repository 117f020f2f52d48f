import SplQuery.Pattern.Extent

/-!
# Matching a pattern

All ways of matching are followed side by side. A `Progress` is one of them: how many tokens it
has passed and what it has bound; of two that have passed the same number the first one found is
kept. The `Trace` notes the furthest token that was refused and what would have been accepted in
its place.
-/

namespace SplQuery

open Catalog (FieldEffect)

/-- A parameter or an option with the tokens that it took. -/
structure Binding where
  name : String
  type : ParamType
  effect : FieldEffect
  text : String
  span : Span
  deriving DecidableEq, Repr

/-- What matching a pattern gave. -/
structure MatchResult where
  /-- every token was matched -/
  matched : Bool
  /-- the number of tokens that the best match took -/
  consumed : Nat
  bindings : List Binding
  /-- what could stand at the furthest place reached -/
  expected : List String
  error : Option String
  deriving DecidableEq, Repr

namespace MatchResult

/-- What is said of a token, or of the end, that cannot be matched. -/
def unexpected : Option String → String
  | some text => "unexpected \x60" ++ text ++ "\x60"
  | none => "unexpected end of stage"

/-- A failure at the first token. -/
def mismatch (found : Option String) (expected : List String) : MatchResult :=
  ⟨false, 0, [], expected, some (unexpected found)⟩

/-- The texts that were bound to parameters of an effect. -/
def textsWith (r : MatchResult) (effect : FieldEffect) : List String :=
  (r.bindings.filter (·.effect == effect)).map (·.text)

end MatchResult

namespace Pattern

/-- One way of matching so far. -/
structure Progress where
  /-- the number of tokens passed -/
  pos : Nat
  /-- what they were bound to, in order -/
  bindings : List Binding

/-- The furthest refusal. -/
structure Trace where
  /-- the number of tokens before it -/
  furthest : Nat
  /-- what would have been accepted there, each thing once -/
  expected : List String

/-- A step of matching, which may note refusals. -/
abbrev Matcher := StateM Trace

/-- Of several progresses at one place, the first. -/
def distinct (ps : List Progress) : List Progress :=
  ps.foldl (fun kept p => if kept.any (·.pos == p.pos) then kept else kept ++ [p]) []

/-- Notes that `what` would have been accepted at a place. -/
def refuse (pos : Nat) (what : String) : Matcher Unit := modify fun t =>
  let t : Trace := if pos > t.furthest then ⟨pos, []⟩ else t
  if pos == t.furthest && !t.expected.contains what then
    { t with expected := t.expected ++ [what] }
  else t

/-- Whether the token at a place has a given text, in any case. -/
def hasText (tokens : List Token) (pos : Nat) (text : String) : Bool :=
  (tokens[pos]?).any (Text.sameName ·.text text)

/-- The binding of `length` tokens from a place on. -/
def bind (tokens : List Token) (name : String) (type : ParamType) (effect : FieldEffect)
    (pos length : Nat) : Binding :=
  let taken := (tokens.drop pos).take length
  ⟨name, type, effect, Extent.joinText taken,
    ⟨taken.head?.elim 0 (·.start), taken.getLast?.elim 0 (·.stop)⟩⟩

/-- Follows a parameter to each place at which its value may end. -/
def followParam (tokens : List Token) (q : Param) (p : Progress) : Matcher (List Progress) := do
  let lengths := Extent.ofType q.type (tokens.drop p.pos)
  if lengths.isEmpty then
    refuse p.pos ("<" ++ q.name ++ ">")
  return lengths.map fun n =>
    ⟨p.pos + n, p.bindings ++ [bind tokens q.name q.type q.effect p.pos n]⟩

/-- Follows options as far as they go; answers every place passed, the last one first. `fuel`
bounds the number of options. -/
def followOptions (tokens : List Token) (offered : List OptionSpec) (fuel : Nat)
    (passed : List Progress) (p : Progress) : Matcher (List Progress) := do
  match fuel with
  | 0 => return p :: passed
  | fuel + 1 =>
    let ts := tokens.drop p.pos
    if !Extent.atOption ts then
      offered.forM fun o => refuse p.pos ("\x60" ++ o.name ++ "=\x60")
      return p :: passed
    match Extent.value? (ts.drop 2) with
    | none =>
      refuse (p.pos + 2) "<value>"
      return p :: passed
    | some n =>
      let name := (ts.head?.elim "" (·.text)).toLower
      let type := ((offered.find? (·.name == name)).map (·.type)).getD .any
      let binding := bind tokens name type .none (p.pos + 2) n
      followOptions tokens offered fuel (p :: passed) ⟨p.pos + 2 + n, p.bindings ++ [binding]⟩

/-- Follows one more repetition from each progress; `first` is the first repetition, before which
no separator stands. -/
def followItems (tokens : List Token) (item : Progress → Matcher (List Progress))
    (separator : Option String) (first : Bool) : List Progress → Matcher (List Progress)
  | [] => return []
  | p :: ps => do
    let separated := !first && separator.any (hasText tokens p.pos)
    let starts := if separated then [⟨p.pos + 1, p.bindings⟩, p] else [p]
    let ends ← starts.flatMapM item
    let rest ← followItems tokens item separator first ps
    return ends.filter (·.pos > p.pos) ++ rest

/-- Follows repetitions until none reaches a new place. `seen` are the places reached so far,
`found` the progresses after at least `min` repetitions, `fuel` bounds the repetitions. -/
def followRepeats (tokens : List Token) (item : Progress → Matcher (List Progress))
    (separator : Option String) (min : Nat) (fuel count : Nat) (seen : List Nat)
    (frontier found : List Progress) : Matcher (List Progress) := do
  match fuel with
  | 0 => return found
  | fuel + 1 =>
    if frontier.isEmpty then return found
    let reached ← followItems tokens item separator (count == 0) frontier
    let next := distinct (reached.filter fun p => !seen.contains p.pos)
    let found := if count + 1 ≥ min then found ++ next else found
    followRepeats tokens item separator min fuel (count + 1) (seen ++ next.map (·.pos)) next found

mutual

/-- Follows a pattern from a progress to all that it may become. -/
def follow (tokens : List Token) : Pattern → Progress → Matcher (List Progress)
  | .keyword text, p => do
    if hasText tokens p.pos text then return [⟨p.pos + 1, p.bindings⟩]
    refuse p.pos ("\x60" ++ text ++ "\x60")
    return []
  | .param q, p => followParam tokens q p
  | .seq items, p => followSeq tokens items [p]
  | .optional item, p => do
    let ps ← follow tokens item p
    return distinct (ps ++ [p])
  | .repeated item separator min, p => do
    let found ← followRepeats tokens (fun p => follow tokens item p) separator min
      (tokens.length + 2) 0 [p.pos] [p] (if min = 0 then [p] else [])
    return distinct found
  | .choice alternatives, p => do
    let ps ← followChoice tokens alternatives p
    return distinct ps
  | .options offered, p => followOptions tokens offered (tokens.length + 1) [] p

/-- Follows patterns one after another. -/
def followSeq (tokens : List Token) :
    List Pattern → List Progress → Matcher (List Progress)
  | [], ps => return ps
  | _, [] => return []
  | item :: items, ps => do
    let next ← ps.flatMapM (fun p => follow tokens item p)
    followSeq tokens items (distinct next)

/-- Follows each of several patterns. -/
def followChoice (tokens : List Token) :
    List Pattern → Progress → Matcher (List Progress)
  | [], _ => return []
  | item :: items, p => do
    let ps ← follow tokens item p
    let qs ← followChoice tokens items p
    return ps ++ qs

end

/-- The last of the progresses that have passed the most tokens. -/
def furthest? (ps : List Progress) : Option Progress :=
  ps.foldl (fun best p => if best.all (·.pos ≤ p.pos) then some p else best) none

/-- Matches tokens against a pattern. -/
def interpret (pattern : Pattern) (tokens : List Token) : MatchResult :=
  let (ps, trace) := (follow tokens pattern ⟨0, []⟩).run ⟨0, []⟩
  match ps.find? (·.pos == tokens.length) with
  | some p =>
    ⟨true, p.pos, p.bindings,
      if trace.furthest == tokens.length then trace.expected else [], none⟩
  | none =>
    let best := furthest? ps
    ⟨false, best.elim 0 (·.pos), best.elim [] (·.bindings), trace.expected,
      some (MatchResult.unexpected ((tokens[trace.furthest]?).map (·.text)))⟩

end Pattern

namespace CommandSyntax

/-- Whether a word is the command's name or an alias of it. -/
def hasName (s : CommandSyntax) (word : String) : Bool :=
  Text.sameName s.name word || s.aliases.any (Text.sameName · word)

/-- Matches the tokens of a whole stage, the command's name included. -/
def interpretStage (s : CommandSyntax) (tokens : List Token) : MatchResult :=
  match tokens with
  | t :: ts =>
    if s.hasName t.text then
      let r := s.pattern.interpret ts
      { r with consumed := r.consumed + 1 }
    else .mismatch (some t.text) ["\x60" ++ s.name ++ "\x60"]
  | [] => .mismatch none ["\x60" ++ s.name ++ "\x60"]

end CommandSyntax

end SplQuery

import Mathlib.Data.List.Forall2
import SplQuery.Meaning.Arguments

/-!
# Values among free arguments

A value by itself or one with another name is a word. Words are read one after another, and a loose
`as` between two of them is taken to give the first one the second as another name. Nothing is lost
by this if the first one has no other name yet and if there is a second one that stands by itself.
Otherwise the `as` is lost, and perhaps the name that the first one had.

* `Word.allKept` — nothing is lost.
* `Heard` — what is read so far.
* `Heard.exists_kept` — what is told of words, and whether anything is lost.
* `Arguments.flat_ofParts` — the words among the arguments of a command.
-/

namespace SplQuery

/-- A value among free arguments. -/
inductive Word where
  /-- a value by itself -/
  | loose (value : String)
  /-- a value with another name -/
  | renamed (value name : String)
  deriving DecidableEq, Repr

namespace Word

/-- The word as it is written. -/
def texts : Word → List String
  | .loose value => [value]
  | .renamed value name => [value, "as", name]

/-- What stands in front of a word. -/
inductive Place where
  /-- no other word -/
  | nothing
  /-- a value without another name -/
  | unnamed
  /-- a value with another name -/
  | named
  /-- an `as` behind a value without another name -/
  | naming
  deriving DecidableEq, Repr

/-- What stands in front of the next word, if nothing is lost by this one. -/
def Place.next? : Place → Word → Option Place
  | .naming, .renamed _ _ => none
  | _, .renamed _ _ => some .named
  | .nothing, .loose _ => some .unnamed
  | .naming, .loose _ => some .named
  | .unnamed, .loose value => some (if Text.sameName value "as" then .naming else .unnamed)
  | .named, .loose value => if Text.sameName value "as" then none else some .unnamed

/-- Nothing is lost of words: every loose `as` behind other words stands between a value without
another name and one by itself. -/
def allKept (place : Place) : List Word → Bool
  | [] => place != .naming
  | word :: words => (place.next? word).any fun next => allKept next words

/-- A text stands for what is written: it is the same, or both are the word `as`. -/
def Spells (text written : String) : Prop :=
  text = written ∨ text = "as" ∧ Text.sameName written "as" = true

/-- Texts stand for some of what is written, in order. -/
def Tells (texts written : List String) : Prop :=
  ∃ kept : List String, kept.Sublist written ∧ List.Forall₂ Spells texts kept

namespace Tells

variable {ts us ws xs : List String}

theorem refl (ts : List String) : Tells ts ts :=
  ⟨ts, .refl _, List.forall₂_same.mpr fun _ _ => .inl rfl⟩

theorem none (ws : List String) : Tells [] ws := ⟨[], ws.nil_sublist, .nil⟩

theorem append (h : Tells ts ws) (h' : Tells us xs) : Tells (ts ++ us) (ws ++ xs) := by
  obtain ⟨kept, hkept, hspells⟩ := h
  obtain ⟨more, hmore, hspells'⟩ := h'
  exact ⟨kept ++ more, hkept.append hmore, List.rel_append hspells hspells'⟩

/-- What is written behind does not matter. -/
theorem more (h : Tells ts ws) (xs : List String) : Tells ts (ws ++ xs) := by
  obtain ⟨kept, hkept, hspells⟩ := h
  exact ⟨kept, hkept.trans (List.sublist_append_left _ _), hspells⟩

end Tells

end Word

/-! ## Reading words -/

/-- A value as it is told, with `as` in front of its other name. -/
def RenamedField.texts (f : RenamedField) : List String :=
  f.field :: f.newName.elim [] fun name => ["as", name]

open Word

/-- The words that are read so far. -/
inductive Heard where
  /-- there are none -/
  | nothing
  /-- values, the last of which may have to be given another name -/
  | values (front : List RenamedField) (last : RenamedField) (naming : Bool)

namespace Heard

/-- The values. -/
def fields : Heard → List RenamedField
  | .nothing => []
  | .values front last _ => front ++ [last]

/-- The next value names the last. -/
def isNaming : Heard → Bool
  | .nothing => false
  | .values _ _ naming => naming

/-- The values as they are told. -/
def texts (h : Heard) : List String := h.fields.flatMap (·.texts)

/-- Reads a word. -/
def add : Heard → Word → Heard
  | .nothing, .loose value => .values [] ⟨value, none⟩ false
  | .nothing, .renamed value name => .values [] ⟨value, some name⟩ false
  | .values front last naming, .loose value =>
    if naming then .values front { last with newName := some value } false
    else if Text.sameName value "as" then .values front last true
    else .values (front ++ [last]) ⟨value, none⟩ false
  | .values front last naming, .renamed value name =>
    .values (front ++ [last]) ⟨value, some name⟩ naming

/-! ## What is told are words -/

/-- The last value stands among what is read, in front of its other name and of an `as` if there are
any, and behind what is told of the values before it. -/
inductive Told : Heard → List String → Prop
  | nothing : Told .nothing []
  | values {front : List RenamedField} {last : RenamedField} {naming : Bool}
      {before after : List String} (hfront : Tells (front.flatMap (·.texts)) before)
      (hname : ∀ name ∈ last.newName, Tells ["as", name] after)
      (hnaming : naming = true → Tells ["as"] after) :
      Told (.values front last naming) (before ++ last.field :: after)

variable {heard : Heard} {place : Place} {read : List String} {front : List RenamedField}
  {last : RenamedField} {naming : Bool} {word : Word}

theorem texts_values : (values front last naming).texts =
    front.flatMap (·.texts) ++ last.texts := by
  rw [texts, fields, List.flatMap_append, List.flatMap_singleton]

theorem Told.tells (h : Told heard read) : Tells heard.texts read := by
  cases h with
  | nothing => exact .none []
  | @values front last naming before after hfront hname hnaming =>
    rw [texts_values]
    have hlast : Tells (last.newName.elim [] (["as", ·])) after := by
      cases hnew : last.newName with
      | none => exact .none _
      | some name => exact hname name hnew
    exact hfront.append ((Tells.refl [last.field]).append hlast)

/-- Another value is read. -/
theorem Told.next (f : RenamedField) (more : List String)
    (h : Told (.values front last naming) read)
    (hname : ∀ name ∈ f.newName, Tells ["as", name] more)
    (hnaming : naming = true → Tells ["as"] more) :
    Told (.values (front ++ [last]) f naming) (read ++ f.field :: more) :=
  .values h.tells hname hnaming

theorem Told.add (h : Told heard read) (word : Word) :
    Told (heard.add word) (read ++ word.texts) := by
  have hother (name : String) : ∀ n ∈ some name, Tells ["as", n] ["as", name] := by
    rintro _ ⟨⟩
    exact .refl _
  cases h with
  | nothing =>
    cases word with
    | loose value => exact .values (.none []) nofun nofun
    | renamed value name => exact .values (.none []) (hother name) nofun
  | @values front last naming before after hfront hname hnaming =>
    cases word with
    | renamed value name =>
      exact (Told.values hfront hname hnaming).next ⟨value, some name⟩ ["as", name] (hother name)
        fun _ => (Tells.refl ["as"]).more [name]
    | loose value =>
      rw [List.append_assoc, List.cons_append]
      cases naming with
      | true =>
        -- the value is taken for the other name of the last one
        change Told (.values front { last with newName := some value } false) _
        refine .values hfront ?_ nofun
        rintro _ ⟨⟩
        exact (hnaming rfl).append (.refl [value])
      | false =>
        rw [Heard.add, if_neg Bool.false_ne_true]
        split
        · next has =>
          refine .values hfront (fun name hn => (hname name hn).more _) fun _ => ?_
          exact (Tells.none after).append ⟨[value], .refl _, .cons (.inr ⟨rfl, has⟩) .nil⟩
        · have hnext := (Told.values hfront hname hnaming).next ⟨value, none⟩ [] nofun nofun
          rwa [List.append_assoc] at hnext

/-- **What is told are words**, and they are in order. -/
theorem tells_fold (h : Told heard read) (words : List Word) :
    Tells (words.foldl add heard).texts (read ++ words.flatMap (·.texts)) := by
  induction words generalizing heard read with
  | nil =>
    rw [List.flatMap_nil, List.append_nil]
    exact h.tells
  | cons word words ih =>
    rw [List.flatMap_cons, ← List.append_assoc]
    exact ih (h.add word)

/-! ## How much is told -/

/-- What stands in front of the next word, if nothing has been lost. -/
def place? : Heard → Option Place
  | .nothing => some .nothing
  | .values _ ⟨_, none⟩ false => some .unnamed
  | .values _ ⟨_, some _⟩ false => some .named
  | .values _ ⟨_, none⟩ true => some .naming
  | .values _ ⟨_, some _⟩ true => none

/-- How much is told so far, an `as` among it that a value by itself may follow. -/
def size (h : Heard) : Nat := h.texts.length + if h.place? = some .naming then 1 else 0

theorem length_texts_le (heard : Heard) : heard.texts.length ≤ heard.size := Nat.le_add_right _ _

/-- Another value is told behind all that is told so far. -/
theorem length_texts_next (naming naming' : Bool) (f : RenamedField) :
    (values (front ++ [last]) f naming').texts.length =
      (values front last naming).texts.length + f.texts.length := by
  rw [texts_values, List.length_append]
  rfl

/-- The last value is told with another name. -/
theorem length_texts_name (naming naming' : Bool) (field name : String) :
    (values front ⟨field, some name⟩ naming').texts.length =
      (values front ⟨field, none⟩ naming).texts.length + 2 := by
  rw [texts_values, texts_values, List.length_append, List.length_append]
  rfl

theorem add_as {value : String} (h : Text.sameName value "as" = true) :
    (values front last false).add (.loose value) = values front last true := if_pos h

theorem add_loose {value : String} (h : ¬Text.sameName value "as" = true) :
    (values front last false).add (.loose value) =
      values (front ++ [last]) ⟨value, none⟩ false := if_neg h

/-- A word counts as much as is written if it may stand there, and less otherwise. -/
theorem size_add (h : heard.place? = some place) (word : Word) :
    match place.next? word with
    | some next => (heard.add word).place? = some next ∧
        (heard.add word).size = heard.size + word.texts.length
    | none => (heard.add word).size < heard.size + word.texts.length := by
  cases heard with
  | nothing =>
    obtain rfl := Option.some.inj h
    cases word <;> exact ⟨rfl, rfl⟩
  | values front last naming =>
    obtain ⟨field, newName⟩ := last
    cases word with
    | renamed value name =>
      rw [size, size, add, length_texts_next naming]
      cases newName <;> cases naming <;> cases h
      · exact ⟨rfl, rfl⟩
      · exact Nat.lt_succ_self _
      · exact ⟨rfl, rfl⟩
    | loose value =>
      cases newName <;> cases naming <;> cases h
      · by_cases has : Text.sameName value "as" = true
        · rw [add_as has, Place.next?, if_pos has]
          exact ⟨rfl, rfl⟩
        · rw [add_loose has, Place.next?, if_neg has, size, length_texts_next false]
          exact ⟨rfl, rfl⟩
      · refine ⟨rfl, ?_⟩
        change (values front ⟨field, some value⟩ false).size = _
        rw [size, length_texts_name true]
        rfl
      · by_cases has : Text.sameName value "as" = true
        · rw [add_as has, Place.next?, if_pos has]
          exact Nat.lt_succ_self _
        · rw [add_loose has, Place.next?, if_neg has, size, length_texts_next false]
          exact ⟨rfl, rfl⟩

/-- No word counts for more than is written. -/
theorem size_add_le (heard : Heard) (word : Word) :
    (heard.add word).size ≤ heard.size + word.texts.length := by
  cases h : heard.place? with
  | some place =>
    have hadd := size_add h word
    split at hadd
    · exact Nat.le_of_eq hadd.2
    · exact Nat.le_of_lt hadd
  | none =>
    obtain _ | ⟨front, ⟨field, _ | name⟩, _ | _⟩ := heard <;> cases h
    cases word with
    | loose value =>
      change (values front ⟨field, some value⟩ false).size ≤ _
      rw [size, size, length_texts_name true, length_texts_name true]
      exact Nat.le_succ _
    | renamed value name =>
      rw [size, size, add, length_texts_next true]
      exact Nat.le_refl _

theorem size_fold_le (heard : Heard) (words : List Word) :
    (words.foldl add heard).size ≤ heard.size + (words.flatMap (·.texts)).length := by
  induction words generalizing heard with
  | nil => exact Nat.le_refl _
  | cons word words ih =>
    rw [List.foldl_cons, List.flatMap_cons, List.length_append, ← Nat.add_assoc]
    exact Nat.le_trans (ih _) (Nat.add_le_add_right (size_add_le heard word) _)

/-- **As much is told as is written** if every loose `as` stands where it may, and only then. -/
theorem length_texts_fold {heard : Heard} {place : Place} (h : heard.place? = some place)
    (words : List Word) :
    (words.foldl add heard).texts.length = heard.size + (words.flatMap (·.texts)).length ↔
      allKept place words = true := by
  induction words generalizing heard place with
  | nil =>
    rw [List.foldl_nil, List.flatMap_nil, List.length_nil, Nat.add_zero, size, h, allKept,
      bne_iff_ne]
    by_cases hnaming : place = .naming
    · rw [if_pos (congrArg some hnaming)]
      exact ⟨fun heq => absurd heq (Nat.ne_of_lt (Nat.lt_succ_self _)),
        fun hne => absurd hnaming hne⟩
    · rw [if_neg fun heq => hnaming (Option.some.inj heq)]
      exact ⟨fun _ => hnaming, fun _ => rfl⟩
  | cons word words ih =>
    rw [List.foldl_cons, List.flatMap_cons, List.length_append, ← Nat.add_assoc, allKept]
    have hadd := size_add h word
    split at hadd
    · next next hnext =>
      rw [← hadd.2, ih hadd.1, hnext, Option.any_some]
    · next hnext =>
      have hle := Nat.le_trans (length_texts_le _) (size_fold_le (heard.add word) words)
      rw [hnext]
      exact ⟨fun heq => absurd heq (Nat.ne_of_lt (by omega)), nofun⟩

/-- **What is told of words** is as they are written if every loose `as` stands where it may, and
otherwise some of them are lost, but none is made up or moved. -/
theorem exists_kept (words : List Word) :
    ∃ kept : List String, kept.Sublist (words.flatMap (·.texts)) ∧
      List.Forall₂ Spells (words.foldl add .nothing).texts kept ∧
      (kept = words.flatMap (·.texts) ↔ allKept .nothing words = true) := by
  obtain ⟨kept, hsublist, hspells⟩ := tells_fold .nothing words
  refine ⟨kept, hsublist, hspells, ?_⟩
  rw [List.nil_append] at hsublist
  have hsize : Heard.nothing.size + (words.flatMap (·.texts)).length =
      (words.flatMap (·.texts)).length := Nat.zero_add _
  have hfold := length_texts_fold (rfl : Heard.nothing.place? = some .nothing) words
  rw [← hsublist.length_eq, ← hspells.length_eq, ← hfold, hsize]

end Heard

/-! ## Words among the arguments of a command -/

/-- A value by itself or with another name as a word. -/
def Placed.word? (p : Placed) : Option Word :=
  match p.shape? with
  | some .argument => some (.loose p.value)
  | some .aliasedField =>
    match p.childNodes with
    | value :: name :: _ => some (.renamed value.value name.value)
    | _ => none
  | _ => none

/-- The words directly under a node. -/
def Placed.words (p : Placed) : List Word := p.children.filterMap (·.word?)

theorem Placed.word?_eq_none {p : Placed} (hargument : p.shape? ≠ some .argument)
    (haliased : p.shape? ≠ some .aliasedField) : p.word? = none := by
  rw [word?]
  split
  · next h => exact absurd h hargument
  · next h => exact absurd h haliased
  · rfl

namespace Arguments

variable {a : Arguments} {p : Progress} {heard : Heard} {part : Part} {front : List RenamedField}
  {last : RenamedField}

theorem renamedFields_addPositional (q : Positional) :
    (a.addPositional q).renamedFields = a.renamedFields ++ [⟨q.value, q.newName⟩] :=
  List.map_append

theorem renamedFields_nameLast (h : a.renamedFields = front ++ [last]) (name : String) :
    (a.nameLast name).renamedFields = front ++ [{ last with newName := some name }] := by
  obtain ⟨qs, rs, hpositionals, rfl, hlast⟩ := List.map_eq_append_iff.mp h
  obtain ⟨q, rs, rfl, rfl, hnil⟩ := List.map_eq_cons_iff.mp hlast
  obtain rfl := List.map_eq_nil_iff.mp hnil
  rw [nameLast, hpositionals, List.getLast?_concat, List.dropLast_concat, renamedFields,
    List.map_append]
  rfl

theorem isEmpty_positionals (a : Arguments) :
    a.positionals.isEmpty = a.renamedFields.isEmpty := List.isEmpty_map.symm

/-- The words that are read are those that are told of. -/
structure Progress.Hears (p : Progress) (heard : Heard) : Prop where
  fields : p.arguments.renamedFields = heard.fields
  naming : p.naming = heard.isNaming

theorem Progress.Hears.addValue (h : p.Hears heard) (tree : Placed) :
    (p.addValue tree).Hears (heard.add (.loose tree.value)) := by
  obtain ⟨hfields, hnaming⟩ := h
  rw [Progress.addValue, hnaming, isEmpty_positionals, hfields]
  cases heard with
  | nothing =>
    have hempty : (!Heard.nothing.fields.isEmpty) = false := rfl
    rw [hempty, Bool.and_false, Bool.and_false, if_neg Bool.false_ne_true,
      if_neg Bool.false_ne_true]
    exact ⟨(renamedFields_addPositional _).trans (by rw [hfields]; rfl), rfl⟩
  | values front last naming =>
    have hne : (!(Heard.values front last naming).fields.isEmpty) = true := by
      cases front <;> rfl
    rw [hne, Bool.and_true, Bool.and_true]
    cases naming with
    | true => exact ⟨renamedFields_nameLast hfields _, rfl⟩
    | false =>
      rw [Heard.isNaming, if_neg Bool.false_ne_true]
      by_cases has : Text.sameName tree.value "as" = true
      · rw [if_pos has, Heard.add_as has]
        exact ⟨hfields, rfl⟩
      · rw [if_neg has, Heard.add_loose has]
        exact ⟨(renamedFields_addPositional _).trans (congrArg (· ++ _) hfields), rfl⟩

/-- What becomes of the words when one of the arguments is read. -/
theorem Progress.Hears.add (h : p.Hears heard)
    (hpart : part.tree.isNode .aliasedField = true →
      ∃ value name, part.tree.childNodes = [value, name]) :
    (p.add part).Hears (part.tree.word?.elim heard heard.add) := by
  have hother (hargument : part.tree.shape? ≠ some .argument)
      (haliased : part.tree.shape? ≠ some .aliasedField) {q : Progress}
      (hfields : q.arguments.renamedFields = p.arguments.renamedFields)
      (hnaming : q.naming = p.naming) : q.Hears (part.tree.word?.elim heard heard.add) := by
    rw [Placed.word?_eq_none hargument haliased]
    exact ⟨hfields.trans h.fields, hnaming.trans h.naming⟩
  have hof {shape : Shape} (hshape : part.tree.shape? = some shape) (hargument : shape ≠ .argument)
      (haliased : shape ≠ .aliasedField) {q : Progress}
      (hfields : q.arguments.renamedFields = p.arguments.renamedFields)
      (hnaming : q.naming = p.naming) : q.Hears (part.tree.word?.elim heard heard.add) := by
    rw [hshape] at hother
    exact hother (fun heq => hargument (Option.some.inj heq))
      (fun heq => haliased (Option.some.inj heq)) hfields hnaming
  simp only [Progress.add]
  split
  · next hshape =>
    refine hof hshape nofun nofun ?_ rfl
    cases part.tree.option? <;> rfl
  · next hshape =>
    rw [Placed.word?, hshape]
    exact h.addValue _
  · next hshape =>
    obtain ⟨value, name, hchildren⟩ := hpart (beq_iff_eq.mpr hshape)
    rw [Placed.word?, hshape, addAliased, hchildren]
    refine ⟨(renamedFields_addPositional _).trans ?_, h.naming.trans ?_⟩
    · rw [h.fields]
      cases heard <;> rfl
    · cases heard <;> rfl
  · next hshape => exact hof hshape nofun nofun rfl rfl
  · next hshape => exact hof hshape nofun nofun rfl rfl
  · next hshape => exact hof hshape nofun nofun rfl rfl
  · next hargument haliased _ _ _ => exact hother hargument haliased rfl rfl

/-- The words among the arguments of a command are read one after another. -/
theorem hears_ofParts {parts : List Part} (h : ∀ part ∈ parts,
    part.tree.isNode .aliasedField = true → ∃ value name, part.tree.childNodes = [value, name]) :
    (ofParts parts).renamedFields =
      ((parts.filterMap (·.tree.word?)).foldl Heard.add .nothing).fields := by
  have hfold {parts : List Part} {p : Progress} {heard : Heard} (hp : p.Hears heard)
      (h : ∀ part ∈ parts, part.tree.isNode .aliasedField = true →
        ∃ value name, part.tree.childNodes = [value, name]) :
      (parts.foldl Progress.add p).Hears
        ((parts.filterMap (·.tree.word?)).foldl Heard.add heard) := by
    induction parts generalizing p heard with
    | nil => exact hp
    | cons part parts ih =>
      obtain ⟨hpart, hparts⟩ := List.forall_mem_cons.mp h
      have hadd := ih (hp.add hpart) hparts
      rw [List.foldl_cons, List.filterMap_cons]
      cases hword : part.tree.word? <;> rw [hword] at hadd <;> exact hadd
  have hnone : (Progress.mk empty false).Hears .nothing := ⟨rfl, rfl⟩
  exact (hfold hnone h).fields

/-- What a command with free arguments keeps of them: its words and the fields to group by. -/
theorem flat_ofParts {parts : List Part} (h : ∀ part ∈ parts,
    part.tree.isNode .aliasedField = true → ∃ value name, part.tree.childNodes = [value, name]) :
    (ofParts parts).flat = ((parts.filterMap (·.tree.word?)).foldl Heard.add .nothing).texts ++
      (ofParts parts).byFields.map (·.name) := by
  rw [flat, Heard.texts, ← hears_ofParts h, renamedFields, List.flatMap_map]
  rfl

end Arguments

end SplQuery

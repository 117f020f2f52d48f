import SplQuery.Proofs.Delimiter.Paired
import SplQuery.Proofs.Extent.Tokens
import SplQuery.Proofs.Lexeme.Tokens

/-!
# Fields and values reach as far as they are measured

A field name and a value end where a lexeme does not follow without a space. Tokens tell this from
their places, which adjoin where the lexemes do.

* `Lexeme.tokens` — the tokens that lexemes are in a text.
* `Lexeme.Adjoining.head` — what touches a lexeme comes directly after it.
* `Grammar.Glued` — the pieces of a value.
* `Takes.fieldItem`, `Takes.gluedRun` — what the grammar reads.
* `Extent.field?_read`, `Extent.value?_read` — how it is measured.
-/

namespace SplQuery

open Delimiters State

namespace Lexeme

/-- The lexeme as a token of a text. -/
def token (text : List Char) (l : Lexeme) : Token := ⟨l.kind, l.text, Location.ofSpan text l.span⟩

/-- The tokens that lexemes are in a text. -/
def tokens (text : List Char) (ls : List Lexeme) : List Token := (solid ls).map (token text)

theorem tokens_tokenize (text : String) :
    (tokenize text).tokens = tokens text.toList (lex text) := rfl

section Tokens

variable {text : List Char} {l m : Lexeme} {ls ms : List Lexeme}

theorem tokens_append (ls ms : List Lexeme) :
    tokens text (ls ++ ms) = tokens text ls ++ tokens text ms := by
  rw [tokens, solid_append, List.map_append, tokens, tokens]

theorem tokens_cons (h : l.isTrivia = false) (ls : List Lexeme) :
    tokens text (l :: ls) = token text l :: tokens text ls := by
  rw [tokens, solid_cons h, List.map_cons, tokens]

theorem tokens_cons_of_trivia (h : l.isTrivia = true) (ls : List Lexeme) :
    tokens text (l :: ls) = tokens text ls := by
  rw [tokens, solid_cons_of_trivia h, tokens]

theorem kinds_tokens (ls : List Lexeme) : (tokens text ls).map (·.kind) = kinds ls := by
  rw [tokens, List.map_map, kinds]
  rfl

theorem touches_token : Extent.touches (token text l) (token text m) = (m.start == l.stop) := by
  rw [Extent.touches, Token.start, Token.stop, token, token, Location.span_ofSpan,
    Location.span_ofSpan]
  rfl

/-- The lexemes stand one after another, and none is empty. -/
structure Adjoining (ls : List Lexeme) : Prop where
  adjoin : ∃ start stop, Adjoin start ls stop
  filled : ∀ l ∈ ls, l.start < l.stop

theorem adjoining_lex (text : String) : Adjoining (lex text) :=
  ⟨⟨0, _, lex_adjoin text⟩, fun l hl => start_lt_stop (lex_ne_nil text l hl)⟩

theorem Adjoining.right (h : Adjoining (ls ++ ms)) : Adjoining ms := by
  obtain ⟨start, stop, hadjoin⟩ := h.adjoin
  obtain ⟨place, -, hms⟩ := adjoin_append_iff.mp hadjoin
  exact ⟨⟨place, stop, hms⟩, fun l hl => h.filled l (List.mem_append_right _ hl)⟩

theorem Adjoining.of_suffix (h : Adjoining ls) (hms : ms <:+ ls) : Adjoining ms := by
  obtain ⟨read, rfl⟩ := hms
  exact h.right

theorem Adjoining.touches (h : Adjoining (l :: m :: ls)) :
    Extent.touches (token text l) (token text m) = true := by
  obtain ⟨start, stop, -, hm, -⟩ := h.adjoin
  rw [touches_token, hm]
  exact beq_self_eq_true _

/-- What touches a lexeme comes directly after it. -/
theorem Adjoining.head (h : Adjoining (l :: ls)) {t : Token} (ht : t ∈ (tokens text ls).head?)
    (htouches : Extent.touches (token text l) t = true) :
    ∃ m ms, ls = m :: ms ∧ m.isTrivia = false ∧ t = token text m := by
  cases ls with
  | nil => cases ht
  | cons m ms =>
    refine ⟨m, ms, rfl, ?_⟩
    cases hm : m.isTrivia with
    | false =>
      rw [tokens_cons hm] at ht
      exact ⟨rfl, (Option.some.inj ht).symm⟩
    | true =>
      -- what comes after trivia starts behind it
      obtain ⟨start, stop, -, hadjoins, hms⟩ := h.adjoin
      rw [tokens_cons_of_trivia hm] at ht
      obtain ⟨n, hn, rfl⟩ := List.mem_map.mp (List.mem_of_mem_head? ht)
      have hbehind := (hms.start_le n (List.mem_of_mem_filter hn)).1
      have hfilled := h.filled m (List.mem_cons_of_mem _ List.mem_cons_self)
      rw [touches_token, beq_iff_eq] at htouches
      omega

end Tokens

end Lexeme

open Lexeme

theorem mem_head?_of_beginning {left ts : List Token} (h : left <+: ts) {t : Token}
    (ht : t ∈ left.head?) : t ∈ ts.head? := by
  obtain ⟨tail, rfl⟩ := h
  exact List.mem_head?_append_of_mem_head? ht

/-! ## What is read -/

namespace Grammar

/-- Lexemes of a class that are written directly after one another, and what follows is not such a
lexeme. -/
def Run (member : Kind → Bool) (read rest : List Lexeme) : Prop :=
  (∀ l ∈ read, l.isTrivia = false ∧ member l.kind = true) ∧
    ∀ l ∈ rest.head?, l.isTrivia = false → member l.kind = false

/-- A group whose first lexeme is the parenthesis. -/
def GluedGroup (read : List Lexeme) : Prop :=
  ∃ l inside m, read = l :: (inside ++ [m]) ∧ l.kind = .lparen ∧ InValue (kinds inside) ∧
    m.kind = .rparen

/-- The pieces of a value: lexemes that may be part of one, and groups. -/
inductive Glued : List Lexeme → Prop where
  | nil : Glued []
  | one {l : Lexeme} {ls : List Lexeme} (hglue : l.kind.isGlue = true) (h : Glued ls) :
      Glued (l :: ls)
  | group {l m : Lexeme} {inside ls : List Lexeme} (hopen : l.kind = .lparen)
      (hinside : InValue (kinds inside)) (hclose : m.kind = .rparen) (h : Glued ls) :
      Glued (l :: (inside ++ m :: ls))

theorem GluedGroup.ne_nil {read : List Lexeme} (h : GluedGroup read) : read ≠ [] := by
  obtain ⟨l, inside, m, rfl, -⟩ := h
  exact List.cons_ne_nil _ _

theorem GluedGroup.append {read more : List Lexeme} (h : GluedGroup read) (h' : Glued more) :
    Glued (read ++ more) := by
  obtain ⟨l, inside, m, rfl, hopen, hinside, hclose⟩ := h
  rw [List.cons_append, List.append_assoc]
  exact .group hopen hinside hclose h'

/-- The pieces of a value, and what follows is no such piece. -/
def WholeValue (read rest : List Lexeme) : Prop :=
  Glued read ∧ ∀ l ∈ rest.head?, l.isTrivia = false → l.kind ≠ .lparen ∧ l.kind.isGlue = false

end Grammar

namespace Takes

open SplQuery.Parser Grammar

variable {k : Kind}

theorem gluedWhile (member : Kind → Bool) :
    Takes (fun read _ rest => Run member read rest) .nothing (Grammar.gluedWhile member) := by
  refine whileTrue (touching (fun rest hrest => ⟨nofun, fun l hl hsolid => ?_⟩) fun k => ?_)
  · rw [hrest l hl] at hsolid
    cases hsolid
  · refine ite (fun hk => bumpThen rfl fun l hl hsolid => .pure fun rest => ?_)
      fun hk => directly rfl (.pure ?_)
    · refine ⟨List.cons_ne_nil _ _, fun more left _ hmore => ⟨?_, hmore.2⟩⟩
      refine List.forall_mem_cons.mpr ⟨⟨hsolid, ?_⟩, hmore.1⟩
      rw [hl]
      exact hk
    · rintro _ ⟨l, ls, rfl, hl, -⟩
      refine ⟨nofun, ?_⟩
      rintro _ ⟨⟩ -
      rw [hl]
      exact Bool.eq_false_iff.mpr hk

/-- A field name: its first lexeme, and the run of those that continue it. -/
theorem fieldItem : Takes (fun read _ rest => ∃ l run, read = l :: run ∧ l.kind = k ∧
    l.isTrivia = false ∧ Run Kind.continuesField run rest) (.here k) Grammar.fieldItem := by
  refine node _ (bumpThen rfl fun l hl hsolid => ?_)
  exact (gluedWhile Kind.continuesField).blind.mono fun run _ rest hrun =>
    ⟨l, run, rfl, hl, hsolid, hrun⟩

theorem balancedValue : Takes (fun read _ _ => GluedGroup read) (.here .lparen)
    Grammar.balancedParens := by
  refine directly rfl (balancedParens.mono fun read _ rest hgroup => ?_)
  rintro ⟨l, ls, hread, -, hl⟩
  obtain ⟨front, m, ks, rfl, hm, -, hkinds, hks⟩ := hgroup
  cases front with
  | nil => cases hkinds
  | cons first inside =>
    obtain rfl : first = l := (List.cons.inj hread).1
    rw [kinds_cons hl] at hkinds
    obtain ⟨hopen, rfl⟩ := List.cons.inj hkinds
    exact ⟨first, inside, m, rfl, hopen, hks, hm⟩

theorem gluedMore : Takes (fun read _ rest => WholeValue read rest) .nothing Grammar.gluedMore := by
  refine whileTrue (touching (fun rest hrest => ⟨.nil, fun l hl hsolid => ?_⟩) fun k => ?_)
  · rw [hrest l hl] at hsolid
    cases hsolid
  split
  · next h =>
    cases h
    refine balancedValue.bind fun read _ => .pure fun rest hgroup => ?_
    rw [List.append_nil]
    exact ⟨hgroup.ne_nil, fun more left _ hmore => ⟨hgroup.append hmore.1, hmore.2⟩⟩
  · next hopen h =>
    cases h
    refine ite (fun hk => bumpThen rfl fun l hl _ => .pure fun rest => ?_)
      fun hk => directly rfl (.pure ?_)
    · exact ⟨List.cons_ne_nil _ _, fun more left _ hmore => ⟨.one (hl ▸ hk) hmore.1, hmore.2⟩⟩
    · rintro _ ⟨l, ls, rfl, rfl, -⟩
      refine ⟨.nil, ?_⟩
      rintro _ ⟨⟩ -
      exact ⟨hopen, Bool.eq_false_iff.mpr hk⟩
  · next h => cases h

/-- A value begins with a lexeme that may be part of one, or with a group. -/
theorem gluedRun (hk : k = .lparen ∨ k.isGlue = true) :
    Takes (fun read _ rest => read ≠ [] ∧ WholeValue read rest) (.here k) Grammar.gluedRun := by
  refine look (f := fun l => if (l == some .lparen) = true then _ else _) rfl
    (ite (fun h => ?_) fun h => bumpThen rfl fun l hl _ => gluedMore.blind.mono ?_)
  · obtain rfl : k = .lparen := Option.some.inj (eq_of_beq h)
    refine balancedValue.bind fun read _ => gluedMore.mono fun more _ rest hmore hgroup => ?_
    exact ⟨List.append_ne_nil_of_left_ne_nil hgroup.ne_nil _, hgroup.append hmore.1, hmore.2⟩
  · intro more _ rest hmore
    have hglue := hk.resolve_left fun heq => h (beq_iff_eq.mpr (congrArg some heq))
    exact ⟨List.cons_ne_nil _ _, .one (hl ▸ hglue) hmore.1, hmore.2⟩

end Takes

/-! ## How it is measured -/

namespace Kind

theorem endsStage_of_isGlue {k : Kind} (h : k.isGlue = true) : k.endsStage = false := by
  cases k <;> first | rfl | cases h

theorem endsStage_of_startsField {k : Kind} (h : k.startsField = true) : k.endsStage = false := by
  cases k <;> first | rfl | cases h

theorem endsStage_of_continuesField {k : Kind} (h : k.continuesField = true) :
    k.endsStage = false := by
  cases k <;> first | rfl | cases h

theorem not_isTrivia_of_isGlue {k : Kind} (h : k.isGlue = true) : k.isTrivia = false := by
  cases k <;> first | rfl | cases h

end Kind

namespace Lexeme

theorem not_isTrivia_of_kind {l : Lexeme} {k : Kind} (h : l.kind = k) (hk : k.isTrivia = false) :
    l.isTrivia = false := by
  rw [isTrivia, h]
  exact hk

end Lexeme

namespace Extent

open Grammar

variable {text : List Char} {l : Lexeme} {read rest : List Lexeme} {left : List Token}

theorem glued_read {continues : Kind → Bool} (hadjoin : Adjoining (l :: (read ++ rest)))
    (hread : Run continues read rest) (hleft : left <+: tokens text rest) :
    glued continues (token text l) (tokens text read ++ left) = (tokens text read).length := by
  induction read generalizing l with
  | nil =>
    cases left with
    | nil => rfl
    | cons t left =>
      change glued continues (token text l) (t :: left) = 0
      rw [glued, if_neg]
      intro htouches
      obtain ⟨htouches, hcontinues⟩ := Bool.and_eq_true_iff.mp htouches
      obtain ⟨m, ms, rfl, hm, rfl⟩ := hadjoin.head (mem_head?_of_beginning hleft rfl) htouches
      exact Bool.false_ne_true ((hread.2 m rfl hm).symm.trans hcontinues)
  | cons m read ih =>
    obtain ⟨⟨hm, hcontinues⟩, hothers⟩ := List.forall_mem_cons.mp hread.1
    have hright : Adjoining (m :: (read ++ rest)) := hadjoin.of_suffix (List.suffix_cons _ _)
    rw [tokens_cons hm, List.cons_append, glued, hadjoin.touches, ih hright ⟨hothers, hread.2⟩]
    exact if_pos hcontinues

/-- A field name that is read is measured as it was read. -/
theorem field?_read (hadjoin : Adjoining (l :: (read ++ rest))) (hl : l.isTrivia = false)
    (hstarts : l.kind.startsField = true) (hread : Run Kind.continuesField read rest)
    (hleft : left <+: tokens text rest) :
    field? (tokens text (l :: read) ++ left) = some (tokens text (l :: read)).length := by
  rw [tokens_cons hl, List.cons_append, field?, run?, glued_read hadjoin hread hleft]
  exact if_pos hstarts

/-- The parentheses inside a value leave the groups around them as they are. -/
theorem level_of_inValue {inside : List Lexeme} (h : InValue (kinds inside)) :
    Level (tokens text inside) := by
  have hnested : Nested _ := h.1.nested_parens
  refine level_of_nested hnested ?_
  rw [kinds_tokens, List.filter_filter]
  congr 1
  funext k
  cases k <;> rfl

/-- What follows the pieces of a value is no such piece. -/
theorem valueRest_end (hadjoin : Adjoining (l :: rest))
    (hstop : ∀ m ∈ rest.head?, m.isTrivia = false → m.kind ≠ .lparen ∧ m.kind.isGlue = false)
    (hleft : left <+: tokens text rest) : valueRest (token text l) left = some 0 := by
  refine valueRest_stop fun t ht => ?_
  cases htouches : touches (token text l) t with
  | false => exact .inl rfl
  | true =>
    obtain ⟨m, ms, rfl, hm, rfl⟩ := hadjoin.head (mem_head?_of_beginning hleft ht) htouches
    exact .inr (hstop m rfl hm)

theorem valueRest_read (hglued : Glued read)
    (hstop : ∀ m ∈ rest.head?, m.isTrivia = false → m.kind ≠ .lparen ∧ m.kind.isGlue = false)
    (hleft : left <+: tokens text rest) :
    ∀ l, Adjoining (l :: (read ++ rest)) →
      valueRest (token text l) (tokens text read ++ left) = some (tokens text read).length := by
  induction hglued with
  | nil => exact fun l hadjoin => valueRest_end hadjoin hstop hleft
  | @one m ls hglue _ ih =>
    intro l hadjoin
    have hm : m.isTrivia = false := Kind.not_isTrivia_of_isGlue hglue
    rw [tokens_cons hm, List.cons_append, valueRest_glue hadjoin.touches hglue,
      ih m (hadjoin.of_suffix (List.suffix_cons _ _))]
    rfl
  | @group m n inside ls hopen hinside hclose _ ih =>
    intro l hadjoin
    have hm : m.isTrivia = false := not_isTrivia_of_kind hopen rfl
    have hn : n.isTrivia = false := not_isTrivia_of_kind hclose rfl
    have htail : Adjoining (n :: (ls ++ rest)) := by
      refine hadjoin.of_suffix ⟨l :: m :: inside, ?_⟩
      simp
    have htouches : touches (token text l) (token text m) = true := hadjoin.touches
    rw [tokens_cons hm, tokens_append, tokens_cons hn, List.cons_append, List.append_assoc,
      List.cons_append, valueRest_group htouches hopen (level_of_inValue hinside) hclose,
      ih n htail]
    simp
    omega

/-- A value that is read is measured as it was read. -/
theorem value?_read (hadjoin : Adjoining (read ++ rest)) (hne : read ≠ [])
    (hread : WholeValue read rest) (hleft : left <+: tokens text rest) :
    value? (tokens text read ++ left) = some (tokens text read).length := by
  obtain ⟨hglued, hstop⟩ := hread
  cases hglued with
  | nil => exact absurd rfl hne
  | @one m ls hglue h =>
    have hm : m.isTrivia = false := Kind.not_isTrivia_of_isGlue hglue
    rw [tokens_cons hm, List.cons_append, value?_glue hglue, valueRest_read h hstop hleft m hadjoin]
    rfl
  | @group m n inside ls hopen hinside hclose h =>
    have hm : m.isTrivia = false := not_isTrivia_of_kind hopen rfl
    have hn : n.isTrivia = false := not_isTrivia_of_kind hclose rfl
    have htail : Adjoining (n :: (ls ++ rest)) := by
      refine hadjoin.of_suffix ⟨m :: inside, ?_⟩
      simp
    rw [tokens_cons hm, tokens_append, tokens_cons hn, List.cons_append, List.append_assoc,
      List.cons_append, value?_group hopen (level_of_inValue hinside) hclose,
      valueRest_read h hstop hleft n htail]
    simp
    omega

/-- No stage ends inside the pieces of a value. -/
theorem inside_of_glued (h : Glued read) : ∀ k ∈ kinds read, k.endsStage = false := by
  induction h with
  | nil => exact nofun
  | one hglue _ ih =>
    rw [kinds_cons (Kind.not_isTrivia_of_isGlue hglue)]
    exact List.forall_mem_cons.mpr ⟨Kind.endsStage_of_isGlue hglue, ih⟩
  | group hopen hinside hclose _ ih =>
    rw [kinds_cons (not_isTrivia_of_kind hopen rfl), kinds_append,
      kinds_cons (not_isTrivia_of_kind hclose rfl), hopen, hclose]
    exact List.forall_mem_cons.mpr
      ⟨rfl, List.forall_mem_append.mpr ⟨hinside.2, List.forall_mem_cons.mpr ⟨rfl, ih⟩⟩⟩

theorem inside_of_run {l : Lexeme} (hl : l.kind.startsField = true)
    (h : Run Kind.continuesField read rest) :
    ∀ k ∈ kinds (l :: read), k.endsStage = false := by
  intro k hk
  obtain ⟨m, hm, rfl⟩ := List.mem_map.mp hk
  obtain rfl | hm := List.mem_cons.mp (List.mem_of_mem_filter hm)
  · exact Kind.endsStage_of_startsField hl
  · exact Kind.endsStage_of_continuesField (h.1 m hm).2

end Extent

end SplQuery

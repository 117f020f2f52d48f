import SplQuery.Proofs.Reading.Loud
import SplQuery.Proofs.Silent.State

/-!
# White space in a regex stage

A `regex` stage names a field and an operator in front of its pattern. Whether it does is found past
trivia, but the two are then read as they stand: the lexeme directly after the field is taken for
the operator. So trivia between the operator and the pattern does not matter, and trivia between the
field and the operator makes the stage wrong, since the operator is then found where the pattern
should be.

* `Grammar.regexBody_adds` — a field and an operator that touch are read, and the pattern.
* `Grammar.regexBody_loud` — a field and an operator that do not touch are not understood.
* `parseQuery_regex` — where a stage with a field, an operator and a pattern may have trivia.
-/

namespace SplQuery

namespace Grammar

open SplQuery.Parser State Lexeme

variable {s : State} {w op str : Lexeme} {ls : List Lexeme}

/-- The operators that a regex stage may have after its field. -/
def isRegexOperator (k : Kind) : Bool := k == .equals || k == .notEquals

theorem isTrivia_of_isRegexOperator (h : isRegexOperator op.kind = true) :
    op.isTrivia = false := by
  rcases Bool.or_eq_true_iff.mp h with h | h <;> rw [Lexeme.isTrivia, eq_of_beq h] <;> rfl

theorem regexPattern_adds (hs : s.coming = [str.entry]) (hstr : str.kind = .stringLiteral) :
    Ends regexPattern s fun _ t => Adds [leaf str] s t := by
  have hentry : s.coming = [(.stringLiteral, str.text)] := by rw [hs, Lexeme.entry, hstr]
  refine (Adds.refl s).asks_current fun t ht => ?_
  rw [next?_of_coming hentry, leaf, hstr]
  exact (bump_adds ht.ready (ht.coming.trans hentry)).mono fun _ _ hu => ht.then hu

/-- An operator is no pattern. -/
theorem regexPattern_loud (hs : s.Quiet) {k : Kind} (hnext : s.next? = some k)
    (hk : isRegexOperator k = true) : Ends regexPattern s fun _ t => t.Loud := by
  refine (settles_of_agree .current (current_looks s)).bind fun l t ⟨⟨hl, ht⟩, hst⟩ => ?_
  rw [hl, hnext]
  have hquiet : t.Quiet := hs.adds hst ht.adds
  have hloud : (reportWith .expectedString "regular expression" t).2.Loud :=
    hquiet.loud_of_told (congrArg (·.2.notes) (reportWith_eq _ _ t))
  rcases Bool.or_eq_true_iff.mp hk with h | h <;> obtain rfl := eq_of_beq h <;> exact hloud

theorem isIn_looks (member : Kind → Bool) (s : State) :
    Ends (isIn member) s fun b t => b = s.next?.any member ∧ Looks s t :=
  (Adds.refl s).asks_isIn fun _ ht => .pure ⟨rfl, ht⟩

theorem ahead_looks (s : State) : Ends Parser.ahead s fun k t => k = s.second? ∧ Looks s t :=
  (Adds.refl s).asks_ahead fun _ ht => .pure ⟨rfl, ht⟩

/-- A field and an operator are seen, whatever trivia there is between them. -/
theorem regexBody_sees {es : List (Kind × String)} {Q : Unit → State → Prop}
    (hs : s.coming = w.entry :: op.entry :: es) (hw : w.kind.isWord = true)
    (hop : isRegexOperator op.kind = true)
    (h : ∀ t, Looks s t → s.Settles t → Ends (do bump; bump; regexPattern) t Q) :
    Ends regexBody s Q := by
  have hisIn : Agree .nothing (isIn Kind.isWord) (isIn Kind.isWord) :=
    Agree.current.bind fun _ => .pure _
  have hahead : Agree .nothing Parser.ahead Parser.ahead := .of_notes fun _ => rfl
  refine (settles_of_agree hisIn (isIn_looks _ s)).bind fun b t ⟨⟨hb, ht⟩, hst⟩ => ?_
  rw [hb, next?_of_coming hs, Option.any_some, hw, if_pos rfl]
  refine (settles_of_agree hahead (ahead_looks t)).bind fun k u ⟨⟨hk, hu⟩, htu⟩ => ?_
  have hsecond : k.any (fun k => k == .equals || k == .notEquals) = true := by
    rw [hk, second?_of_coming (ht.coming.trans hs), List.head?_cons, Option.map_some,
      Option.any_some]
    exact hop
  rw [hsecond]
  exact h u (ht.adds.looks hu) (hst.trans htu)

/-- Where the operator stands directly after the field, both are read, and the pattern after
them. -/
theorem regexBody_adds (hs : s.coming = [w.entry, op.entry, str.entry])
    (hw : w.kind.isWord = true) (hop : isRegexOperator op.kind = true)
    (hstr : str.kind = .stringLiteral) (hrest : ∀ t, Looks s t → t.rest = w :: op :: ls) :
    Ends regexBody s fun _ t => Adds [leaf w, leaf op, leaf str] s t := by
  refine regexBody_sees hs hw hop fun t ht _ => ?_
  have ht' : t.coming = [w.entry, op.entry, str.entry] := ht.coming.trans hs
  have hread : t.bump.rest = op :: ls := by rw [bump_of_cons (hrest t ht)]
  have hready : t.bump.Ready := by
    intro l hl
    rw [hread] at hl
    obtain rfl := Option.some.inj hl
    exact isTrivia_of_isRegexOperator hop
  have hfield : Adds [leaf w] t t.bump := bump_adds ht.ready ht'
  refine Ends.bind (P := fun _ u => u = t.bump) (.modify rfl) ?_
  rintro _ _ rfl
  have hafter : t.bump.coming = [op.entry, str.entry] := hfield.coming_eq ht'
  refine (bump_adds hready hafter).bind fun _ u hu => ?_
  have hlast : u.coming = [str.entry] := hu.coming_eq hafter
  exact (regexPattern_adds hlast hstr).mono fun _ _ hv => ht.then (hfield.trans (hu.trans hv))

/-- Where there is trivia after the field, that is read in place of the operator, which is then
found where the pattern should be. -/
theorem regexBody_loud {l : Lexeme} (hquiet : s.Quiet)
    (hs : s.coming = [w.entry, op.entry, str.entry]) (hw : w.kind.isWord = true)
    (hop : isRegexOperator op.kind = true) (hl : l.isTrivia = true)
    (hrest : ∀ t, Looks s t → t.rest = w :: l :: ls) : Ends regexBody s fun _ t => t.Loud := by
  refine regexBody_sees hs hw hop fun t ht hst => ?_
  have ht' : t.coming = [w.entry, op.entry, str.entry] := ht.coming.trans hs
  have hread : t.bump.rest = l :: ls := by rw [bump_of_cons (hrest t ht)]
  have hfield : Adds [leaf w] t t.bump := bump_adds ht.ready ht'
  have hnext : t.bump.bump.next? = some op.kind := by
    have hafter : t.bump.coming = [op.entry, str.entry] := hfield.coming_eq ht'
    rw [bump_of_cons hread, next?_eq]
    rw [State.coming, State.ahead, hread,
      List.filter_cons_of_neg (by rw [hl]; exact Bool.false_ne_true)] at hafter
    change ((ls.filter (!·.isTrivia)).map Lexeme.entry).head?.map (·.1) = _
    rw [hafter]
    rfl
  exact regexPattern_loud (hquiet.adds hst ht.adds).bump.bump hnext hop

/-! ## What the stage means -/

/-- What is read off a regex command, from the lexemes directly under it. -/
theorem regexCommand_of_lexemes {p : Placed} {r a o c : Lexeme}
    (hp : p.lexemes = [r, a, o, c]) (hr : r.kind = .command .regex) (ha : a.kind.isWord = true)
    (ho : isRegexOperator o.kind = true) (hc : c.kind = .stringLiteral) :
    Meaning.regexCommand p = .regex a.text (o.kind == .notEquals) (Text.unquote c.text) := by
  have hother {k : Kind} (hk : k.isWord = false) : (a.kind == k) = false := by
    rw [beq_eq_false_iff_ne]
    rintro rfl
    rw [ha] at hk
    cases hk
  have hnotEquals := hother (k := .notEquals) rfl
  have hequals := hother (k := .equals) rfl
  have hstring := hother (k := .stringLiteral) rfl
  rcases Bool.or_eq_true_iff.mp ho with h | h <;>
    simp [Meaning.regexCommand, Meaning.quotedText?, Placed.lexemeOf?, hp, hr, hc, eq_of_beq h,
      hnotEquals, hequals, hstring]

theorem meaning_regexCommand {p : Placed} {v : String} (hw : w.kind.isWord = true)
    (hop : isRegexOperator op.kind = true) (hstr : str.kind = .stringLiteral)
    (hp : p.bare = [commandTree .regex v [leaf w, leaf op, leaf str]]) :
    ∃ c, p.meaning = .command c ∧ c = .simple
      (.regex w.text (op.kind == .notEquals) (Text.unquote str.text)) := by
  obtain ⟨span, core?, ps, qs, rfl, hsolid, hqs⟩ := Placed.node_of_bare hp
  obtain _ | @⟨a, _, _, _, ha, _ | @⟨b, _, _, _, hb, _ | @⟨c, _, _, _, hc,
    _ | @⟨d, _, _, _, hd, _ | _⟩⟩⟩⟩ := hqs
  obtain ⟨⟨i, rfl⟩, -⟩ := Placed.leaf_of_bare ha
  obtain ⟨⟨j, rfl⟩, hfield⟩ := Placed.leaf_of_bare hb
  obtain ⟨⟨m, rfl⟩, hoperator⟩ := Placed.leaf_of_bare hc
  obtain ⟨⟨n, rfl⟩, hpattern⟩ := Placed.leaf_of_bare hd
  have hlexemes : (Placed.node span core? .regexCommand ps).lexemes =
      [⟨.command .regex, i.start, v⟩, ⟨w.kind, j.start, w.text⟩, ⟨op.kind, m.start, op.text⟩,
        ⟨str.kind, n.start, str.text⟩] := by
    have hleaf {k : Kind} (hk : k.isTrivia = false) (place : Span) (u : String) :
        (Placed.leaf place k u).lexeme? = some ⟨k, place.start, u⟩ :=
      if_neg (Bool.eq_false_iff.mp hk)
    rw [Placed.lexemes_eq, hsolid, List.filterMap_cons_some (hleaf rfl i v),
      List.filterMap_cons_some (hleaf hfield j _), List.filterMap_cons_some (hleaf hoperator m _),
      List.filterMap_cons_some (hleaf hpattern n _), List.filterMap_nil]
  have hcommand := regexCommand_of_lexemes hlexemes rfl hw hop hstr
  exact ⟨_, rfl, congrArg Command.simple hcommand⟩

end Grammar

open State Lexeme Grammar

/-- The lexemes of a query that is a regex stage with a field, an operator and a pattern. There may
be trivia anywhere, but no garbage: `gap` is between the field and the operator, `gap'` between the
operator and the pattern. -/
structure RegexStage (ls : List Lexeme) (w op str : Lexeme) (gap gap' : List Lexeme) : Prop where
  split : ∃ front tail, ls = front ++ w :: (gap ++ op :: (gap' ++ str :: tail)) ∧
    kinds front = [.pipe, .command .regex] ∧ kinds tail = []
  field : w.kind.isWord = true
  operator : isRegexOperator op.kind = true
  pattern : str.kind = .stringLiteral
  gap : kinds gap = []
  gap' : kinds gap' = []
  clean : ∀ l ∈ ls, l.kind ≠ .garbage

namespace RegexStage

variable {ls gap gap' tail : List Lexeme} {w op str : Lexeme}

theorem solid_of_kinds {ms : List Lexeme} (h : kinds ms = []) : solid ms = [] :=
  List.map_eq_nil_iff.mp h

theorem isTrivia_field (h : RegexStage ls w op str gap gap') : w.isTrivia = false := by
  have hw := h.field
  rw [Lexeme.isTrivia]
  cases hk : w.kind <;> rw [hk] at hw <;> first | rfl | cases hw

/-- After the word of the command there come the field, the operator and the pattern. -/
theorem solid_args (h : RegexStage ls w op str gap gap') (htail : kinds tail = []) :
    solid (w :: (gap ++ op :: (gap' ++ str :: tail))) = [w, op, str] := by
  have hop : op.isTrivia = false := isTrivia_of_isRegexOperator h.operator
  have hstr : str.isTrivia = false := by
    rw [Lexeme.isTrivia, h.pattern]
    rfl
  rw [solid_cons h.isTrivia_field, solid_append, solid_of_kinds h.gap, List.nil_append,
    solid_cons hop, solid_append, solid_of_kinds h.gap', List.nil_append, solid_cons hstr,
    solid_of_kinds htail]

theorem coming_start (h : RegexStage ls w op str gap gap') (stop : Nat) :
    ∃ v r, (start ls stop).coming =
      (.pipe, v) :: (.command .regex, r) :: [w.entry, op.entry, str.entry] := by
  obtain ⟨front, tail, rfl, hfront, htail⟩ := h.split
  obtain ⟨p, ps, hp, hpipe, hps⟩ := List.map_eq_cons_iff.mp hfront
  obtain ⟨r, rs, rfl, hr, hrs⟩ := List.map_eq_cons_iff.mp hps
  obtain rfl := List.map_eq_nil_iff.mp hrs
  refine ⟨p.text, r.text, ?_⟩
  change (solid (front ++ _)).map entry = _
  rw [solid_append, hp, h.solid_args htail, ← hpipe, ← hr]
  rfl

/-- What is left where the field is next. -/
theorem rest_eq (h : RegexStage ls w op str gap gap') :
    ∃ tail, ∀ s t : State, s.coming = [w.entry, op.entry, str.entry] → s.rest <:+ ls →
      Looks s t → t.rest = w :: (gap ++ op :: (gap' ++ str :: tail)) := by
  obtain ⟨front, tail, rfl, -, htail⟩ := h.split
  refine ⟨tail, fun s t hcoming hs ht => ?_⟩
  refine ht.ready.rest_eq (ht.adds.rest.trans hs) (List.suffix_append _ _) h.isTrivia_field ?_
  rw [ht.coming, hcoming, h.solid_args htail]
  rfl

end RegexStage

/-- A query that is a regex stage with a field, an operator and a pattern is without errors exactly
when nothing stands between the field and the operator. Then it is the command that has that field,
that is negated if the operator is `!=`, and that has the pattern without its quotes, whatever
trivia there is elsewhere. -/
theorem parseQuery_regex {text : String} {gap gap' : List Lexeme} {w op str : Lexeme}
    (limit : Nat) (h : RegexStage (lex text) w op str gap gap') :
    ((parseQuery text limit).success = true ↔ gap = []) ∧
      (gap = [] → ∃ span, (parseQuery text limit).query.stages = [.command (.simple
        (.regex w.text (op.kind == .notEquals) (Text.unquote str.text))) span]) := by
  obtain ⟨v, r, hcoming⟩ := h.coming_start text.utf8ByteSize
  obtain ⟨tail, hrest⟩ := h.rest_eq
  cases gap with
  | nil =>
    have hbody : ReadsBody (belowAt limit) .regex [leaf w, leaf op, leaf str]
        (start (lex text) text.utf8ByteSize) := by
      intro t ht hsuffix
      exact regexBody_adds ht h.field h.operator h.pattern fun u hu => hrest t u ht hsuffix hu
    obtain ⟨hdiagnostics, hbare⟩ := Parse.ofLexemes_of_adds text.utf8ByteSize hcoming hbody
    have htree : (parseQuery text limit).tree.bare = _ := (Placed.bare_place _ 0).trans hbare
    obtain ⟨_, span, hstages, rfl⟩ := stages_of_bare htree fun q hq =>
      meaning_regexCommand h.field h.operator h.pattern hq
    refine ⟨iff_of_true ?_ rfl, fun _ => ⟨span, hstages⟩⟩
    exact ParsedQuery.success_iff.mpr ⟨lexErrors_eq_nil h.clean, hdiagnostics⟩
  | cons l gap =>
    have hl : l.isTrivia = true := by
      have hnot := List.filter_eq_nil_iff.mp (RegexStage.solid_of_kinds h.gap) l List.mem_cons_self
      simpa using hnot
    have hbody : LoudBody (belowAt limit) .regex [w.entry, op.entry, str.entry]
        (start (lex text) text.utf8ByteSize) := by
      intro t hquiet ht hsuffix
      exact regexBody_loud hquiet ht h.field h.operator hl fun u hu => hrest t u ht hsuffix hu
    have hloud : (parseQuery text limit).diagnostics ≠ [] :=
      Parse.ofLexemes_of_loud text.utf8ByteSize hcoming hbody
    have hnot : ¬l :: gap = [] := List.cons_ne_nil l gap
    refine ⟨iff_of_false (fun hsuccess => hloud ?_) hnot, fun hnil => absurd hnil hnot⟩
    exact (ParsedQuery.success_iff.mp hsuccess).2

namespace RegexStage

/-- The field of a regex stage. -/
def host : Lexeme := ⟨.identifier, 8, "host"⟩

/-- What stands in front of the field. -/
def front : List Lexeme :=
  [⟨.pipe, 0, "|"⟩, ⟨.whitespace, 1, " "⟩, ⟨.command .regex, 2, "regex"⟩, ⟨.whitespace, 7, " "⟩]

/-- A comment between the operator and the pattern. -/
theorem sample : RegexStage (lex "| regex host!=\x60\x60\x60not\x60\x60\x60\"^web\"") host
    ⟨.notEquals, 12, "!="⟩ ⟨.stringLiteral, 23, "\"^web\""⟩ []
    [⟨.comment, 14, "\x60\x60\x60not\x60\x60\x60"⟩] := by
  have hlex : lex "| regex host!=\x60\x60\x60not\x60\x60\x60\"^web\"" = front ++ [host,
      ⟨.notEquals, 12, "!="⟩, ⟨.comment, 14, "\x60\x60\x60not\x60\x60\x60"⟩,
      ⟨.stringLiteral, 23, "\"^web\""⟩] := by
    decide +kernel
  refine ⟨⟨front, [], hlex, by decide, rfl⟩, rfl, rfl, rfl, rfl, rfl, ?_⟩
  rw [hlex]
  decide

/-- Blanks around the operator. -/
theorem spaced : RegexStage (lex "| regex host = \"^web\"") host ⟨.equals, 13, "="⟩
    ⟨.stringLiteral, 15, "\"^web\""⟩ [⟨.whitespace, 12, " "⟩] [⟨.whitespace, 14, " "⟩] := by
  have hlex : lex "| regex host = \"^web\"" = front ++ [host, ⟨.whitespace, 12, " "⟩,
      ⟨.equals, 13, "="⟩, ⟨.whitespace, 14, " "⟩, ⟨.stringLiteral, 15, "\"^web\""⟩] := by
    decide +kernel
  refine ⟨⟨front, [], hlex, by decide, rfl⟩, rfl, rfl, rfl, rfl, rfl, ?_⟩
  rw [hlex]
  decide

end RegexStage

theorem parseQuery_regex_sample :
    RegexStage (lex "| regex host!=\x60\x60\x60not\x60\x60\x60\"^web\"") RegexStage.host
        ⟨.notEquals, 12, "!="⟩ ⟨.stringLiteral, 23, "\"^web\""⟩ []
        [⟨.comment, 14, "\x60\x60\x60not\x60\x60\x60"⟩] ∧
      (parseQuery "| regex host!=\x60\x60\x60not\x60\x60\x60\"^web\"" 128).success = true ∧
      ∃ span, (parseQuery "| regex host!=\x60\x60\x60not\x60\x60\x60\"^web\"" 128).query.stages =
        [.command (.simple (.regex "host" true (Text.unquote "\"^web\""))) span] := by
  obtain ⟨hsuccess, hstages⟩ := parseQuery_regex 128 RegexStage.sample
  exact ⟨RegexStage.sample, hsuccess.mpr rfl, hstages rfl⟩

/-- With blanks around the operator a regex stage is wrong, and neither its field nor its pattern is
read. -/
theorem parseQuery_regex_spaced :
    RegexStage (lex "| regex host = \"^web\"") RegexStage.host ⟨.equals, 13, "="⟩
        ⟨.stringLiteral, 15, "\"^web\""⟩ [⟨.whitespace, 12, " "⟩] [⟨.whitespace, 14, " "⟩] ∧
      (parseQuery "| regex host = \"^web\"" 128).success = false ∧
      ((parseQuery "| regex host = \"^web\"" 128).query.stages.any fun stage =>
        stage matches .command (.simple (.regex "_raw" false "")) _) = true :=
  ⟨RegexStage.spaced, by decide +kernel⟩

end SplQuery

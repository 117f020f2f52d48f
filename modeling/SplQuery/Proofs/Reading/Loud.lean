import SplQuery.Proofs.Limit.Raised
import SplQuery.Proofs.Reading.Query

/-!
# Queries of one command that is not understood

A query that is a pipe and one command is read up to the arguments of the command without a note.
If something is found wrong with the arguments, then something is found wrong with the query,
whatever comes after them.

* `Lexeme.rest_unique` — which lexemes are left can be told from how many there are.
* `Grammar.LoudBody` — arguments with which something is wrong.
* `ofLexemes_of_loud` — what is wrong with the arguments is wrong with the query.
-/

namespace SplQuery

/-! ## What is left -/

namespace Lexeme

variable {as bs ls : List Lexeme}

theorem eq_of_solid_suffix (h : as <:+ bs) (hb : ∀ l ∈ bs.head?, l.isTrivia = false)
    (hlength : (solid as).length = (solid bs).length) : as = bs := by
  obtain ⟨read, rfl⟩ := h
  cases read with
  | nil => rfl
  | cons l read =>
    have hl : l.isTrivia = false := hb l rfl
    rw [List.cons_append, solid_cons hl, solid_append, List.length_cons, List.length_append]
      at hlength
    omega

/-- Two ends of the same lexemes that begin with no trivia are the same if they have as many
lexemes that are none. -/
theorem rest_unique (ha : as <:+ ls) (hb : bs <:+ ls) (has : ∀ l ∈ as.head?, l.isTrivia = false)
    (hbs : ∀ l ∈ bs.head?, l.isTrivia = false) (hlength : (solid as).length = (solid bs).length) :
    as = bs := by
  rcases List.suffix_or_suffix_of_suffix ha hb with h | h
  · exact eq_of_solid_suffix h hbs hlength
  · exact (eq_of_solid_suffix h has hlength.symm).symm

end Lexeme

/-- The lexemes that are left, told from how many there are. -/
theorem State.Ready.rest_eq {s : State} {l : Lexeme} {ls ms : List Lexeme} (hs : s.Ready)
    (hrest : s.rest <:+ ls) (hms : l :: ms <:+ ls) (hl : l.isTrivia = false)
    (hlength : s.coming.length = (Lexeme.solid (l :: ms)).length) : s.rest = l :: ms := by
  refine Lexeme.rest_unique hrest hms hs (fun m hm => Option.some.inj hm ▸ hl) ?_
  rw [← hlength, State.coming, List.length_map]
  rfl

/-! ## Quiet steps -/

namespace State

variable {s t : State} {ts : List Tree}

theorem quiet_start (lexemes : List Lexeme) (stop : Nat) : (start lexemes stop).Quiet := ⟨rfl, rfl⟩

/-- A step that reads what it is to read leaves a quiet state quiet. -/
theorem Quiet.adds (hs : s.Quiet) (hsettles : s.Settles t) (h : Adds ts s t) : t.Quiet := by
  rcases hsettles.quiet hs with hloud | hquiet
  · exact absurd (h.reports.trans hs.reports) hloud
  · exact hquiet

theorem Quiet.bump (hs : s.Quiet) : s.bump.Quiet :=
  ⟨(congrArg Notes.reports (notes_bump s)).trans hs.reports,
    (congrArg Notes.lastReport (notes_bump s)).trans hs.lastReport⟩

theorem Quiet.opened (hs : s.Quiet) : (Parser.opened s).Quiet := ⟨hs.reports, hs.lastReport⟩

theorem Quiet.entered (word : Option CommandWord) (hs : s.Quiet) : (Parser.entered word s).Quiet :=
  ⟨hs.reports, hs.lastReport⟩

end State

namespace Grammar

open SplQuery.Parser State

variable {below : Option Inner} {word : CommandWord} {s : State} {w v : String}
  {es : List (Kind × String)}

theorem settles_of_agree {α : Type} {p : Parser α} (h : Agree .nothing p p) {s : State}
    {P : α → State → Prop} (hp : Ends p s P) : Ends p s fun a t => P a t ∧ s.Settles t :=
  ⟨hp, h.settles s⟩

/-- What is wrong with the arguments that are to come is noted. -/
def LoudBody (below : Option Inner) (word : CommandWord) (es : List (Kind × String)) (s : State) :
    Prop :=
  ∀ t, t.Quiet → t.coming = es → t.rest <:+ s.rest → Ends (bodyOf below word) t fun _ u => u.Loud

theorem LoudBody.of_suffix {t : State} (h : LoudBody below word es s) (hrest : t.rest <:+ s.rest) :
    LoudBody below word es t :=
  fun u hquiet hu hsuffix => h u hquiet hu (hsuffix.trans hrest)

theorem agree_finishStage : Agree .nothing finishStage finishStage := by
  refine Agree.atStageEnd.bind fun b => .ite (.pure _) ?_
  exact (Agree.of_notes fun _ => rfl).bind fun _ => .recover _ _

theorem command_loud (hs : s.Quiet) (hcoming : s.coming = (.command word, w) :: es)
    (hbody : LoudBody below word es s) : Ends (command below word) s fun _ t => t.Loud := by
  have hword : s.next?.any Kind.isWord = true := by
    rw [next?_of_coming hcoming]
    rfl
  refine (settles_of_agree (.require _) (require_looks hword)).bind fun _ t ⟨ht, hst⟩ => ?_
  have ht' : t.coming = (.command word, w) :: es := ht.coming.trans hcoming
  have hcommand : t.next?.any (· == .command word) = true := by
    rw [next?_of_coming ht']
    exact beq_self_eq_true _
  refine (settles_of_agree (.require _) (require_looks hcommand)).bind fun _ u ⟨hu, htu⟩ => ?_
  have hquiet : u.Quiet := hs.adds (hst.trans htu) (ht.adds.trans hu.adds)
  refine inCommand_ends (node_ends ?_)
  have hopened : (opened (entered (some word) u)).coming = _ := hu.coming.trans ht'
  have hready : (opened (entered (some word) u)).Ready := hu.ready
  have hsuffix : (opened (entered (some word) u)).rest <:+ s.rest :=
    hu.adds.rest.trans ht.adds.rest
  refine (settles_of_agree .bump (bump_adds hready hopened)).bind fun _ x ⟨hx, hux⟩ => ?_
  have hxquiet : x.Quiet := ((hquiet.entered _).opened).adds hux hx
  have hxcoming : x.coming = es := hx.coming_eq hopened
  refine (hbody x hxquiet hxcoming (hx.rest.trans hsuffix)).bind fun _ y hy => ?_
  exact agree_finishStage.loud y trivial hy

/-- What the first round of a repetition finds wrong stays noted in the others. -/
theorem whileTrue_loud {body : Parser Bool} (hagree : Agree .nothing body body)
    (h : Ends body s fun _ t => t.Loud) : Ends (whileTrue body) s fun _ t => t.Loud := by
  have hloud : (body s).2.Loud := h
  rcases hbody : body s with ⟨more, t⟩
  rw [hbody] at hloud
  cases more with
  | false =>
    rw [Ends, whileTrue_no hbody]
    exact hloud
  | true =>
    rw [Ends, whileTrue_yes hbody]
    exact (Agree.loopFrom (fun _ => hagree.bind fun _ => .pure _) _ _).loud t trivial hloud

theorem current_looks (s : State) : Ends current s fun k t => k = s.next? ∧ Looks s t :=
  (Adds.refl s).asks_current fun _ ht => .pure ⟨rfl, ht⟩

theorem atStageEnd_looks (s : State) :
    Ends atStageEnd s fun b t => b = s.atEnd ∧ Looks s t :=
  (Adds.refl s).asks_atStageEnd fun _ ht => .pure ⟨rfl, ht⟩

theorem nextStage_loud (hs : s.Quiet) (hcoming : s.coming = (.pipe, v) :: (.command word, w) :: es)
    (hbody : LoudBody below word es s) : Ends (nextStage below false) s fun _ t => t.Loud := by
  refine (settles_of_agree .current (current_looks s)).bind fun k t ⟨⟨hk, ht⟩, hst⟩ => ?_
  have ht' : t.coming = (.pipe, v) :: (.command word, w) :: es := ht.coming.trans hcoming
  rw [hk, next?_of_coming hcoming]
  refine (settles_of_agree .bump (bump_adds ht.ready ht')).bind fun _ u ⟨hu, htu⟩ => ?_
  have hu' : u.coming = (.command word, w) :: es := hu.coming_eq ht'
  have huquiet : u.Quiet := hs.adds (hst.trans htu) (ht.adds.trans hu)
  refine Ends.bind (P := fun _ t => t.Loud) ?_ fun _ _ hx => .pure hx
  refine (settles_of_agree .current (current_looks u)).bind fun k x ⟨⟨hk, hx⟩, hux⟩ => ?_
  rw [hk, next?_of_coming hu']
  refine command_loud (huquiet.adds hux hx.adds) (hx.coming.trans hu') (hbody.of_suffix ?_)
  exact hx.adds.rest.trans (hu.rest.trans ht.adds.rest)

/-- Whatever comes after the first stage, what is wrong with it stays noted. -/
theorem query_loud {limit : Nat} (hs : s.Quiet)
    (hcoming : s.coming = (.pipe, v) :: (.command word, w) :: es)
    (hbody : LoudBody (belowAt limit) word es s) : Ends (query limit) s fun _ t => t.Loud := by
  have hbelow : InnersAgree (.same (belowAt limit)) := innersAgree (Nat.le_refl limit)
  refine node_ends (Ends.bind (P := fun _ t => t.Loud) (node_ends ?_) fun _ _ ht => .modify ht)
  -- the pipe in front of the first stage makes it one of the others
  generalize hu : opened (opened s) = u
  have hquiet : u.Quiet := hu ▸ hs.opened.opened
  have hucoming : u.coming = (.pipe, v) :: (.command word, w) :: es := hu ▸ hcoming
  have hsuffix : u.rest <:+ s.rest := hu ▸ List.suffix_refl _
  refine (settles_of_agree .atStageEnd (atStageEnd_looks u)).bind fun b t ⟨⟨hb, ht⟩, hut⟩ => ?_
  rw [hb, State.atEnd, next?_of_coming hucoming]
  refine whileTrue_loud (agree_nextStage hbelow false) ?_
  refine nextStage_loud (hquiet.adds hut ht.adds) (ht.coming.trans hucoming) ?_
  exact hbody.of_suffix (ht.adds.rest.trans hsuffix)

end Grammar

namespace Parse

open SplQuery.Parser State Grammar

/-- Where something is wrong with the arguments of the only command, the parse is not without
diagnostics. -/
theorem ofLexemes_of_loud {lexemes : List Lexeme} {word : CommandWord} {v w : String}
    {es : List (Kind × String)} (stop : Nat) {limit : Nat}
    (hs : (start lexemes stop).coming = (.pipe, v) :: (.command word, w) :: es)
    (hbody : LoudBody (belowAt limit) word es (start lexemes stop)) :
    (ofLexemes lexemes stop limit).diagnostics ≠ [] := by
  have hloud : (finalState lexemes stop limit).Loud :=
    (query_loud (quiet_start lexemes stop) hs hbody).bind (Q := fun _ t => t.Loud)
      fun _ _ ht => .modify ht
  exact fun h => hloud (List.reverse_eq_nil_iff.mp h)

end Parse

end SplQuery

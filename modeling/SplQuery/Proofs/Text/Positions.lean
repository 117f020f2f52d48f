import Mathlib.Data.List.DropRight
import SplQuery.Text.Location

/-!
# Positions are exact

The line of a place is found by halving the places at which lines start, and its column by counting
from the start of the line on. At a place between two characters both come to the same as going over
the characters before it: the line is one more than the number of line feeds, the column one more
than the number of characters behind the last of them. Every character leads to a later position, so
places in a text and positions are in the same order.

* `bisect_spec`, `partitionPoint_append` — halving ends where the members do.
* `Text.exists_line` — the line on which a text ends.
* `LineIndex.position_width` — the position behind some characters.
* `Position.Before` — the order of positions, by lines and then by columns.
* `LineIndex.positions_exact` — the positions of a text and the locations of its parts.
-/

namespace SplQuery

open Text

/-! ## Halving -/

section Halving

/-- Halving keeps the first index that is no member behind the stretch's first index, unless the
stretch begins at zero, and not behind its end. So it ends at the last member, if there is any. -/
theorem bisect_spec {member : Nat → Bool} {n cut base size : Nat}
    (hmember : ∀ i < n, (member i = true ↔ i < cut)) (hsize : 0 < size) (hend : base + size ≤ n)
    (hbase : base = 0 ∨ base < cut) (hcut : cut ≤ base + size) :
    let last := bisect member base size
    last < n ∧ (last = 0 ∨ last < cut) ∧ cut ≤ last + 1 := by
  fun_induction bisect member base size with
  | case1 base size hle => exact ⟨by omega, hbase, by omega⟩
  | case2 base size hgt middle ih =>
    have hmiddle := hmember middle (by omega)
    refine ih (by omega) ?_ ?_ ?_
    · split <;> omega
    · split
      · next h => exact .inr (hmiddle.mp h)
      · exact hbase
    · split
      · omega
      · next h =>
        have := mt hmiddle.mpr h
        omega

/-- Where all members come first, they are counted. -/
theorem partitionPoint_append {α : Type} {member : α → Bool} {front back : List α}
    (hfront : ∀ x ∈ front, member x = true) (hback : ∀ x ∈ back, member x = false) :
    partitionPoint member (front ++ back).toArray = front.length := by
  have hmember : ∀ i < (front ++ back).length,
      ((front ++ back).toArray[i]?.any member = true ↔ i < front.length) := by
    intro i hi
    rw [List.getElem?_toArray, List.getElem?_eq_getElem hi, Option.any_some]
    by_cases hlt : i < front.length
    · rw [List.getElem_append_left hlt, hfront _ (List.getElem_mem hlt)]
      exact iff_of_true rfl hlt
    · rw [List.getElem_append_right (Nat.le_of_not_lt hlt), hback _ (List.getElem_mem _)]
      exact iff_of_false Bool.false_ne_true hlt
  rw [partitionPoint, List.size_toArray]
  split
  · next hempty =>
    rw [List.length_append] at hempty
    omega
  · next hsize =>
    obtain ⟨hlt, hlast, hle⟩ := bisect_spec hmember (Nat.pos_of_ne_zero hsize) (by omega)
      (.inl rfl) (by rw [List.length_append]; omega)
    have hiff := hmember _ hlt
    dsimp only
    split
    · next h =>
      have := hiff.mp h
      omega
    · next h =>
      have := mt hiff.mpr h
      omega

end Halving

/-! ## Where lines start -/

namespace Text

/-- Some characters of the text end at the place, counted from its beginning. -/
def IsBoundary (text : List Char) (place : Nat) : Prop :=
  ∃ cs ds, text = cs ++ ds ∧ width cs = place

theorem append_concat_append (cs front : List Char) (c : Char) (es : List Char) :
    cs ++ (front ++ [c] ++ es) = (cs ++ front) ++ (c :: es) := by
  rw [List.append_assoc front, ← List.append_assoc cs, List.singleton_append]

theorem indexed_append (place : Nat) (cs ds : List Char) :
    indexed place (cs ++ ds) = indexed place cs ++ indexed (place + width cs) ds := by
  induction cs generalizing place with
  | nil => rfl
  | cons c cs ih => rw [List.cons_append, indexed, ih, indexed, width, Nat.add_assoc]; rfl

/-- A character begins within the text, and so it ends. -/
theorem bounds_of_mem_indexed {place i : Nat} {c : Char} {cs : List Char}
    (h : (i, c) ∈ indexed place cs) : place ≤ i ∧ i + c.utf8Size ≤ place + width cs := by
  induction cs generalizing place with
  | nil => cases h
  | cons d cs ih =>
    rw [width]
    rcases List.mem_cons.mp h with h | h
    · obtain ⟨rfl, rfl⟩ := Prod.mk.inj h
      omega
    · have := ih h
      omega

theorem lineStarts_append (place : Nat) (cs ds : List Char) :
    lineStarts place (cs ++ ds) = lineStarts place cs ++ lineStarts (place + width cs) ds := by
  rw [lineStarts, indexed_append, List.filter_append, List.map_append]
  rfl

theorem lineStarts_feed (place : Nat) : lineStarts place ['\n'] = [place + 1] := rfl

theorem lineStarts_of_ne {c : Char} (h : c ≠ '\n') (place : Nat) : lineStarts place [c] = [] := by
  simp [lineStarts, indexed, h]

/-- A line that is not the first one starts behind a character of the text. -/
theorem bounds_of_mem_lineStarts {place start : Nat} {cs : List Char}
    (h : start ∈ lineStarts place cs) : place < start ∧ start ≤ place + width cs := by
  obtain ⟨⟨i, c⟩, hmem, rfl⟩ := List.mem_map.mp h
  obtain ⟨hi, hfeed⟩ := List.mem_filter.mp hmem
  obtain rfl : c = '\n' := beq_iff_eq.mp hfeed
  obtain ⟨hle, hend⟩ := bounds_of_mem_indexed hi
  exact ⟨Nat.lt_succ_of_le hle, hend⟩

theorem count_of_ne {c : Char} (h : c ≠ '\n') : [c].count '\n' = 0 :=
  List.count_eq_zero.mpr fun hmem => h (List.mem_singleton.mp hmem).symm

/-- Nothing stands behind the last line feed of a text that ends with one. -/
theorem rtakeWhile_feed (cs : List Char) : (cs ++ ['\n']).rtakeWhile (· != '\n') = [] :=
  List.rtakeWhile_concat_neg _ _ _ (by decide)

theorem rtakeWhile_of_ne {c : Char} (h : c ≠ '\n') (cs : List Char) :
    (cs ++ [c]).rtakeWhile (· != '\n') = cs.rtakeWhile (· != '\n') ++ [c] :=
  List.rtakeWhile_concat_pos _ _ _ (bne_iff_ne.mpr h)

theorem length_lineStarts (place : Nat) (cs : List Char) :
    (lineStarts place cs).length = cs.count '\n' := by
  induction cs using List.reverseRecOn with
  | nil => rfl
  | append_singleton cs c ih =>
    rw [lineStarts_append, List.length_append, ih, List.count_append]
    by_cases hc : c = '\n'
    · subst hc
      rfl
    · rw [lineStarts_of_ne hc, count_of_ne hc]
      rfl

/-- The line on which a text ends starts behind the last line feed, and there are as many lines
before it as there are line feeds. -/
theorem exists_line (cs : List Char) :
    ∃ front, cs = front ++ cs.rtakeWhile (· != '\n') ∧
      (0 :: lineStarts 0 cs)[cs.count '\n']? = some (width front) := by
  induction cs using List.reverseRecOn with
  | nil => exact ⟨[], rfl, rfl⟩
  | append_singleton cs c ih =>
    rw [lineStarts_append, List.count_append]
    by_cases hc : c = '\n'
    · subst hc
      refine ⟨cs ++ ['\n'], ?_, ?_⟩
      · rw [rtakeWhile_feed, List.append_nil]
      · have hcount : ['\n'].count '\n' = 1 := rfl
        rw [lineStarts_feed, Nat.zero_add, hcount, List.getElem?_cons_succ, ← length_lineStarts 0,
          List.getElem?_concat_length, width_append]
        rfl
    · obtain ⟨front, hfront, hstart⟩ := ih
      refine ⟨front, ?_, ?_⟩
      · rw [rtakeWhile_of_ne hc, ← List.append_assoc, ← hfront]
      · rw [lineStarts_of_ne hc, List.append_nil, count_of_ne hc, Nat.add_zero, hstart]

end Text

namespace Position

/-! ## Lines and columns -/

/-- The position of the first character of a text. -/
def origin : Position := ⟨1, 1⟩

/-- The position after a character. -/
def advance (p : Position) (c : Char) : Position :=
  if c = '\n' then ⟨p.line + 1, 1⟩ else ⟨p.line, p.column + 1⟩

/-- The position that is reached by going over some characters. -/
def behind (cs : List Char) : Position := cs.foldl advance origin

theorem behind_concat (cs : List Char) (c : Char) : behind (cs ++ [c]) = (behind cs).advance c := by
  rw [behind, List.foldl_concat, ← behind]

/-- Lines are counted by the line feeds, columns by the characters behind the last of them. -/
theorem behind_eq (cs : List Char) :
    behind cs = ⟨1 + cs.count '\n', 1 + (cs.rtakeWhile (· != '\n')).length⟩ := by
  induction cs using List.reverseRecOn with
  | nil => rfl
  | append_singleton cs c ih =>
    rw [behind_concat, ih, advance, List.count_append]
    by_cases hc : c = '\n'
    · subst hc
      rw [if_pos rfl, rtakeWhile_feed]
      rfl
    · rw [if_neg hc, rtakeWhile_of_ne hc, List.length_append, count_of_ne hc]
      rfl

/-! ## The order of positions -/

/-- On an earlier line, or further to the left on the same line. -/
def Before (p q : Position) : Prop := p.line < q.line ∨ p.line = q.line ∧ p.column < q.column

variable {p q r : Position}

theorem Before.trans (h : p.Before q) (h' : q.Before r) : p.Before r := by
  unfold Before at *
  omega

theorem not_before_self (p : Position) : ¬p.Before p := by
  unfold Before
  omega

/-- Every character leads to a later position. -/
theorem before_advance (p : Position) (c : Char) : p.Before (p.advance c) := by
  unfold advance Before
  split
  · exact .inl (Nat.lt_succ_self _)
  · exact .inr ⟨rfl, Nat.lt_succ_self _⟩

theorem behind_before (cs : List Char) {ds : List Char} (h : ds ≠ []) :
    (behind cs).Before (behind (cs ++ ds)) := by
  induction ds using List.reverseRecOn with
  | nil => exact absurd rfl h
  | append_singleton ds d ih =>
    have hlast := before_advance (behind (cs ++ ds)) d
    rw [← behind_concat, List.append_assoc] at hlast
    by_cases hds : ds = []
    · subst hds
      rwa [List.append_nil] at hlast
    · exact (ih hds).trans hlast

end Position

namespace LineIndex

open Position

theorem text_ofText (text : List Char) : (ofText text).text = text := rfl

/-- The position behind some characters of a text is reached by going over them. -/
theorem position_width (cs ds : List Char) :
    (ofText (cs ++ ds)).position (width cs) = behind cs := by
  have hmin : min (width cs) (width (cs ++ ds)) = width cs := by
    rw [width_append]
    omega
  have hcount : partitionPoint (fun start => decide (start ≤ width cs))
      (0 :: lineStarts 0 (cs ++ ds)).toArray = cs.count '\n' + 1 := by
    rw [lineStarts_append, ← List.cons_append, partitionPoint_append, List.length_cons,
      length_lineStarts]
    · intro start hstart
      rcases List.mem_cons.mp hstart with rfl | hstart
      · exact decide_eq_true (Nat.zero_le _)
      · have := bounds_of_mem_lineStarts hstart
        exact decide_eq_true (by omega)
    · intro start hstart
      have := bounds_of_mem_lineStarts hstart
      exact decide_eq_false (by omega)
  obtain ⟨front, hfront, hstart⟩ := exists_line cs
  have hline : (0 :: lineStarts 0 (cs ++ ds))[cs.count '\n']? = some (width front) := by
    rw [lineStarts_append, ← List.cons_append, List.getElem?_append_left, hstart]
    rw [List.length_cons, length_lineStarts]
    exact Nat.lt_succ_self _
  have hslice : slice ⟨width front, width cs⟩ (cs ++ ds) = cs.rtakeWhile (· != '\n') := by
    have hcut := slice_width front (cs.rtakeWhile (· != '\n')) ds
    rwa [← List.append_assoc, ← width_append, ← hfront] at hcut
  simp only [position, ofText, hmin, hcount, Nat.add_sub_cancel, List.getElem?_toArray, hline,
    Option.getD_some, hslice]
  rw [behind_eq, Nat.add_comm 1, Nat.add_comm 1]

/-- Later boundaries have later positions. -/
theorem position_before {text : List Char} {o o' : Nat} (h : IsBoundary text o)
    (h' : IsBoundary text o') (hlt : o < o') :
    ((ofText text).position o).Before ((ofText text).position o') := by
  obtain ⟨cs, ds, rfl, rfl⟩ := h
  obtain ⟨cs', ds', htext, rfl⟩ := h'
  rw [position_width, htext, position_width]
  obtain ⟨es, rfl, -⟩ | ⟨es, rfl, -⟩ := List.append_eq_append_iff.mp htext
  · refine behind_before cs fun hnil => ?_
    rw [hnil, List.append_nil] at hlt
    exact Nat.lt_irrefl _ hlt
  · rw [width_append] at hlt
    omega

/-- The location of a place in a text. -/
theorem location_nil (cs es : List Char) : (ofText (cs ++ es)).location ⟨width cs, width cs⟩ =
    ⟨behind cs, behind cs, ⟨width cs, width cs⟩⟩ := by
  have hslice := slice_width cs [] es
  rw [width, Nat.add_zero, List.nil_append] at hslice
  rw [location, text_ofText, hslice, position_width]
  rfl

/-- The location of a part of a text that ends with a character. -/
theorem location_concat (cs front : List Char) (c : Char) (es : List Char) :
    let s : Span := ⟨width cs, width cs + width (front ++ [c])⟩
    (ofText (cs ++ (front ++ [c] ++ es))).location s = ⟨behind cs, behind (cs ++ front), s⟩ := by
  have hlast : (indexed (width cs) (front ++ [c])).getLast? = some (width (cs ++ front), c) := by
    rw [indexed_append, indexed, indexed, List.getLast?_concat, width_append]
  dsimp only
  rw [location, text_ofText, slice_width, hlast, position_width]
  dsimp only [Option.elim]
  rw [append_concat_append, position_width]

/-- **Positions are exact.** At a boundary between characters the line is one more than the number
of line feeds before it and the column one more than the number of characters behind the last of
these. Positions are in the order of the boundaries, so no two boundaries share one. The location of
a part of the text gives the position of its first character and that of its last one, or twice the
position at which it stands if it is empty, and the second is never before the first. -/
theorem positions_exact (text : List Char) :
    let index := ofText text
    (∀ cs ds, text = cs ++ ds → index.position (width cs) =
      ⟨1 + cs.count '\n', 1 + (cs.rtakeWhile (· != '\n')).length⟩) ∧
    (∀ o o', IsBoundary text o → IsBoundary text o' →
      ((index.position o).Before (index.position o') ↔ o < o') ∧
      (index.position o = index.position o' → o = o')) ∧
    ∀ cs ds es, text = cs ++ (ds ++ es) →
      let l := index.location ⟨width cs, width cs + width ds⟩
      l.span = ⟨width cs, width cs + width ds⟩ ∧ l.first = index.position (width cs) ∧
      (ds = [] → l.last = l.first) ∧
      (∀ front c, ds = front ++ [c] → l.last = index.position (width (cs ++ front))) ∧
      ¬l.last.Before l.first := by
  refine ⟨?_, fun o o' h h' => ?_, ?_⟩
  · rintro cs ds rfl
    rw [position_width, behind_eq]
  · have hbefore := position_before h h'
    have hbehind := position_before h' h
    refine ⟨⟨fun hlt => ?_, hbefore⟩, fun heq => ?_⟩
    · refine Nat.lt_of_not_le fun hle => ?_
      rcases Nat.eq_or_lt_of_le hle with rfl | hgt
      · exact not_before_self _ hlt
      · exact not_before_self _ (hlt.trans (hbehind hgt))
    · rw [heq] at hbefore hbehind
      exact Nat.le_antisymm (Nat.le_of_not_lt fun hlt => not_before_self _ (hbehind hlt))
        (Nat.le_of_not_lt fun hlt => not_before_self _ (hbefore hlt))
  · rintro cs ds es rfl
    rw [position_width]
    rcases List.eq_nil_or_concat' ds with rfl | ⟨front, c, rfl⟩
    · rw [List.nil_append, width, Nat.add_zero, location_nil]
      exact ⟨rfl, rfl, fun _ => rfl, fun front c h => by simp at h, not_before_self _⟩
    · rw [location_concat]
      refine ⟨rfl, rfl, fun h => by simp at h, fun front' c' h => ?_, fun hbefore => ?_⟩
      · obtain ⟨rfl, -⟩ := List.append_inj' h rfl
        rw [append_concat_append, position_width]
      · by_cases hfront : front = []
        · rw [hfront, List.append_nil] at hbefore
          exact not_before_self _ hbefore
        · exact not_before_self _ (hbefore.trans (behind_before cs hfront))

/-- A part that goes from the second character of a line to the first one of the next line. -/
theorem positions_exact_sample :
    IsBoundary "aé\nbc".toList 1 ∧ IsBoundary "aé\nbc".toList 4 ∧
      (ofText "aé\nbc".toList).position 4 = ⟨2, 1⟩ ∧
      ((ofText "aé\nbc".toList).position 1).Before ((ofText "aé\nbc".toList).position 4) ∧
      ((ofText "aé\nbc".toList).location ⟨1, 5⟩).last =
        (ofText "aé\nbc".toList).position 4 := by
  obtain ⟨hplace, horder, hlocation⟩ := positions_exact "aé\nbc".toList
  have h1 : IsBoundary "aé\nbc".toList 1 := ⟨['a'], ['é', '\n', 'b', 'c'], rfl, rfl⟩
  have h4 : IsBoundary "aé\nbc".toList 4 := ⟨['a', 'é', '\n'], ['b', 'c'], rfl, rfl⟩
  obtain ⟨-, -, -, hlast, -⟩ := hlocation ['a'] ['é', '\n', 'b'] ['c'] rfl
  exact ⟨h1, h4, hplace ['a', 'é', '\n'] ['b', 'c'] rfl, (horder 1 4 h1 h4).1.mpr (by decide),
    hlast ['é', '\n'] 'b' rfl⟩

end LineIndex

end SplQuery

import SplQuery.Regex.GroupNames

/-!
# The names of groups that a text shows

The search for names goes over bytes and cuts the text where bytes have led it. Two bytes on from a
backslash it may be inside a character. All bytes of a character that has more than one are large,
so there it finds neither a backslash nor a parenthesis before the next character begins, and what
it finds can be said of characters.

* `Units`, `Hidden` — a text as pairs of a backslash and another character, and single characters.
* `Opens` — a group with a name is opened at the front of a text.
* `Shows` — where a text opens groups, and their names.
* `scanNames_shows` — the search never cuts inside a character and finds these names.
-/

namespace SplQuery.Regex

open Text

/-! ## What a text shows -/

/-- From left to right, the text is made of pairs, a backslash and the character behind it, and of
single characters. -/
inductive Units : List Char → Prop where
  | nil : Units []
  | single {c : Char} {cs : List Char} (hc : c ≠ '\\') (h : Units cs) : Units (c :: cs)
  | pair {c : Char} {cs : List Char} (h : Units cs) : Units ('\\' :: c :: cs)

/-- The character behind this text is the second one of a pair. -/
def Hidden (front : List Char) : Prop := ∃ cs, Units cs ∧ front = cs ++ ['\\']

theorem units_single {c : Char} {cs : List Char} (hc : c ≠ '\\') : Units (c :: cs) ↔ Units cs := by
  refine ⟨fun h => ?_, .single hc⟩
  cases h with
  | single _ h => exact h
  | pair _ => exact absurd rfl hc

theorem units_pair {c : Char} {cs : List Char} : Units ('\\' :: c :: cs) ↔ Units cs := by
  refine ⟨fun h => ?_, .pair⟩
  cases h with
  | single hc _ => exact absurd rfl hc
  | pair h => exact h

theorem Units.not_hidden {front : List Char} (h : Units front) : ¬Hidden front := by
  rintro ⟨cs, hcs, rfl⟩
  induction hcs with
  | nil => cases h with | single hc _ => exact hc rfl
  | single hc _ ih => exact ih ((units_single hc).mp h)
  | pair _ ih => exact ih (units_pair.mp h)

/-- Between the characters of a text, there is an end of a unit or the middle of a pair. -/
theorem units_or_hidden : ∀ front : List Char, Units front ∨ Hidden front
  | [] => .inl .nil
  | [c] => by
    by_cases hc : c = '\\'
    · exact .inr ⟨[], .nil, by rw [hc]; rfl⟩
    · exact .inl (.single hc .nil)
  | c :: d :: cs => by
    by_cases hc : c = '\\'
    · subst hc
      obtain h | ⟨ds, h, rfl⟩ := units_or_hidden cs
      · exact .inl (.pair h)
      · exact .inr ⟨'\\' :: d :: ds, .pair h, rfl⟩
    · obtain h | ⟨ds, h, hds⟩ := units_or_hidden (d :: cs)
      · exact .inl (.single hc h)
      · exact .inr ⟨c :: ds, .single hc h, by rw [hds]; rfl⟩

theorem not_hidden_iff {front : List Char} : ¬Hidden front ↔ Units front :=
  ⟨(units_or_hidden front).resolve_right, Units.not_hidden⟩

/-- What opens a group in front of its name, and what ends the name. -/
def openings : List (List Char × Char) :=
  [(['(', '?', '<'], '>'), (['(', '?', 'P', '<'], '>'), (['(', '?', '\''], '\'')]

/-- At the front of the text a group is opened, with the name up to the first character that ends
it. -/
inductive Opens : List Char → String → Prop where
  | intro {opening : List Char} {closer first : Char} {name rest : List Char}
      (hopening : (opening, closer) ∈ openings) (hfirst : first.isAlpha = true ∨ first = '_')
      (hname : closer ∉ first :: name) :
      Opens (opening ++ (first :: name ++ closer :: rest)) (String.ofList (first :: name))

/-- Behind `i` characters the text opens a group with this name. -/
def OpensAt (text : List Char) (i : Nat) (name : String) : Prop :=
  ∃ front rest, text = front ++ rest ∧ front.length = i ∧ ¬Hidden front ∧ Opens rest name

/-- The groups that the text opens, from left to right. -/
structure Shows (text : List Char) (found : List (Nat × String)) : Prop where
  ascending : found.Pairwise (·.1 < ·.1)
  mem_iff : ∀ i name, (i, name) ∈ found ↔ OpensAt text i name

/-! ## The name of one group -/

theorem mem_openings {opening : List Char} {closer : Char} : (opening, closer) ∈ openings ↔
    opening = ['(', '?', '<'] ∧ closer = '>' ∨ opening = ['(', '?', 'P', '<'] ∧ closer = '>' ∨
      opening = ['(', '?', '\''] ∧ closer = '\'' := by
  simp [openings]

theorem nameStart?_eq_some {cs body : List Char} {closer : Char} :
    nameStart? cs = some (body, closer) ↔
      ∃ opening, (opening, closer) ∈ openings ∧ '(' :: '?' :: cs = opening ++ body := by
  constructor
  · intro h
    unfold nameStart? at h
    split at h <;> cases h
    · exact ⟨['(', '?', 'P', '<'], by decide, rfl⟩
    · exact ⟨['(', '?', '<'], by decide, rfl⟩
    · exact ⟨['(', '?', '\''], by decide, rfl⟩
  · rintro ⟨opening, hopening, h⟩
    obtain ⟨rfl, rfl⟩ | ⟨rfl, rfl⟩ | ⟨rfl, rfl⟩ := mem_openings.mp hopening <;> cases h <;> rfl

theorem Opens.parenthesis {cs : List Char} {name : String} (h : Opens cs name) :
    ∃ rest, cs = '(' :: '?' :: rest := by
  obtain ⟨hopening, _, _⟩ := h
  obtain ⟨rfl, rfl⟩ | ⟨rfl, rfl⟩ | ⟨rfl, rfl⟩ := mem_openings.mp hopening <;> exact ⟨_, rfl⟩

theorem cutAt?_width (front rest : List Char) :
    cutAt? (width front) (front ++ rest) = some (front, rest) := by
  rw [cutAt?, before_width, after_width, if_pos rfl]

theorem findByte?_eq_some {c : Char} {front rest : List Char} (h : c ∉ front) :
    findByte? c (front ++ c :: rest) = some (width front) := by
  have hfront : ∀ d ∈ front, decide (d ≠ c) = true := fun d hd =>
    decide_eq_true fun hdc : d = c => h (hdc ▸ hd)
  rw [findByte?, if_pos (by simp), List.takeWhile_append_of_pos hfront]
  simp

theorem startsName_cons {c : Char} {cs : List Char} :
    startsName (c :: cs) = true ↔ c.isAlpha = true ∨ c = '_' := by
  simp [startsName]

theorem Opens.scanName? {cs : List Char} {name : String} (h : Opens ('(' :: '?' :: cs) name) :
    scanName? cs = some [name] := by
  generalize htext : '(' :: '?' :: cs = text at h
  obtain @⟨opening, closer, first, name, rest, hopening, hfirst, hname⟩ := h
  have hstart := nameStart?_eq_some.mpr ⟨opening, hopening, htext⟩
  simp only [Regex.scanName?, hstart, findByte?_eq_some hname, cutAt?_width, Option.map_some]
  exact if_pos (startsName_cons.mpr hfirst)

/-- A text that opens a group tells its name. -/
theorem Opens.unique {cs : List Char} {name other : String} (h : Opens cs name)
    (hother : Opens cs other) : name = other := by
  obtain ⟨rest, rfl⟩ := h.parenthesis
  have := h.scanName?.symm.trans hother.scanName?
  simpa using this

theorem scanName?_of_not_opens {cs : List Char} (h : ∀ name, ¬Opens ('(' :: '?' :: cs) name) :
    Regex.scanName? cs = some [] := by
  unfold Regex.scanName?
  split
  case h_2 => rfl
  case h_1 body closer hstart =>
    by_cases hfirst : startsName body
    · -- A closer behind such a beginning would make a group of it.
      have hcloser : closer ∉ body := fun hmem => by
        obtain ⟨opening, hopening, htext⟩ := nameStart?_eq_some.mp hstart
        obtain ⟨front, rest, rfl, hfront⟩ := List.eq_append_cons_of_mem hmem
        cases front with
        | nil =>
          have hfirst := startsName_cons.mp hfirst
          obtain ⟨-, rfl⟩ | ⟨-, rfl⟩ | ⟨-, rfl⟩ := mem_openings.mp hopening <;>
            exact absurd hfirst (by decide)
        | cons first name =>
          refine h (String.ofList (first :: name)) ?_
          rw [htext]
          exact .intro hopening (startsName_cons.mp hfirst) hfront
      rw [if_pos hfirst, findByte?, if_neg hcloser]
    · rw [if_neg hfirst]

/-! ## From bytes to characters -/

theorem bytes_cons (c : Char) (cs : List Char) :
    bytes (c :: cs) = String.utf8EncodeChar c ++ bytes cs := rfl

theorem utf8EncodeChar_ne_nil (c : Char) : String.utf8EncodeChar c ≠ [] := by
  have := c.utf8Size_pos
  rw [← String.length_utf8EncodeChar] at this
  exact List.ne_nil_of_length_pos this

theorem utf8EncodeChar_of_ascii {c : Char} (h : c.toNat ≤ 127) :
    String.utf8EncodeChar c = [c.toUInt8] := by
  have h' : c.val.toNat ≤ 127 := h
  simp only [String.utf8EncodeChar, if_pos h']
  rfl

/-- All bytes of other characters are large. -/
theorem utf8EncodeChar_large {c : Char} (h : 127 < c.toNat) :
    ∀ b ∈ String.utf8EncodeChar c, 128 ≤ b.toNat := by
  have h' : ¬c.val.toNat ≤ 127 := Nat.not_le.mpr h
  intro b hb
  simp only [String.utf8EncodeChar, if_neg h'] at hb
  split at hb
  · simp only [List.mem_cons, List.not_mem_nil, or_false] at hb
    obtain rfl | rfl := hb <;> simp only [UInt8.toNat_ofNat'] <;> omega
  · split at hb <;> simp only [List.mem_cons, List.not_mem_nil, or_false] at hb
    · obtain rfl | rfl | rfl := hb <;> simp only [UInt8.toNat_ofNat'] <;> omega
    · obtain rfl | rfl | rfl | rfl := hb <;> simp only [UInt8.toNat_ofNat'] <;> omega

theorem toUInt8_inj {c d : Char} (hc : c.toNat ≤ 127) (hd : d.toNat ≤ 127) :
    c.toUInt8 = d.toUInt8 ↔ c = d := by
  refine ⟨fun h => Char.toNat_inj.mp ?_, fun h => h ▸ rfl⟩
  have h := congrArg UInt8.toNat h
  have hc' : c.toUInt8.toNat = c.toNat % 256 := rfl
  have hd' : d.toUInt8.toNat = d.toNat % 256 := rfl
  omega

/-- The first byte of a text is an ASCII character only if the text begins with it. -/
theorem head?_bytes {c : Char} (hc : c.toNat ≤ 127) (cs : List Char) :
    (bytes cs).head? = some c.toUInt8 ↔ cs.head? = some c := by
  cases cs with
  | nil => simp [bytes]
  | cons d cs =>
    by_cases hd : d.toNat ≤ 127
    · simp [bytes_cons, utf8EncodeChar_of_ascii hd, toUInt8_inj hd hc]
    · have hlarge := utf8EncodeChar_large (Nat.not_le.mp hd)
      obtain ⟨b, bs, hbs⟩ := List.exists_cons_of_ne_nil (utf8EncodeChar_ne_nil d)
      have hb : 128 ≤ b.toNat := hlarge b (hbs ▸ List.mem_cons_self)
      have hc' : c.toUInt8.toNat = c.toNat % 256 := rfl
      have hne : b ≠ c.toUInt8 := fun h => by rw [h] at hb; omega
      have hdc : d ≠ c := fun h => hd (h ▸ hc)
      simp [bytes_cons, hbs, hne, hdc]

/-! ## Over the characters -/

section Steps

variable {pattern : List Char} {i : Nat}

/-- At bytes that neither hide nor open, the search goes on. -/
theorem scanNamesFrom_cons {b : UInt8} {bs : List UInt8} (hb : b ≠ '\\'.toUInt8)
    (h : ¬(b = '('.toUInt8 ∧ bs.head? = some '?'.toUInt8)) :
    scanNamesFrom pattern i (b :: bs) = scanNamesFrom pattern (i + 1) bs := by
  cases bs with
  | nil => rfl
  | cons b' bs =>
    rw [List.head?_cons, Option.some_inj] at h
    rw [scanNamesFrom, if_neg hb, if_neg h]

theorem scanNamesFrom_large {large bs : List UInt8} (h : ∀ b ∈ large, 128 ≤ b.toNat) :
    scanNamesFrom pattern i (large ++ bs) = scanNamesFrom pattern (i + large.length) bs := by
  induction large generalizing i with
  | nil => rfl
  | cons b large ih =>
    have hb : 128 ≤ b.toNat := h b List.mem_cons_self
    have hne : ∀ c : Char, c.toUInt8.toNat < 128 → b ≠ c.toUInt8 := fun c hc hbc => by
      rw [hbc] at hb
      omega
    rw [List.cons_append, scanNamesFrom_cons (hne _ (by decide)) (fun h => hne _ (by decide) h.1),
      ih fun b hb => h b (List.mem_cons_of_mem _ hb), List.length_cons, Nat.add_right_comm,
      Nat.add_assoc]

theorem scanNamesFrom_single {c : Char} {cs : List Char} (hc : c ≠ '\\')
    (h : ¬(c = '(' ∧ cs.head? = some '?')) :
    scanNamesFrom pattern i (bytes (c :: cs)) =
      scanNamesFrom pattern (i + width [c]) (bytes cs) := by
  rw [bytes_cons, width, width, Nat.add_zero, ← String.length_utf8EncodeChar]
  by_cases hascii : c.toNat ≤ 127
  · rw [utf8EncodeChar_of_ascii hascii]
    refine scanNamesFrom_cons (mt (toUInt8_inj hascii (by decide)).mp hc) ?_
    rintro ⟨hparen, hmark⟩
    exact h ⟨(toUInt8_inj hascii (by decide)).mp hparen, (head?_bytes (by decide) cs).mp hmark⟩
  · exact scanNamesFrom_large (utf8EncodeChar_large (Nat.not_le.mp hascii))

/-- The byte behind a backslash may be the first one of several. The others are large. -/
theorem scanNamesFrom_pair {c : Char} {cs : List Char} :
    scanNamesFrom pattern i (bytes ('\\' :: c :: cs)) =
      scanNamesFrom pattern (i + width ['\\', c]) (bytes cs) := by
  obtain ⟨b, bs, hbs⟩ := List.exists_cons_of_ne_nil (utf8EncodeChar_ne_nil c)
  have hlarge : ∀ b ∈ bs, 128 ≤ b.toNat := by
    by_cases hascii : c.toNat ≤ 127
    · rw [utf8EncodeChar_of_ascii hascii] at hbs
      cases hbs
      simp
    · exact fun b' hb' => utf8EncodeChar_large (Nat.not_le.mp hascii) b'
        (hbs ▸ List.mem_cons_of_mem b hb')
  have hwidth : width ['\\', c] = 2 + bs.length := by
    rw [width, width, width, ← String.length_utf8EncodeChar c, hbs, List.length_cons]
    have : '\\'.utf8Size = 1 := rfl
    omega
  rw [bytes_cons, bytes_cons, hbs, hwidth, ← Nat.add_assoc, ← scanNamesFrom_large hlarge]
  rfl

end Steps

theorem scanNamesFrom_opener {front rest : List Char} {names : List String}
    (h : Regex.scanName? rest = some names) :
    scanNamesFrom (front ++ '(' :: '?' :: rest) (width front) (bytes ('(' :: '?' :: rest)) =
      (scanNamesFrom (front ++ '(' :: '?' :: rest) (width front + 1) (bytes ('?' :: rest))).map
        (names ++ ·) := by
  have hcut : cutAt? (width front + 2) (front ++ '(' :: '?' :: rest) =
      some (front ++ ['(', '?'], rest) := by
    have := cutAt?_width (front ++ ['(', '?']) rest
    rw [width_append, List.append_assoc] at this
    exact this
  have hbytes : bytes ('(' :: '?' :: rest) = '('.toUInt8 :: '?'.toUInt8 :: bytes rest := rfl
  rw [hbytes, scanNamesFrom, if_neg (by decide), if_pos ⟨rfl, rfl⟩, hcut]
  simp only [Option.bind_eq_bind, Option.bind_some, h, Option.map_eq_bind]
  rfl

/-! ## What the search finds -/

theorem opensAt_single {c : Char} {cs : List Char} {i : Nat} {name : String} (hc : c ≠ '\\') :
    OpensAt (c :: cs) i name ↔
      i = 0 ∧ Opens (c :: cs) name ∨ ∃ j, OpensAt cs j name ∧ j + 1 = i := by
  simp only [OpensAt, not_hidden_iff, List.cons_eq_append_iff]
  constructor
  · rintro ⟨front, rest, ⟨rfl, rfl⟩ | ⟨front, rfl, rfl⟩, rfl, hfront, hopens⟩
    · exact .inl ⟨rfl, hopens⟩
    · exact .inr ⟨_, ⟨front, rest, rfl, rfl, (units_single hc).mp hfront, hopens⟩, rfl⟩
  · rintro (⟨rfl, hopens⟩ | ⟨_, ⟨front, rest, rfl, rfl, hfront, hopens⟩, rfl⟩)
    · exact ⟨[], _, .inl ⟨rfl, rfl⟩, rfl, .nil, hopens⟩
    · exact ⟨c :: front, rest, .inr ⟨front, rfl, rfl⟩, rfl, .single hc hfront, hopens⟩

theorem opensAt_pair {c : Char} {cs : List Char} {i : Nat} {name : String} :
    OpensAt ('\\' :: c :: cs) i name ↔ ∃ j, OpensAt cs j name ∧ j + 2 = i := by
  simp only [OpensAt, not_hidden_iff, List.cons_eq_append_iff]
  constructor
  · rintro ⟨front, rest, ⟨rfl, rfl⟩ | ⟨front, rfl, ⟨rfl, rfl⟩ | ⟨front, rfl, rfl⟩⟩, rfl, hfront,
      hopens⟩
    · obtain ⟨_, h⟩ := hopens.parenthesis
      cases h
    · cases hfront with | single hc _ => exact absurd rfl hc
    · exact ⟨_, ⟨front, rest, rfl, rfl, units_pair.mp hfront, hopens⟩, rfl⟩
  · rintro ⟨_, ⟨front, rest, rfl, rfl, hfront, hopens⟩, rfl⟩
    exact ⟨'\\' :: c :: front, rest, .inr ⟨_, rfl, .inr ⟨_, rfl, rfl⟩⟩, rfl, .pair hfront, hopens⟩

namespace Shows

variable {c : Char} {cs : List Char} {found : List (Nat × String)}

/-- What is found in a text is found behind `n` more characters. -/
def shift (n : Nat) (found : List (Nat × String)) : List (Nat × String) :=
  found.map fun (i, name) => (i + n, name)

theorem names_shift (n : Nat) : (shift n found).map (·.2) = found.map (·.2) := by
  rw [shift, List.map_map]
  rfl

theorem mem_shift {n i : Nat} {name : String} :
    (i, name) ∈ shift n found ↔ ∃ j, (j, name) ∈ found ∧ j + n = i := by
  simp [shift]

theorem pairwise_shift {n : Nat} (h : found.Pairwise (·.1 < ·.1)) :
    (shift n found).Pairwise (·.1 < ·.1) :=
  List.pairwise_map.mpr (h.imp fun h => Nat.add_lt_add_right h n)

/-- What opens a group has two characters at least. -/
theorem short (h : cs.length ≤ 1) : Shows cs [] where
  ascending := .nil
  mem_iff i name := by
    refine iff_of_false List.not_mem_nil ?_
    rintro ⟨front, rest, rfl, -, -, hopens⟩
    obtain ⟨_, rfl⟩ := hopens.parenthesis
    rw [List.length_append, List.length_cons, List.length_cons] at h
    omega

theorem single (hc : c ≠ '\\') (hnot : ∀ name, ¬Opens (c :: cs) name) (h : Shows cs found) :
    Shows (c :: cs) (shift 1 found) where
  ascending := pairwise_shift h.ascending
  mem_iff i name := by
    rw [opensAt_single hc, mem_shift, or_iff_right fun hopens => hnot name hopens.2]
    simp only [h.mem_iff]

theorem pair (h : Shows cs found) : Shows ('\\' :: c :: cs) (shift 2 found) where
  ascending := pairwise_shift h.ascending
  mem_iff i name := by
    rw [opensAt_pair, mem_shift]
    simp only [h.mem_iff]

theorem opener {name : String} (hopens : Opens ('(' :: cs) name) (h : Shows cs found) :
    Shows ('(' :: cs) ((0, name) :: shift 1 found) where
  ascending := by
    refine List.pairwise_cons.mpr ⟨fun ⟨i, other⟩ hmem => ?_, pairwise_shift h.ascending⟩
    obtain ⟨j, -, rfl⟩ := mem_shift.mp hmem
    exact Nat.zero_lt_succ j
  mem_iff i other := by
    rw [opensAt_single (by decide), List.mem_cons, mem_shift, Prod.mk.injEq]
    simp only [h.mem_iff]
    refine or_congr_left (and_congr_right fun _ => ⟨fun hother => hother ▸ hopens, ?_⟩)
    exact fun hother => hother.unique hopens

end Shows

/-- Between two units the search goes on and finds what the rest of the text shows. -/
theorem scanNamesFrom_shows (front : List Char) : ∀ rest, ∃ found, Shows rest found ∧
    scanNamesFrom (front ++ rest) (width front) (bytes rest) = some (found.map (·.2))
  | [] => ⟨[], .short (Nat.zero_le 1), rfl⟩
  | c :: cs => by
    by_cases hc : c = '\\'
    · subst hc
      match cs with
      | [] => exact ⟨[], .short (Nat.le_refl 1), rfl⟩
      | d :: cs =>
        obtain ⟨found, hshows, hscan⟩ := scanNamesFrom_shows (front ++ ['\\', d]) cs
        rw [List.append_assoc, width_append] at hscan
        exact ⟨_, hshows.pair, by rw [scanNamesFrom_pair, Shows.names_shift]; exact hscan⟩
    · obtain ⟨found, hshows, hscan⟩ := scanNamesFrom_shows (front ++ [c]) cs
      rw [List.append_assoc, width_append] at hscan
      by_cases hopens : ∃ name, Opens (c :: cs) name
      · obtain ⟨name, hopens⟩ := hopens
        obtain ⟨rest, hrest⟩ := hopens.parenthesis
        cases hrest
        exact ⟨_, hshows.opener hopens, by
          rw [scanNamesFrom_opener hopens.scanName?, List.map_cons, Shows.names_shift]
          exact congrArg (Option.map _) hscan⟩
      · rw [not_exists] at hopens
        refine ⟨_, hshows.single hc hopens, ?_⟩
        rw [Shows.names_shift, ← hscan]
        by_cases hparen : c = '(' ∧ cs.head? = some '?'
        · obtain ⟨rfl, hmark⟩ := hparen
          obtain ⟨rest, rfl⟩ := List.head?_eq_some_iff.mp hmark
          rw [scanNamesFrom_opener (scanName?_of_not_opens hopens)]
          exact Option.map_id'
        · exact scanNamesFrom_single hc hparen
termination_by rest => rest.length

/-- **The names of groups are found in every text.** The search cuts no character, and it finds the
groups that the text opens, from left to right. -/
theorem scanNames_shows (pattern : String) :
    ∃ found, Shows pattern.toList found ∧ scanNames pattern = some (found.map (·.2)) :=
  scanNamesFrom_shows [] pattern.toList

/-- The first parenthesis is hidden, the second one looks back. -/
example : scanNames "\\(?<a>é(?<=b)\\é(?<ü>(?P<c\\>d" = some ["c\\"] := by decide

end SplQuery.Regex

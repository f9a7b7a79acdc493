import Bindery.Proofs.Text.Coding
import Mathlib.Data.List.Forall2

/-!
# Reading bytes with replacement

A character has one of nine forms, and a form has a range for each of its bytes.  Well-formed bytes
are such characters one after the other.  Where bytes have no character in front, the longest
stretch that begins one is ill-formed, or else a single byte, and U+FFFD is read for it.  This rule
leaves no choice, so it says which text any bytes are read as.

* `Utf8.isCharacter_iff`: the forms are those that characters are written in.
* `Utf8.isIllFormed_of_unitAt`, `Utf8.IsIllFormed.unique`: the units that are no characters are the
  ill-formed stretches.
* `Utf8.readsAs_iff`: the rule and the decoder give the same text.
* `Utf8.encode_decodeReplacing`: what is left of the bytes when the text is written again.
-/

namespace Bindery.Utf8

variable {a b c d : UInt8} {bs front rest stretch : List UInt8} {s : Text}

/-! ## Characters -/

/-- The forms of a character: the least and the greatest value of each of its bytes. -/
def forms : List (List (UInt8 × UInt8)) :=
  [ [(0x00, 0x7f)],
    [(0xc2, 0xdf), (0x80, 0xbf)],
    [(0xe0, 0xe0), (0xa0, 0xbf), (0x80, 0xbf)],
    [(0xe1, 0xec), (0x80, 0xbf), (0x80, 0xbf)],
    [(0xed, 0xed), (0x80, 0x9f), (0x80, 0xbf)],
    [(0xee, 0xef), (0x80, 0xbf), (0x80, 0xbf)],
    [(0xf0, 0xf0), (0x90, 0xbf), (0x80, 0xbf), (0x80, 0xbf)],
    [(0xf1, 0xf3), (0x80, 0xbf), (0x80, 0xbf), (0x80, 0xbf)],
    [(0xf4, 0xf4), (0x80, 0x8f), (0x80, 0xbf), (0x80, 0xbf)] ]

/-- The bytes have one of the forms of a character. -/
def IsCharacter (bs : List UInt8) : Prop :=
  ∃ form ∈ forms, List.Forall₂ (fun range b => range.1 ≤ b ∧ b ≤ range.2) form bs

theorem IsCharacter.length (h : IsCharacter bs) : 0 < bs.length ∧ bs.length ≤ 4 := by
  obtain ⟨form, hform, hranges⟩ := h
  have hforms : ∀ form ∈ forms, 0 < form.length ∧ form.length ≤ 4 := by decide
  rw [← hranges.length_eq]
  exact hforms form hform

theorem isCharacter_one : IsCharacter [a] ↔ a < 0x80 := by
  simp [IsCharacter, forms, UInt8.le_iff_toNat_le, UInt8.lt_iff_toNat_lt]
  omega

theorem isCharacter_two :
    IsCharacter [a, b] ↔ ¬ a < 0xc2 ∧ a < 0xe0 ∧ isSecond a b = true := by
  simp [IsCharacter, forms, UInt8.le_iff_toNat_le, UInt8.lt_iff_toNat_lt, isSecond_iff]
  omega

theorem isCharacter_three :
    IsCharacter [a, b, c] ↔
      ¬ a < 0xe0 ∧ a < 0xf0 ∧ isSecond a b = true ∧ isContinuation c = true := by
  simp [IsCharacter, forms, UInt8.le_iff_toNat_le, UInt8.lt_iff_toNat_lt, isSecond_iff,
    isContinuation_iff]
  omega

theorem isCharacter_four :
    IsCharacter [a, b, c, d] ↔
      ¬ a < 0xf0 ∧ a < 0xf5 ∧ isSecond a b = true ∧ isContinuation c = true ∧
        isContinuation d = true := by
  simp [IsCharacter, forms, UInt8.le_iff_toNat_le, UInt8.lt_iff_toNat_lt, isSecond_iff,
    isContinuation_iff]
  omega

/-- The bytes that a character is read from have one of the forms. -/
theorem isCharacter_of_unitAt {r bytes : List UInt8} {char : Char}
    (h : unitAt a r = .scalar char bytes) : IsCharacter bytes := by
  revert h
  fun_cases unitAt a r
  case case1 ha =>
    rintro ⟨⟩
    exact isCharacter_one.2 ha
  case case4 _ hlow hhigh b _ hb =>
    rintro ⟨⟩
    exact isCharacter_two.2 ⟨hlow, hhigh, hb⟩
  case case8 _ _ hlow hhigh b hb c _ hc =>
    rintro ⟨⟩
    exact isCharacter_three.2 ⟨hlow, hhigh, hb, hc⟩
  case case14 _ _ _ hlow hhigh b hb c hc d _ hd =>
    rintro ⟨⟩
    exact isCharacter_four.2 ⟨hlow, hhigh, hb, hc, hd⟩
  all_goals rintro ⟨⟩

/-- The forms are those that characters are written in, and there are no others. -/
theorem isCharacter_iff : IsCharacter bs ↔ ∃ char, String.utf8EncodeChar char = bs := by
  constructor
  · intro h
    match bs, h.length, h with
    | [a], _, h => exact ⟨_, utf8EncodeChar_one (isCharacter_one.1 h)⟩
    | [a, b], _, h =>
      obtain ⟨hlow, hhigh, hb⟩ := isCharacter_two.1 h
      exact ⟨_, utf8EncodeChar_two hlow hhigh hb⟩
    | [a, b, c], _, h =>
      obtain ⟨hlow, hhigh, hb, hc⟩ := isCharacter_three.1 h
      exact ⟨_, utf8EncodeChar_three hlow hhigh hb hc⟩
    | [a, b, c, d], _, h =>
      obtain ⟨hlow, hhigh, hb, hc, hd⟩ := isCharacter_four.1 h
      exact ⟨_, utf8EncodeChar_four hlow hhigh hb hc hd⟩
  · rintro ⟨char, rfl⟩
    obtain ⟨a, front, hbytes⟩ :=
      List.exists_cons_of_ne_nil (String.utf8EncodeChar_ne_nil (c := char))
    rw [hbytes]
    exact isCharacter_of_unitAt (unitAt_of_utf8EncodeChar hbytes [])

/-- Where the bytes have a character in front, it is read. -/
theorem exists_unitAt_of_isCharacter {r after : List UInt8} (h : IsCharacter front)
    (heq : a :: r = front ++ after) : ∃ char, unitAt a r = .scalar char front := by
  obtain ⟨char, hchar⟩ := isCharacter_iff.1 h
  cases front with
  | nil => exact absurd hchar String.utf8EncodeChar_ne_nil
  | cons b front =>
    obtain ⟨rfl, rfl⟩ := List.cons.inj heq
    exact ⟨char, unitAt_of_utf8EncodeChar hchar after⟩

/-! ## Well-formed bytes -/

/-- The bytes are characters one after the other. -/
inductive IsWellFormed : List UInt8 → Prop
  | nil : IsWellFormed []
  | cons {bs rest : List UInt8} :
    IsCharacter bs → IsWellFormed rest → IsWellFormed (bs ++ rest)

/-- Well-formed bytes are those that texts are written as. -/
theorem isWellFormed_iff : IsWellFormed bs ↔ ∃ s, bs = encode s := by
  constructor
  · intro h
    induction h with
    | nil => exact ⟨[], rfl⟩
    | cons hcharacter _ ih =>
      obtain ⟨char, rfl⟩ := isCharacter_iff.1 hcharacter
      obtain ⟨s, rfl⟩ := ih
      exact ⟨char :: s, (encode_cons char s).symm⟩
  · rintro ⟨s, rfl⟩
    induction s with
    | nil => exact .nil
    | cons char s ih =>
      rw [encode_cons]
      exact .cons (isCharacter_iff.2 ⟨char, rfl⟩) ih

/-! ## Beginnings of characters -/

/-- The bytes are a beginning of a character, or all of it. -/
def BeginsCharacter (front : List UInt8) : Prop :=
  ∃ tail, IsCharacter (front ++ tail)

theorem BeginsCharacter.of_append (h : BeginsCharacter (front ++ rest)) :
    BeginsCharacter front := by
  obtain ⟨tail, h⟩ := h
  exact ⟨rest ++ tail, by rwa [← List.append_assoc]⟩

theorem beginsCharacter_two :
    BeginsCharacter [a, b] ↔ ¬ a < 0xc2 ∧ a < 0xf5 ∧ isSecond a b = true := by
  constructor
  · rintro ⟨tail, h⟩
    match tail, h.length, h with
    | [], _, h =>
      obtain ⟨hlow, hhigh, hb⟩ := isCharacter_two.1 h
      exact ⟨hlow, UInt8.lt_trans hhigh (by decide), hb⟩
    | [c], _, h =>
      obtain ⟨hlow, hhigh, hb, -⟩ := isCharacter_three.1 h
      exact ⟨fun hbelow => hlow (UInt8.lt_trans hbelow (by decide)),
        UInt8.lt_trans hhigh (by decide), hb⟩
    | [c, d], _, h =>
      obtain ⟨hlow, hhigh, hb, -⟩ := isCharacter_four.1 h
      exact ⟨fun hbelow => hlow (UInt8.lt_trans hbelow (by decide)), hhigh, hb⟩
  · rintro ⟨hlow, hhigh, hb⟩
    by_cases htwo : a < 0xe0
    · exact ⟨[], isCharacter_two.2 ⟨hlow, htwo, hb⟩⟩
    by_cases hthree : a < 0xf0
    · exact ⟨[0x80], isCharacter_three.2 ⟨htwo, hthree, hb, rfl⟩⟩
    · exact ⟨[0x80, 0x80], isCharacter_four.2 ⟨hthree, hhigh, hb, rfl, rfl⟩⟩

theorem beginsCharacter_three :
    BeginsCharacter [a, b, c] ↔
      ¬ a < 0xe0 ∧ a < 0xf5 ∧ isSecond a b = true ∧ isContinuation c = true := by
  constructor
  · rintro ⟨tail, h⟩
    match tail, h.length, h with
    | [], _, h =>
      obtain ⟨hlow, hhigh, hb, hc⟩ := isCharacter_three.1 h
      exact ⟨hlow, UInt8.lt_trans hhigh (by decide), hb, hc⟩
    | [d], _, h =>
      obtain ⟨hlow, hhigh, hb, hc, -⟩ := isCharacter_four.1 h
      exact ⟨fun hbelow => hlow (UInt8.lt_trans hbelow (by decide)), hhigh, hb, hc⟩
  · rintro ⟨hlow, hhigh, hb, hc⟩
    by_cases hthree : a < 0xf0
    · exact ⟨[], isCharacter_three.2 ⟨hlow, hthree, hb, hc⟩⟩
    · exact ⟨[0x80], isCharacter_four.2 ⟨hthree, hhigh, hb, hc, rfl⟩⟩

theorem BeginsCharacter.isContinuation (h : BeginsCharacter [a, b, c, d]) :
    isContinuation d = true := by
  obtain ⟨tail, h⟩ := h
  match tail, h.length, h with
  | [], _, h =>
    obtain ⟨-, -, -, -, hd⟩ := isCharacter_four.1 h
    exact hd

/-! ## Ill-formed stretches -/

/-- A stretch where the bytes have no character in front, and the bytes after it: the longest
stretch that begins a character, or a single byte. -/
structure IsIllFormed (stretch rest : List UInt8) : Prop where
  ne_nil : stretch ≠ []
  not_character : ∀ front after, IsCharacter front → stretch ++ rest ≠ front ++ after
  begins : BeginsCharacter stretch ∨ stretch.length = 1
  /-- No longer stretch begins a character. -/
  longest : ∀ b after, rest = b :: after → ¬ BeginsCharacter (stretch ++ [b])

/-- An ill-formed stretch is not the beginning of another one. -/
theorem IsIllFormed.eq_nil {more : List UInt8} (h : IsIllFormed stretch (more ++ rest))
    (h' : IsIllFormed (stretch ++ more) rest) : more = [] := by
  cases more with
  | nil => rfl
  | cons b more =>
    exfalso
    have hlongest := h.longest b (more ++ rest) rfl
    rcases h'.begins with hbegins | hone
    · rw [List.append_cons] at hbegins
      exact hlongest hbegins.of_append
    · have hpos : 0 < stretch.length := List.length_pos_iff.2 h.ne_nil
      rw [List.length_append, List.length_cons] at hone
      omega

theorem IsIllFormed.unique {stretch' rest' : List UInt8} (h : IsIllFormed stretch rest)
    (h' : IsIllFormed stretch' rest') (heq : stretch ++ rest = stretch' ++ rest') :
    stretch = stretch' ∧ rest = rest' := by
  rcases List.append_eq_append_iff.1 heq with ⟨more, rfl, rfl⟩ | ⟨more, rfl, rfl⟩
  · obtain rfl := h.eq_nil h'
    exact ⟨(List.append_nil _).symm, rfl⟩
  · obtain rfl := h'.eq_nil h
    exact ⟨List.append_nil _, rfl⟩

/-- Two or three bytes are given up together only where they begin a character. -/
theorem beginsCharacter_or_length_of_unitAt {flaw : Flaw} {r : List UInt8}
    (h : unitAt a r = .illFormed flaw stretch) :
    BeginsCharacter stretch ∨ stretch.length = 1 := by
  revert h
  fun_cases unitAt a r
  case case1 | case4 | case8 | case14 => rintro ⟨⟩
  case case7 _ hlow _ hhigh b hb | case9 _ hlow _ hhigh b hb _ _ _ =>
    rintro ⟨⟩
    exact .inl (beginsCharacter_two.2 ⟨hlow, UInt8.lt_trans hhigh (by decide), hb⟩)
  case case12 _ hlow _ _ hhigh b hb | case16 _ hlow _ _ hhigh b hb _ _ _ =>
    rintro ⟨⟩
    exact .inl (beginsCharacter_two.2 ⟨hlow, hhigh, hb⟩)
  case case13 _ _ hlow _ hhigh b hb c hc | case15 _ _ hlow _ hhigh b hb c hc _ _ _ =>
    rintro ⟨⟩
    exact .inl (beginsCharacter_three.2 ⟨hlow, hhigh, hb, hc⟩)
  all_goals
    rintro ⟨⟩
    exact .inr rfl

/-- The byte after an ill-formed unit does not go on with it. -/
theorem not_beginsCharacter_of_unitAt {flaw : Flaw} {r : List UInt8}
    (h : unitAt a r = .illFormed flaw stretch) (heq : a :: r = stretch ++ b :: rest) :
    ¬ BeginsCharacter (stretch ++ [b]) := by
  revert h
  fun_cases unitAt a r
  case case1 | case4 | case8 | case14 => rintro ⟨⟩
  -- The first byte begins no character.
  case case2 _ ha =>
    rintro ⟨⟩ hbegins
    obtain ⟨hlow, -⟩ := beginsCharacter_two.1 hbegins
    exact hlow ha
  case case18 _ _ _ _ ha =>
    rintro ⟨⟩ hbegins
    obtain ⟨-, hhigh, -⟩ := beginsCharacter_two.1 hbegins
    exact ha hhigh
  -- The second byte is not in the range that the first one asks for.
  case case5 _ _ _ _ _ hb | case10 _ _ _ _ _ _ hb | case17 _ _ _ _ _ _ _ hb =>
    rintro ⟨⟩ hbegins
    cases heq
    obtain ⟨-, -, hsecond⟩ := beginsCharacter_two.1 hbegins
    exact hb hsecond
  -- The third or the fourth byte is no continuation byte.
  case case9 _ _ _ _ _ _ _ _ hc | case16 _ _ _ _ _ _ _ _ _ hc =>
    rintro ⟨⟩ hbegins
    cases heq
    obtain ⟨-, -, -, hcontinuation⟩ := beginsCharacter_three.1 hbegins
    exact hc hcontinuation
  case case15 _ _ _ _ _ _ _ _ _ _ _ hd =>
    rintro ⟨⟩ hbegins
    cases heq
    exact hd hbegins.isContinuation
  -- The bytes end within the character, so there is no byte after the stretch.
  all_goals
    rintro ⟨⟩
    cases heq

/-- A unit that is no character is an ill-formed stretch. -/
theorem isIllFormed_of_unitAt {flaw : Flaw} {r : List UInt8}
    (h : unitAt a r = .illFormed flaw stretch) :
    IsIllFormed stretch (r.drop (stretch.length - 1)) := by
  have hsplit := bytes_append_drop a r
  rw [h, Unit.bytes] at hsplit
  refine ⟨?_, fun front after hfront heq => ?_, beginsCharacter_or_length_of_unitAt h,
    fun b after hrest => ?_⟩
  · rintro rfl
    obtain ⟨front, -, hbytes, -⟩ := bytes_unitAt a r
    rw [h] at hbytes
    cases hbytes
  · obtain ⟨char, hunit⟩ := exists_unitAt_of_isCharacter hfront (hsplit.symm.trans heq)
    rw [h] at hunit
    cases hunit
  · rw [hrest] at hsplit
    exact not_beginsCharacter_of_unitAt h hsplit.symm

/-- An ill-formed stretch in front is the first unit. -/
theorem exists_units_of_isIllFormed (h : IsIllFormed stretch rest) :
    ∃ flaw, units (stretch ++ rest) = .illFormed flaw stretch :: units rest := by
  obtain ⟨a, front, rfl⟩ := List.exists_cons_of_ne_nil h.ne_nil
  have hsplit := bytes_append_drop a (front ++ rest)
  rw [List.cons_append, units]
  cases hunit : unitAt a (front ++ rest) with
  | scalar char bytes =>
    rw [hunit] at hsplit
    exact absurd hsplit.symm (h.not_character _ _ (isCharacter_of_unitAt hunit))
  | illFormed flaw bytes =>
    rw [hunit] at hsplit
    obtain ⟨rfl, hrest⟩ := (isIllFormed_of_unitAt hunit).unique h hsplit
    exact ⟨flaw, by simp only [Unit.bytes, hrest]⟩

/-! ## Reading with replacement -/

/-- The bytes are read as the text: the characters that are there, and U+FFFD for each ill-formed
stretch. -/
inductive ReadsAs : List UInt8 → Text → Prop
  | nil : ReadsAs [] []
  | character {rest : List UInt8} {s : Text} (char : Char) :
    ReadsAs rest s → ReadsAs (String.utf8EncodeChar char ++ rest) (char :: s)
  | illFormed {stretch rest : List UInt8} {s : Text} :
    IsIllFormed stretch rest → ReadsAs rest s → ReadsAs (stretch ++ rest) ('\ufffd' :: s)

theorem readsAs_decodeReplacing (bs : List UInt8) : ReadsAs bs (decodeReplacing bs) := by
  rw [decodeReplacing]
  fun_induction units bs with
  | case1 => exact .nil
  | case2 a r u ih =>
    have hsplit : u.bytes ++ r.drop (u.bytes.length - 1) = a :: r := bytes_append_drop a r
    rw [← hsplit, List.map_cons]
    cases hunit : u with
    | scalar char bytes =>
      rw [hunit] at ih
      obtain rfl := utf8EncodeChar_of_unitAt hunit
      exact .character char ih
    | illFormed flaw stretch =>
      rw [hunit] at ih
      exact .illFormed (isIllFormed_of_unitAt hunit) ih

theorem ReadsAs.eq_decodeReplacing (h : ReadsAs bs s) : s = decodeReplacing bs := by
  induction h with
  | nil => rw [decodeReplacing, units, List.map_nil]
  | character char _ ih =>
    rw [decodeReplacing, units_utf8EncodeChar_append, List.map_cons, ih]
    rfl
  | illFormed hstretch _ ih =>
    obtain ⟨flaw, hunits⟩ := exists_units_of_isIllFormed hstretch
    rw [decodeReplacing, hunits, List.map_cons, ih]
    rfl

/-- Every byte sequence is read as one text, and this text is found. -/
theorem readsAs_iff : ReadsAs bs s ↔ s = decodeReplacing bs :=
  ⟨ReadsAs.eq_decodeReplacing, fun h => h ▸ readsAs_decodeReplacing bs⟩

theorem readsAs_encode (s : Text) : ReadsAs (encode s) s := by
  induction s with
  | nil => exact .nil
  | cons char s ih =>
    rw [encode_cons]
    exact .character char ih

/-- **Bytes that are read with replacement and written again are never fewer, and they are the same
bytes exactly if they are well-formed.**  What is read is the one text that the rule gives. -/
theorem encode_decodeReplacing (bs : List UInt8) :
    (∀ s, ReadsAs bs s ↔ s = decodeReplacing bs) ∧
      bs.length ≤ (encode (decodeReplacing bs)).length ∧
      (encode (decodeReplacing bs) = bs ↔ IsWellFormed bs) := by
  refine ⟨fun s => readsAs_iff, ?_, fun h => ?_, fun h => ?_⟩
  · rw [length_encode]
    exact length_le_byteLength_decodeReplacing bs
  · exact isWellFormed_iff.2 ⟨decodeReplacing bs, h.symm⟩
  · obtain ⟨s, rfl⟩ := isWellFormed_iff.1 h
    rw [← (readsAs_encode s).eq_decodeReplacing]

/-- A character of four bytes that is cut off: as many bytes as before, but others. -/
example : encode (decodeReplacing [0xf0, 0x9f, 0x92]) = [0xef, 0xbf, 0xbd] := by cbv

end Bindery.Utf8

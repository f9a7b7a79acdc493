import Bindery.Proofs.Outcome
import Bindery.Proofs.Text.Utf8

/-!
# Texts and their bytes

The bytes that are read as a text without any ill-formed stretch are those that the text is written
as, and no others: a character is read from the bytes that it is written as, whatever follows them,
and a unit that is a character is written as the bytes that it was read from.

* `Utf8.unitAt_of_utf8EncodeChar`, `Utf8.utf8EncodeChar_of_unitAt`: for one character.
* `Utf8.decode_eq_ok_iff`: for a byte sequence.
-/

namespace Bindery.Utf8

variable {a b c d : UInt8}

/-! ## Code points -/

/-- The bytes of a code point, by its size. -/
theorem utf8EncodeChar_ofNat {n : Nat} (hn : n.isValidChar) :
    String.utf8EncodeChar (Char.ofNat n) =
      if n ≤ 127 then [UInt8.ofNat n]
      else if n ≤ 2047 then [UInt8.ofNat (n / 64 % 32 + 192), UInt8.ofNat (n % 64 + 128)]
      else if n ≤ 65535 then [UInt8.ofNat (n / 4096 % 16 + 224), UInt8.ofNat (n / 64 % 64 + 128),
        UInt8.ofNat (n % 64 + 128)]
      else [UInt8.ofNat (n / 262144 % 8 + 240), UInt8.ofNat (n / 4096 % 64 + 128),
        UInt8.ofNat (n / 64 % 64 + 128), UInt8.ofNat (n % 64 + 128)] := by
  have hval : (Char.ofNat n).val.toNat = n := by
    rw [Char.ofNat, dif_pos hn]
    rfl
  simp only [String.utf8EncodeChar, hval]

/-- A byte is the one of a number that it has as its value. -/
theorem ofNat_eq {n : Nat} (hn : n = a.toNat) : UInt8.ofNat n = a := by
  rw [hn, UInt8.ofNat_toNat]

/-! ## From bytes to a character -/

theorem utf8EncodeChar_one (ha : a < 0x80) :
    String.utf8EncodeChar (Char.ofNat a.toNat) = [a] := by
  simp only [UInt8.lt_iff_toNat_lt, UInt8.reduceToNat] at ha
  rw [utf8EncodeChar_ofNat (Or.inl (by omega)), if_pos (by omega), UInt8.ofNat_toNat]

theorem utf8EncodeChar_two (hlow : ¬ a < 0xc2) (hhigh : a < 0xe0) (hb : isSecond a b = true) :
    String.utf8EncodeChar (Char.ofNat (a.toNat % 0x20 * 0x40 + payload b)) = [a, b] := by
  simp only [UInt8.lt_iff_toNat_lt, UInt8.reduceToNat] at hlow hhigh
  obtain ⟨hblow, hbhigh, -⟩ := isSecond_iff.1 hb
  rw [payload, utf8EncodeChar_ofNat (Or.inl (by omega)), if_neg (by omega), if_pos (by omega),
    ofNat_eq (a := a) (by omega), ofNat_eq (a := b) (by omega)]

theorem utf8EncodeChar_three (hlow : ¬ a < 0xe0) (hhigh : a < 0xf0) (hb : isSecond a b = true)
    (hc : isContinuation c = true) :
    String.utf8EncodeChar (Char.ofNat (a.toNat % 0x10 * 0x1000 + payload b * 0x40 + payload c)) =
      [a, b, c] := by
  simp only [UInt8.lt_iff_toNat_lt, UInt8.reduceToNat] at hlow hhigh
  obtain ⟨hblow, hbhigh, hoverlong, hsurrogate, -⟩ := isSecond_iff.1 hb
  obtain ⟨hclow, hchigh⟩ := isContinuation_iff.1 hc
  have hvalid : (a.toNat % 0x10 * 0x1000 + b.toNat % 0x40 * 0x40 + c.toNat % 0x40).isValidChar := by
    by_cases hbelow : a.toNat ≤ 0xed
    · exact Or.inl (by omega)
    · exact Or.inr (by omega)
  rw [payload, payload, utf8EncodeChar_ofNat hvalid, if_neg (by omega), if_neg (by omega),
    if_pos (by omega), ofNat_eq (a := a) (by omega), ofNat_eq (a := b) (by omega),
    ofNat_eq (a := c) (by omega)]

theorem utf8EncodeChar_four (hlow : ¬ a < 0xf0) (hhigh : a < 0xf5) (hb : isSecond a b = true)
    (hc : isContinuation c = true) (hd : isContinuation d = true) :
    String.utf8EncodeChar (Char.ofNat (a.toNat % 0x8 * 0x40000 + payload b * 0x1000 +
      payload c * 0x40 + payload d)) = [a, b, c, d] := by
  simp only [UInt8.lt_iff_toNat_lt, UInt8.reduceToNat] at hlow hhigh
  obtain ⟨hblow, hbhigh, -, -, hoverlong, htop⟩ := isSecond_iff.1 hb
  obtain ⟨hclow, hchigh⟩ := isContinuation_iff.1 hc
  obtain ⟨hdlow, hdhigh⟩ := isContinuation_iff.1 hd
  rw [payload, payload, payload, utf8EncodeChar_ofNat (Or.inr (by omega)), if_neg (by omega),
    if_neg (by omega), if_neg (by omega), ofNat_eq (a := a) (by omega), ofNat_eq (a := b) (by omega),
    ofNat_eq (a := c) (by omega), ofNat_eq (a := d) (by omega)]

/-- A unit that is a character was read from the bytes that the character is written as. -/
theorem utf8EncodeChar_of_unitAt {r bytes : List UInt8} {char : Char}
    (h : unitAt a r = .scalar char bytes) : String.utf8EncodeChar char = bytes := by
  revert h
  fun_cases unitAt a r
  case case1 ha =>
    rintro ⟨⟩
    exact utf8EncodeChar_one ha
  case case4 _ hlow hhigh b _ hb =>
    rintro ⟨⟩
    exact utf8EncodeChar_two hlow hhigh hb
  case case8 _ _ hlow hhigh b hb c _ hc =>
    rintro ⟨⟩
    exact utf8EncodeChar_three hlow hhigh hb hc
  case case14 _ _ _ hlow hhigh b hb c hc d _ hd =>
    rintro ⟨⟩
    exact utf8EncodeChar_four hlow hhigh hb hc hd
  all_goals rintro ⟨⟩

/-! ## From a character to its bytes -/

theorem toNat_ofNat {n : Nat} (hn : n < 256) : (UInt8.ofNat n).toNat = n := by
  rw [UInt8.toNat_ofNat', Nat.mod_eq_of_lt hn]

theorem isContinuation_ofNat (n : Nat) : isContinuation (UInt8.ofNat (n % 64 + 128)) = true := by
  rw [isContinuation_iff, toNat_ofNat (by omega)]
  omega

theorem payload_ofNat (n : Nat) : payload (UInt8.ofNat (n % 64 + 128)) = n % 64 := by
  rw [payload, toNat_ofNat (by omega)]
  omega

/-- A continuation byte may stand second, unless a first byte of a smaller range is before it. -/
theorem isSecond_ofNat {m n : Nat} (hm : m < 256) (hoverlong : m = 0xe0 → 32 ≤ n % 64)
    (hsurrogate : m = 0xed → n % 64 < 32) (hplane : m = 0xf0 → 16 ≤ n % 64)
    (htop : m = 0xf4 → n % 64 < 16) :
    isSecond (UInt8.ofNat m) (UInt8.ofNat (n % 64 + 128)) = true := by
  rw [isSecond_iff, toNat_ofNat hm, toNat_ofNat (by omega)]
  omega

theorem ofNat_lt_iff {m : Nat} (hm : m < 256) : UInt8.ofNat m < b ↔ m < b.toNat := by
  rw [UInt8.lt_iff_toNat_lt, toNat_ofNat hm]

theorem unitAt_two {n : Nat} (hlow : 128 ≤ n) (hhigh : n ≤ 2047) (r : List UInt8) :
    unitAt (UInt8.ofNat (n / 64 % 32 + 192)) (UInt8.ofNat (n % 64 + 128) :: r) =
      .scalar (Char.ofNat n)
        [UInt8.ofNat (n / 64 % 32 + 192), UInt8.ofNat (n % 64 + 128)] := by
  have hfirst : n / 64 % 32 + 192 < 256 := by omega
  have hsecond := isSecond_ofNat (n := n) hfirst (by omega) (by omega) (by omega) (by omega)
  have hcode : (n / 64 % 32 + 192) % 0x20 * 0x40 + n % 64 = n := by omega
  simp only [unitAt, ofNat_lt_iff hfirst, UInt8.reduceToNat, toNat_ofNat hfirst, payload_ofNat,
    hsecond, hcode, if_true]
  rw [if_neg (by omega), if_neg (by omega), if_pos (by omega)]

theorem unitAt_three {n : Nat} (hlow : 2048 ≤ n) (hhigh : n ≤ 65535) (hvalid : n.isValidChar)
    (r : List UInt8) :
    unitAt (UInt8.ofNat (n / 4096 % 16 + 224))
        (UInt8.ofNat (n / 64 % 64 + 128) :: UInt8.ofNat (n % 64 + 128) :: r) =
      .scalar (Char.ofNat n) [UInt8.ofNat (n / 4096 % 16 + 224),
        UInt8.ofNat (n / 64 % 64 + 128), UInt8.ofNat (n % 64 + 128)] := by
  have hfirst : n / 4096 % 16 + 224 < 256 := by omega
  have hsecond := isSecond_ofNat (n := n / 64) hfirst (by omega)
    (by rcases hvalid with hvalid | hvalid <;> omega) (by omega) (by omega)
  have hcode : (n / 4096 % 16 + 224) % 0x10 * 0x1000 + n / 64 % 64 * 0x40 + n % 64 = n := by omega
  simp only [unitAt, ofNat_lt_iff hfirst, UInt8.reduceToNat, toNat_ofNat hfirst, payload_ofNat,
    isContinuation_ofNat, hsecond, hcode, if_true]
  rw [if_neg (by omega), if_neg (by omega), if_neg (by omega), if_pos (by omega)]

theorem unitAt_four {n : Nat} (hlow : 65536 ≤ n) (hhigh : n < 0x110000) (r : List UInt8) :
    unitAt (UInt8.ofNat (n / 262144 % 8 + 240)) (UInt8.ofNat (n / 4096 % 64 + 128) ::
        UInt8.ofNat (n / 64 % 64 + 128) :: UInt8.ofNat (n % 64 + 128) :: r) =
      .scalar (Char.ofNat n) [UInt8.ofNat (n / 262144 % 8 + 240),
        UInt8.ofNat (n / 4096 % 64 + 128), UInt8.ofNat (n / 64 % 64 + 128),
        UInt8.ofNat (n % 64 + 128)] := by
  have hfirst : n / 262144 % 8 + 240 < 256 := by omega
  have hsecond := isSecond_ofNat (n := n / 4096) hfirst (by omega) (by omega) (by omega) (by omega)
  have hcode : (n / 262144 % 8 + 240) % 0x8 * 0x40000 + n / 4096 % 64 * 0x1000 +
      n / 64 % 64 * 0x40 + n % 64 = n := by omega
  simp only [unitAt, ofNat_lt_iff hfirst, UInt8.reduceToNat, toNat_ofNat hfirst, payload_ofNat,
    isContinuation_ofNat, hsecond, hcode, if_true]
  rw [if_neg (by omega), if_neg (by omega), if_neg (by omega), if_neg (by omega),
    if_pos (by omega)]

/-- A character is read from the bytes that it is written as, whatever follows them. -/
theorem unitAt_of_utf8EncodeChar {char : Char} {front : List UInt8}
    (h : String.utf8EncodeChar char = a :: front) (r : List UInt8) :
    unitAt a (front ++ r) = .scalar char (a :: front) := by
  have hvalid : char.toNat.isValidChar := char.valid
  have hchar : Char.ofNat char.toNat = char := Char.ofNat_toNat char
  rw [← hchar, utf8EncodeChar_ofNat hvalid] at h
  rw [← hchar]
  generalize char.toNat = n at h hvalid
  split at h
  · next hone =>
    obtain ⟨rfl, rfl⟩ := List.cons.inj h
    have hascii : UInt8.ofNat n < 0x80 := (ofNat_lt_iff (by omega)).2 (Nat.lt_succ_of_le hone)
    rw [unitAt.eq_def, if_pos hascii, toNat_ofNat (by omega)]
  split at h
  · next hone htwo =>
    obtain ⟨rfl, rfl⟩ := List.cons.inj h
    exact unitAt_two (by omega) htwo r
  split at h
  · next _ htwo hthree =>
    obtain ⟨rfl, rfl⟩ := List.cons.inj h
    exact unitAt_three (by omega) hthree hvalid r
  · next _ _ hthree =>
    obtain ⟨rfl, rfl⟩ := List.cons.inj h
    exact unitAt_four (by omega) (by rcases hvalid with hvalid | hvalid <;> omega) r

/-! ## Byte sequences -/

theorem encode_cons (char : Char) (s : Text) :
    encode (char :: s) = String.utf8EncodeChar char ++ encode s :=
  List.flatMap_cons

theorem length_encode (s : Text) : (encode s).length = byteLength s := by
  induction s with
  | nil => rfl
  | cons char s ih =>
    rw [encode_cons, List.length_append, String.length_utf8EncodeChar, ih, byteLength_cons]

/-- A unit's bytes, and those that the next unit is read from. -/
theorem bytes_append_drop (a : UInt8) (r : List UInt8) :
    (unitAt a r).bytes ++ r.drop ((unitAt a r).bytes.length - 1) = a :: r := by
  obtain ⟨front, rest, hbytes, rfl⟩ := bytes_unitAt a r
  rw [hbytes, List.length_cons, Nat.add_sub_cancel, List.drop_left, List.cons_append]

/-- A character is the first unit of the bytes that it is written as, whatever follows them. -/
theorem units_utf8EncodeChar_append (char : Char) (r : List UInt8) :
    units (String.utf8EncodeChar char ++ r) =
      .scalar char (String.utf8EncodeChar char) :: units r := by
  obtain ⟨a, front, hbytes⟩ := List.exists_cons_of_ne_nil (String.utf8EncodeChar_ne_nil (c := char))
  have hunit := unitAt_of_utf8EncodeChar hbytes r
  rw [hbytes, List.cons_append, units]
  simp only [hunit, Unit.bytes, List.length_cons, Nat.add_sub_cancel, List.drop_left]

/-- **The bytes of a text are read as that text.** -/
theorem decode_encode (s : Text) : decode (encode s) = .ok s := by
  have hunits : ∀ position, decodeUnits position (units (encode s)) = .ok s := by
    induction s with
    | nil =>
      intro position
      rw [encode, List.flatMap_nil, units, decodeUnits]
    | cons char s ih =>
      intro position
      rw [encode_cons, units_utf8EncodeChar_append, decodeUnits, ih]
      rfl
  exact hunits 0

/-- Units that are read as a text were read from the bytes of that text. -/
theorem eq_encode_of_decodeUnits {position : Nat} {bs : List UInt8} {s : Text}
    (h : decodeUnits position (units bs) = .ok s) : bs = encode s := by
  fun_induction units bs generalizing position s with
  | case1 =>
    obtain rfl := Except.ok.inj h
    rfl
  | case2 a r u =>
    rename_i ih
    have hsplit : u.bytes ++ r.drop (u.bytes.length - 1) = a :: r := bytes_append_drop a r
    cases hunit : u with
    | illFormed flaw bytes =>
      rw [hunit] at h
      cases h
    | scalar char bytes =>
      rw [hunit] at h hsplit ih
      rw [decodeUnits, map_eq_ok_iff] at h
      obtain ⟨t, ht, rfl⟩ := h
      rw [encode_cons, utf8EncodeChar_of_unitAt hunit, ← ih ht]
      exact hsplit.symm

/-- **Bytes are read as a text exactly if they are those of the text.** -/
theorem decode_eq_ok_iff {bs : List UInt8} {s : Text} : decode bs = .ok s ↔ bs = encode s :=
  ⟨eq_encode_of_decodeUnits, fun h => h ▸ decode_encode s⟩

end Bindery.Utf8

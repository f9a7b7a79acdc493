import Bindery.Text.Utf8

/-!
# The length of decoded bytes

Decoding with replacement never makes bytes fewer: a well-formed character is as long as the bytes
it is read from, and U+FFFD is as long as the longest ill-formed stretch.

* `Utf8.length_bytes_le`: for one unit.
* `Utf8.length_le_byteLength_decodeReplacing`: for a byte sequence.
-/

namespace Bindery.Utf8

variable {a b c d : UInt8}

/-! ## Texts -/

theorem byteLength_cons (c : Char) (s : Text) :
    byteLength (c :: s) = c.utf8Size + byteLength s :=
  rfl

theorem byteLength_append (s t : Text) :
    byteLength (s ++ t) = byteLength s + byteLength t := by
  induction s with
  | nil => exact (Nat.zero_add _).symm
  | cons c s ih => rw [List.cons_append, byteLength_cons, byteLength_cons, ih, Nat.add_assoc]

theorem byteLength_flatten (texts : List Text) :
    byteLength texts.flatten = texts.foldr (fun s n => byteLength s + n) 0 := by
  induction texts with
  | nil => rfl
  | cons s texts ih => rw [List.flatten_cons, byteLength_append, List.foldr_cons, ih]

theorem length_le_byteLength (s : Text) : s.length ≤ byteLength s := by
  induction s with
  | nil => exact Nat.le_refl 0
  | cons c s ih =>
    have hc : 0 < c.utf8Size := Char.utf8Size_pos c
    rw [byteLength_cons, List.length_cons]
    omega

theorem byteLength_le_of_sublist {s t : Text} (h : s.Sublist t) : byteLength s ≤ byteLength t := by
  induction h with
  | slnil => exact Nat.le_refl 0
  | cons c _ ih =>
    rw [byteLength_cons]
    exact Nat.le_add_left_of_le ih
  | cons_cons c _ ih =>
    rw [byteLength_cons, byteLength_cons]
    exact Nat.add_le_add_left ih _

/-! ## Code points -/

theorem utf8Size_ofNat {n : Nat} (hn : n.isValidChar) :
    (Char.ofNat n).utf8Size =
      if n ≤ 127 then 1 else if n ≤ 2047 then 2 else if n ≤ 65535 then 3 else 4 := by
  have hval : (Char.ofNat n).val.toNat = n := by
    rw [Char.ofNat, dif_pos hn]
    rfl
  simp only [Char.utf8Size, UInt32.le_iff_toNat_le, hval]
  rfl

theorem two_le_utf8Size {n : Nat} (hn : n.isValidChar) (hlow : 128 ≤ n) :
    2 ≤ (Char.ofNat n).utf8Size := by
  rw [utf8Size_ofNat hn, if_neg (by omega)]
  split
  · exact Nat.le_refl 2
  · split <;> omega

theorem three_le_utf8Size {n : Nat} (hn : n.isValidChar) (hlow : 2048 ≤ n) :
    3 ≤ (Char.ofNat n).utf8Size := by
  rw [utf8Size_ofNat hn, if_neg (by omega), if_neg (by omega)]
  split <;> omega

theorem four_le_utf8Size {n : Nat} (hn : n.isValidChar) (hlow : 65536 ≤ n) :
    4 ≤ (Char.ofNat n).utf8Size := by
  simp only [utf8Size_ofNat hn, if_neg (show ¬ n ≤ 65535 by omega),
    if_neg (show ¬ n ≤ 2047 by omega), if_neg (show ¬ n ≤ 127 by omega), Nat.le_refl]

/-! ## One unit -/

theorem isContinuation_iff : isContinuation b = true ↔ 128 ≤ b.toNat ∧ b.toNat < 192 := by
  simp [isContinuation, UInt8.le_iff_toNat_le, UInt8.lt_iff_toNat_lt]

/-- A second byte is a continuation byte, of a smaller range after four of the first bytes. -/
theorem isSecond_iff :
    isSecond a b = true ↔
      128 ≤ b.toNat ∧ b.toNat < 192 ∧ (a.toNat = 0xe0 → 0xa0 ≤ b.toNat) ∧
        (a.toNat = 0xed → b.toNat < 0xa0) ∧ (a.toNat = 0xf0 → 0x90 ≤ b.toNat) ∧
        (a.toNat = 0xf4 → b.toNat < 0x90) := by
  rw [isSecond]
  simp only [← UInt8.toNat_inj, UInt8.le_iff_toNat_le, UInt8.lt_iff_toNat_lt, UInt8.reduceToNat]
  split
  · rw [Bool.and_eq_true, decide_eq_true_eq, decide_eq_true_eq]
    omega
  split
  · rw [Bool.and_eq_true, decide_eq_true_eq, decide_eq_true_eq]
    omega
  split
  · rw [Bool.and_eq_true, decide_eq_true_eq, decide_eq_true_eq]
    omega
  split
  · rw [Bool.and_eq_true, decide_eq_true_eq, decide_eq_true_eq]
    omega
  · rw [isContinuation_iff]
    omega

theorem two_le_of_two (hlow : ¬ a < 0xc2) (hhigh : a < 0xe0) (hb : isSecond a b = true) :
    2 ≤ (Char.ofNat (a.toNat % 0x20 * 0x40 + payload b)).utf8Size := by
  simp only [UInt8.lt_iff_toNat_lt, UInt8.reduceToNat] at hlow hhigh
  obtain ⟨hblow, hbhigh, -⟩ := isSecond_iff.1 hb
  rw [payload]
  exact two_le_utf8Size (Or.inl (by omega)) (by omega)

/-- Neither an overlong form nor a surrogate is read from three bytes. -/
theorem three_le_of_three (hlow : ¬ a < 0xe0) (hhigh : a < 0xf0) (hb : isSecond a b = true)
    (hc : isContinuation c = true) :
    3 ≤ (Char.ofNat (a.toNat % 0x10 * 0x1000 + payload b * 0x40 + payload c)).utf8Size := by
  simp only [UInt8.lt_iff_toNat_lt, UInt8.reduceToNat] at hlow hhigh
  obtain ⟨hblow, hbhigh, hoverlong, hsurrogate, -⟩ := isSecond_iff.1 hb
  obtain ⟨hclow, hchigh⟩ := isContinuation_iff.1 hc
  rw [payload, payload]
  refine three_le_utf8Size ?_ (by omega)
  by_cases hbelow : a.toNat ≤ 0xed
  · exact Or.inl (by omega)
  · exact Or.inr (by omega)

/-- Neither an overlong form nor a code point above U+10FFFF is read from four bytes. -/
theorem four_le_of_four (hlow : ¬ a < 0xf0) (hhigh : a < 0xf5) (hb : isSecond a b = true)
    (hc : isContinuation c = true) (hd : isContinuation d = true) :
    4 ≤ (Char.ofNat (a.toNat % 0x8 * 0x40000 + payload b * 0x1000 + payload c * 0x40 +
      payload d)).utf8Size := by
  simp only [UInt8.lt_iff_toNat_lt, UInt8.reduceToNat] at hlow hhigh
  obtain ⟨hblow, hbhigh, -, -, hoverlong, htop⟩ := isSecond_iff.1 hb
  obtain ⟨hclow, hchigh⟩ := isContinuation_iff.1 hc
  obtain ⟨hdlow, hdhigh⟩ := isContinuation_iff.1 hd
  rw [payload, payload, payload]
  exact four_le_utf8Size (Or.inr (by omega)) (by omega)

theorem length_bytes_le_of_illFormed (flaw : Flaw) {bytes : List UInt8} (hbytes : bytes.length ≤ 3) :
    (Unit.illFormed flaw bytes).bytes.length ≤ (Unit.illFormed flaw bytes).replaced.utf8Size :=
  hbytes

/-- What is written for a unit is no shorter than the bytes it was read from. -/
theorem length_bytes_le (a : UInt8) (r : List UInt8) :
    (unitAt a r).bytes.length ≤ (unitAt a r).replaced.utf8Size := by
  fun_cases unitAt a r
  case case1 => exact Char.utf8Size_pos _
  case case4 _ hlow hhigh b _ hb => exact two_le_of_two hlow hhigh hb
  case case8 _ _ hlow hhigh b hb c _ hc => exact three_le_of_three hlow hhigh hb hc
  case case14 _ _ _ hlow hhigh b hb c hc d _ hd => exact four_le_of_four hlow hhigh hb hc hd
  all_goals exact length_bytes_le_of_illFormed _ (by simp)

/-! ## All units -/

theorem length_flatMap_bytes_le (bs : List UInt8) :
    ((units bs).flatMap Unit.bytes).length ≤ byteLength ((units bs).map Unit.replaced) := by
  fun_induction units bs with
  | case1 => exact Nat.le_refl 0
  | case2 a r u ih =>
    have hunit : u.bytes.length ≤ u.replaced.utf8Size := length_bytes_le a r
    rw [List.flatMap_cons, List.length_append, List.map_cons, byteLength_cons]
    exact Nat.add_le_add hunit ih

/-- Bytes are never fewer after decoding with replacement and encoding again. -/
theorem length_le_byteLength_decodeReplacing (bs : List UInt8) :
    bs.length ≤ byteLength (decodeReplacing bs) := by
  have h := length_flatMap_bytes_le bs
  rwa [flatMap_bytes_units] at h

end Bindery.Utf8

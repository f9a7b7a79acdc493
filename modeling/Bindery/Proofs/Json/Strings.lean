import Bindery.Json.Reader
import Bindery.Json.Writer
import Bindery.Proofs.Text.Ascii

/-!
# Strings that are written and read

A text in quotes is read as the text that was written, whatever its characters are and whether those
outside ASCII are escaped or not.  A character is written as itself, as an escape of one letter, or
by one or two code units; what comes after an escape by one code unit must not be taken for the
second half of a pair.

* `Json.stringBody_flatMap_stringChar`: a written text is read back.
* `Json.isPlainAscii_writeString`: it is ASCII, if characters outside ASCII are escaped.
-/

namespace Bindery

/-! ## Hexadecimal digits -/

/-- A number has the digits of its sixteenth, and one more. -/
theorem Text.hexadecimal_succ {width : Nat} (hwidth : 0 < width) (n : Nat) :
    Text.hexadecimal (width + 1) n =
      Text.hexadecimal width (n / 16) ++ [Nat.digitChar (n % 16)] := by
  unfold Text.hexadecimal
  by_cases hn : n < 16
  · have hzero : n / 16 = 0 := by omega
    have hone : Nat.toDigits 16 0 = ['0'] := rfl
    obtain ⟨w, rfl⟩ : ∃ w, width = w + 1 := ⟨width - 1, by omega⟩
    rw [Nat.toDigits_of_lt_base hn, hzero, hone, Nat.mod_eq_of_lt hn]
    simp [List.replicate_succ']
  · rw [Nat.toDigits_of_base_le (by omega) (by omega)]
    dsimp only
    rw [List.length_append, List.length_singleton, Nat.add_sub_add_right, List.append_assoc]

theorem Text.hexadecimal_four {n : Nat} (hn : n < 0x10000) :
    Text.hexadecimal 4 n = [Nat.digitChar (n / 4096), Nat.digitChar (n / 256 % 16),
      Nat.digitChar (n / 16 % 16), Nat.digitChar (n % 16)] := by
  have hone : Text.hexadecimal 1 (n / 16 / 16 / 16) = [Nat.digitChar (n / 4096)] := by
    have hdigit : n / 16 / 16 / 16 = n / 4096 := by omega
    rw [hdigit, Text.hexadecimal, Nat.toDigits_of_lt_base (by omega)]
    rfl
  rw [Text.hexadecimal_succ (by omega), Text.hexadecimal_succ (by omega),
    Text.hexadecimal_succ (by omega), hone, Nat.div_div_eq_div_mul]
  rfl

namespace Json

theorem hexDigit?_digitChar : ∀ d, d < 16 → hexDigit? (Nat.digitChar d) = some d := by
  decide

/-- The code unit that four digits were written for is read from them. -/
theorem codeUnit?_digits {n : Nat} (hn : n < 0x10000) :
    codeUnit? (Nat.digitChar (n / 4096)) (Nat.digitChar (n / 256 % 16))
      (Nat.digitChar (n / 16 % 16)) (Nat.digitChar (n % 16)) = some n := by
  rw [codeUnit?, hexDigit?_digitChar _ (by omega), hexDigit?_digitChar _ (by omega),
    hexDigit?_digitChar _ (by omega), hexDigit?_digitChar _ (by omega)]
  show some _ = some n
  congr 1
  omega

theorem unitEscape_append {n : Nat} (hn : n < 0x10000) (r : Text) :
    unitEscape n ++ r = '\\' :: 'u' :: Nat.digitChar (n / 4096) :: Nat.digitChar (n / 256 % 16) ::
      Nat.digitChar (n / 16 % 16) :: Nat.digitChar (n % 16) :: r := by
  rw [unitEscape, Text.hexadecimal_four hn]
  rfl

/-! ## Characters -/

/-- What may come after an escape by one code unit: another one only with proper digits. -/
def MayFollow (r : Text) : Prop :=
  ∀ a b c d s, r = '\\' :: 'u' :: a :: b :: c :: d :: s → (codeUnit? a b c d).isSome

/-- A code unit that is no first half of a pair stands for a character of its own. -/
theorem stringBody_unitEscape {n : Nat} (hn : n < 0x10000) (hsingle : isHighSurrogate n = false)
    {r : Text} (hr : MayFollow r) :
    stringBody (unitEscape n ++ r) = (stringBody r).map fun x => (unitChar n :: x.1, x.2) := by
  rw [unitEscape_append hn]
  by_cases hpair : ∃ a b c d s, r = '\\' :: 'u' :: a :: b :: c :: d :: s
  · obtain ⟨a, b, c, d, s, rfl⟩ := hpair
    obtain ⟨m, hm⟩ := Option.isSome_iff_exists.1 (hr a b c d s rfl)
    rw [stringBody, codeUnit?_digits hn, hm]
    simp only [hsingle, Bool.false_and, Bool.false_eq_true, if_false]
  · rw [stringBody, codeUnit?_digits hn]
    rintro a b c d s rfl
    exact hpair ⟨a, b, c, d, s, rfl⟩

/-- Two code units that make a pair stand for one character. -/
theorem stringBody_pair {high low : Nat} (hhigh : isHighSurrogate high = true)
    (hlow : isLowSurrogate low = true) (r : Text) :
    stringBody (unitEscape high ++ (unitEscape low ++ r)) =
      (stringBody r).map fun x =>
        (Char.ofNat (0x10000 + (high - 0xd800) * 0x400 + (low - 0xdc00)) :: x.1, x.2) := by
  have hhigh' : high < 0x10000 := by
    simp [isHighSurrogate] at hhigh
    omega
  have hlow' : low < 0x10000 := by
    simp [isLowSurrogate] at hlow
    omega
  rw [unitEscape_append hhigh', unitEscape_append hlow', stringBody, codeUnit?_digits hhigh',
    codeUnit?_digits hlow']
  simp only [hhigh, hlow, Bool.and_self, if_true]

/-- An escape by one letter stands for its character. -/
theorem stringBody_letter {letter c : Char} (hletter : letterEscape? letter = some c) (r : Text) :
    stringBody ('\\' :: letter :: r) = (stringBody r).map fun x => (c :: x.1, x.2) := by
  have hne : letter ≠ 'u' := by
    rintro rfl
    have hnone : letterEscape? 'u' = none := by decide
    rw [hnone] at hletter
    cases hletter
  rw [stringBody, hletter]
  · intro a b c d a' b' c' d' s heq _
    exact hne heq
  · intro a b c d s heq _
    exact hne heq

/-- No character has the code of half a pair. -/
theorem isHighSurrogate_toNat (c : Char) : isHighSurrogate c.toNat = false ∧
    isLowSurrogate c.toNat = false := by
  have hvalid : c.toNat.isValidChar := c.valid
  simp only [isHighSurrogate, isLowSurrogate, Bool.and_eq_false_iff, decide_eq_false_iff_not]
  rcases hvalid with hlow | ⟨hhigh, -⟩
  · omega
  · omega

/-- A written character is read as it was, in front of what may follow it. -/
theorem stringBody_stringChar (asciiOnly : Bool) (c : Char) {r : Text} (hr : MayFollow r) :
    stringBody (stringChar asciiOnly c ++ r) = (stringBody r).map fun x => (c :: x.1, x.2) := by
  have hofNat : ∀ n, c.toNat = n → c = Char.ofNat n := by
    rintro n rfl
    exact (Char.ofNat_toNat c).symm
  obtain ⟨hhigh, hlow⟩ := isHighSurrogate_toNat c
  unfold stringChar
  dsimp only
  split
  · next hself =>
    rcases hself with rfl | rfl
    · exact stringBody_letter (by decide) r
    · exact stringBody_letter (by decide) r
  split
  · next hc => exact hc ▸ stringBody_letter (by decide) r
  split
  · next hc => exact hc ▸ stringBody_letter (by decide) r
  split
  · next hc => exact hc ▸ stringBody_letter (by decide) r
  split
  · next hc => exact hofNat _ hc ▸ stringBody_letter (by decide) r
  split
  · next hc => exact hofNat _ hc ▸ stringBody_letter (by decide) r
  split
  · split
    · next hsmall =>
      rw [stringBody_unitEscape hsmall hhigh hr, unitChar, hhigh, hlow]
      simp
    · next hlarge =>
      -- A character beyond the first plane is written as a pair.
      have hvalid : c.toNat.isValidChar := c.valid
      have hlt : c.toNat < 0x110000 := by
        rcases hvalid with hlow | ⟨-, hlt⟩
        · omega
        · exact hlt
      have hpair : 0x10000 + (0xd800 + (c.toNat - 0x10000) / 0x400 - 0xd800) * 0x400 +
          (0xdc00 + (c.toNat - 0x10000) % 0x400 - 0xdc00) = c.toNat := by omega
      rw [List.append_assoc, stringBody_pair, hpair, Char.ofNat_toNat]
      · simp only [isHighSurrogate, Bool.and_eq_true, decide_eq_true_eq]
        omega
      · simp only [isLowSurrogate, Bool.and_eq_true, decide_eq_true_eq]
        omega
  · next hself _ _ _ _ _ hplain =>
    rw [not_or] at hself hplain
    have hprintable : ¬ (c.toNat < 0x20 ∨ c = '\\') := not_or.2 ⟨hplain.1, hself.2⟩
    rw [List.singleton_append, stringBody, if_neg hprintable]
    all_goals simp_all

/-! ## Texts -/

theorem mayFollow_quote (r : Text) : MayFollow ('"' :: r) := by
  intro a b c d s heq
  exact absurd (List.cons.inj heq).1 (by decide)

/-- A written character may follow any escape. -/
theorem mayFollow_stringChar (asciiOnly : Bool) (c : Char) (r : Text) :
    MayFollow (stringChar asciiOnly c ++ r) := by
  have hletter : ∀ letter : Char, letter ≠ 'u' → MayFollow ('\\' :: letter :: r) := by
    intro letter hne a b c d s heq
    exact absurd (List.cons.inj (List.cons.inj heq).2).1 hne
  have hunit : ∀ n < 0x10000, ∀ t, MayFollow (unitEscape n ++ t) := by
    intro n hn t a b c d s heq
    rw [unitEscape_append hn] at heq
    simp only [List.cons.injEq, true_and] at heq
    obtain ⟨rfl, rfl, rfl, rfl, -⟩ := heq
    rw [codeUnit?_digits hn]
    rfl
  unfold stringChar
  dsimp only
  split
  · next hself =>
    refine hletter c ?_
    rintro rfl
    exact absurd hself (by decide)
  split
  · exact hletter 'n' (by decide)
  split
  · exact hletter 'r' (by decide)
  split
  · exact hletter 't' (by decide)
  split
  · exact hletter 'f' (by decide)
  split
  · exact hletter 'b' (by decide)
  split
  · split
    · next hsmall => exact hunit _ hsmall r
    · next hlarge =>
      have hvalid : c.toNat.isValidChar := c.valid
      rw [List.append_assoc]
      refine hunit _ ?_ _
      rcases hvalid with hlow | ⟨-, hlt⟩ <;> omega
  · next hself _ _ _ _ _ _ =>
    intro a b c' d s heq
    exact absurd (List.cons.inj heq).1 (not_or.1 hself).2

/-- A written text is read back up to its closing quote. -/
theorem stringBody_flatMap_stringChar (asciiOnly : Bool) (s r : Text) :
    stringBody (s.flatMap (stringChar asciiOnly) ++ '"' :: r) = some (s, r) := by
  induction s with
  | nil => rw [List.flatMap_nil, List.nil_append, stringBody]
  | cons c s ih =>
    have hfollow : MayFollow (s.flatMap (stringChar asciiOnly) ++ '"' :: r) := by
      cases s with
      | nil => exact mayFollow_quote r
      | cons d s =>
        rw [List.flatMap_cons, List.append_assoc]
        exact mayFollow_stringChar asciiOnly d _
    rw [List.flatMap_cons, List.append_assoc, stringBody_stringChar asciiOnly c hfollow, ih]
    rfl

/-- A text is read from its written form in front of anything. -/
theorem value_writeString (asciiOnly : Bool) (depth fuel : Nat) (s r : Text) :
    value depth (fuel + 1) (writeString asciiOnly s ++ r) = .ok (.string s, r) := by
  have hform : writeString asciiOnly s ++ r =
      '"' :: (s.flatMap (stringChar asciiOnly) ++ '"' :: r) := by
    simp [writeString]
  rw [hform, value, stringBody_flatMap_stringChar]

/-! ## Characters outside ASCII -/

theorem isPlainAscii_unitEscape {n : Nat} (hn : n < 0x10000) : (unitEscape n).IsPlainAscii := by
  have hdigit : ∀ d < 16, (Nat.digitChar d).toNat < 0x80 ∧ Nat.digitChar d ≠ '\r' := by decide
  rw [unitEscape, Text.hexadecimal_four hn]
  simp only [Text.isPlainAscii_cons, Text.isPlainAscii_nil, and_true]
  exact ⟨by decide, by decide, hdigit _ (by omega), hdigit _ (by omega), hdigit _ (by omega),
    hdigit _ (by omega)⟩

theorem isPlainAscii_stringChar (c : Char) : (stringChar true c).IsPlainAscii := by
  unfold stringChar
  dsimp only
  split
  · next hself => rcases hself with rfl | rfl <;> decide
  split
  · decide
  split
  · decide
  split
  · decide
  split
  · decide
  split
  · decide
  split
  · have hvalid : c.toNat.isValidChar := c.valid
    split
    · next hsmall => exact isPlainAscii_unitEscape hsmall
    · next hlarge =>
      refine Text.isPlainAscii_append.2 ⟨isPlainAscii_unitEscape ?_,
        isPlainAscii_unitEscape (by omega)⟩
      rcases hvalid with hlow | ⟨-, hlt⟩ <;> omega
  · next hreturn _ _ _ hplain =>
    simp only [not_or, true_and, Nat.not_le] at hplain
    exact Text.isPlainAscii_cons.2 ⟨⟨by omega, hreturn⟩, Text.isPlainAscii_nil⟩

/-- If characters outside ASCII are escaped, a text is written in ASCII, and on one line. -/
@[simp] theorem isPlainAscii_writeString (s : Text) : (writeString true s).IsPlainAscii := by
  have hbody : Text.IsPlainAscii (s.flatMap (stringChar true)) := by
    intro c hc
    obtain ⟨d, -, hd⟩ := List.mem_flatMap.1 hc
    exact isPlainAscii_stringChar d c hd
  rw [writeString, List.cons_append, Text.isPlainAscii_cons, Text.isPlainAscii_append]
  exact ⟨by decide, hbody, by decide⟩

end Json

end Bindery

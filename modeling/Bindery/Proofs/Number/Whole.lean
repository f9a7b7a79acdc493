import Bindery.Number.Whole
import Mathlib

/-!
# Whole numbers are read as they are written

A number in decimal digits is read as that number, as long as it has no more digits than are read.

* `Number.digitValues_of_isDigit`: digits, one by one.
* `Number.whole?_ofInt`: a whole number.
-/

namespace Bindery

namespace Text

theorem isDigit_of_mem_ofNat {n : Nat} {c : Char} (hc : c ∈ ofNat n) : c.isDigit = true :=
  Nat.isDigit_of_mem_toDigits (by decide) (by decide) hc

theorem ofNat_ne_nil (n : Nat) : ofNat n ≠ [] := Nat.toDigits_ne_nil

/-- A whole number is written as its digits, after a minus sign if it is negative. -/
theorem ofInt_eq (n : Int) : ofInt n = (if n < 0 then ['-'] else []) ++ ofNat n.natAbs := by
  cases n with
  | ofNat n => rfl
  | negSucc n => rw [if_pos (Int.negSucc_lt_zero n)]; rfl

end Text

namespace Number

variable {c : Char} {s : Text}

theorem toNat_of_isDigit (hc : c.isDigit = true) : 0x30 ≤ c.toNat ∧ c.toNat ≤ 0x39 :=
  Char.isDigit_iff_toNat.1 hc

theorem digit?_of_isDigit (hc : c.isDigit = true) : digit? c = some (c.toNat - '0'.toNat) := by
  have hfirst : (decide (0x30 ≤ c.toNat) && decide (c.toNat ≤ 0x30 + 9)) = true := by
    obtain ⟨hleast, hgreatest⟩ := toNat_of_isDigit hc
    simp [hleast, hgreatest]
  have hzeros : zeros = 0x30 :: zeros.tail := rfl
  have hfind : zeros.find? (fun z => z ≤ c.toNat && c.toNat ≤ z + 9) = some 0x30 := by
    rw [hzeros]
    exact List.find?_cons_of_pos hfirst
  rw [digit?, hfind]
  rfl

theorem digitValues_of_isDigit (hs : ∀ c ∈ s, c.isDigit = true) {afterDigit : Bool}
    (hne : s = [] → afterDigit = true) :
    digitValues afterDigit s = some (s.map fun c => c.toNat - '0'.toNat) := by
  induction s generalizing afterDigit with
  | nil => rw [digitValues, if_pos (hne rfl), List.map_nil]
  | cons c s ih =>
    obtain ⟨hc, hs⟩ := List.forall_mem_cons.1 hs
    have hline : c ≠ '_' := by
      rintro rfl
      cases hc
    rw [digitValues.eq_3 _ _ _ (fun d r hd _ => hline hd), digit?_of_isDigit hc,
      ih hs fun _ => rfl]
    rfl

theorem isPadding_of_isDigit (hc : c.isDigit = true) : isPadding c = false := by
  have hbounds := toNat_of_isDigit hc
  have hblank : isBlank c = false := by
    simp [isBlank, blankRanges]
    omega
  rw [isPadding, hblank, Bool.false_and]

theorem dropPadding_eq (hs : ∀ c ∈ s, isPadding c = false) : dropPadding s = s := by
  have hdrop : ∀ s : Text, (∀ c ∈ s, isPadding c = false) → s.dropWhile isPadding = s := by
    intro s hs
    exact List.dropWhile_eq_self_iff.2 fun hne => by simp [hs _ (List.getElem_mem hne)]
  rw [dropPadding, hdrop s hs, Text.dropRightWhile, hdrop _ (by simpa using hs),
    List.reverse_reverse]

theorem sign_ofInt (n : Int) : sign (Text.ofInt n) = (decide (n < 0), Text.ofNat n.natAbs) := by
  rw [Text.ofInt_eq]
  by_cases hnegative : n < 0
  · rw [if_pos hnegative, decide_eq_true hnegative]
    rfl
  · rw [if_neg hnegative, decide_eq_false hnegative, List.nil_append]
    -- A digit is no sign.
    obtain ⟨c, s, hs⟩ := List.exists_cons_of_ne_nil (Text.ofNat_ne_nil n.natAbs)
    have hc := Text.isDigit_of_mem_ofNat (hs ▸ List.mem_cons_self : c ∈ Text.ofNat n.natAbs)
    rw [hs]
    refine sign.eq_3 _ (fun _ heq => ?_) fun _ heq => ?_
    · obtain rfl := (List.cons.inj heq).1
      cases hc
    · obtain rfl := (List.cons.inj heq).1
      cases hc

/-- **A whole number is read as it is written.** -/
theorem whole?_ofInt {n : Int} (hn : (Text.ofNat n.natAbs).length ≤ maxDigits) :
    whole? (Text.ofInt n) = some n := by
  have hpadding : ∀ c ∈ Text.ofInt n, isPadding c = false := by
    intro c hc
    rw [Text.ofInt_eq, List.mem_append] at hc
    rcases hc with hsign | hdigit
    · split at hsign
      · rw [List.mem_singleton.1 hsign]
        decide
      · cases hsign
    · exact isPadding_of_isDigit (Text.isDigit_of_mem_ofNat hdigit)
  have hvalues : digitValues false (Text.ofNat n.natAbs) =
      some ((Text.ofNat n.natAbs).map fun c => c.toNat - '0'.toNat) :=
    digitValues_of_isDigit (fun c hc => Text.isDigit_of_mem_ofNat hc)
      fun hnil => absurd hnil (Text.ofNat_ne_nil _)
  have hdigits : ofDigits ((Text.ofNat n.natAbs).map fun c => c.toNat - '0'.toNat) =
      n.natAbs := by
    rw [ofDigits, List.foldl_map]
    exact Nat.ofDigitChars_toDigits (by decide) (by decide)
  rw [whole?, dropPadding_eq hpadding, sign_ofInt]
  simp only [hvalues]
  show (if maxDigits < _ then none else some _) = _
  rw [List.length_map, if_neg (Nat.not_lt_of_le hn), hdigits]
  refine congrArg some ?_
  by_cases hnegative : n < 0
  · rw [if_pos (by simpa using hnegative)]
    omega
  · rw [if_neg (by simpa using hnegative)]
    omega

end Number

end Bindery

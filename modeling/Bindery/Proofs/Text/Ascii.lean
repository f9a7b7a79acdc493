import Bindery.Text.Line

/-!
# Texts that are stored as they are

A text of ASCII characters without carriage returns is the same after it was written to a file and
read again: no line break is changed.

* `Text.IsPlainAscii`: `Text.unifyNewlines_of_isPlainAscii`.
-/

namespace Bindery

namespace Text

/-- All characters are ASCII, and none is a carriage return. -/
def IsPlainAscii (s : Text) : Prop :=
  ∀ c ∈ s, c.toNat < 0x80 ∧ c ≠ '\r'

instance (s : Text) : Decidable s.IsPlainAscii :=
  List.decidableBAll (fun c : Char => c.toNat < 0x80 ∧ c ≠ '\r') s

@[simp] theorem isPlainAscii_nil : IsPlainAscii [] :=
  List.forall_mem_nil _

@[simp] theorem isPlainAscii_cons {c : Char} {s : Text} :
    IsPlainAscii (c :: s) ↔ (c.toNat < 0x80 ∧ c ≠ '\r') ∧ s.IsPlainAscii :=
  List.forall_mem_cons

@[simp] theorem isPlainAscii_append {s t : Text} :
    IsPlainAscii (s ++ t) ↔ s.IsPlainAscii ∧ t.IsPlainAscii :=
  List.forall_mem_append

/-- There is no line break to change. -/
theorem unifyNewlines_of_isPlainAscii {s : Text} (hs : s.IsPlainAscii) : unifyNewlines s = s := by
  induction s with
  | nil => rfl
  | cons c s ih =>
    obtain ⟨hc, hs⟩ := isPlainAscii_cons.1 hs
    rw [unifyNewlines, if_neg hc.2, ih hs]
    intro r heq _
    exact hc.2 heq

end Text

end Bindery

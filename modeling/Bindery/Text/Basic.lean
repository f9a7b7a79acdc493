/-!
# Texts

A text is a list of characters.  Patterns, names, paths and file contents are all texts, so every
operation on them is a recursion on a list and can be reasoned about as one.

* `Text.le` orders texts by code point; `Text.sortedSet` lists a collection in that order, each
  member once: `Text.mem_sortedSet`.
* `Text.uptoLast` and `Text.afterLast` cut at the last occurrence of a character and lose nothing:
  `Text.uptoLast_append_afterLast`.
* `Text.ofNat` and `Text.ofInt` write whole numbers in decimal.
-/

namespace Bindery

/-- A text is the list of its characters. -/
abbrev Text := List Char

namespace Text

/-! ## Order -/

/-- Texts are ordered character by character, by code point, a proper beginning first. -/
def le : Text → Text → Bool
  | [], _ => true
  | _ :: _, [] => false
  | a :: s, b :: t => if a = b then le s t else a.toNat < b.toNat

@[simp] theorem le_refl (s : Text) : le s s = true := by
  induction s with
  | nil => rfl
  | cons a s ih => simp [le, ih]

/-- Drops every member that equals the one before it. -/
def dropRepeats : List Text → List Text
  | [] => []
  | [s] => [s]
  | s :: t :: r => if s = t then dropRepeats (t :: r) else s :: dropRepeats (t :: r)

theorem mem_dropRepeats {s : Text} {xs : List Text} : s ∈ dropRepeats xs ↔ s ∈ xs := by
  fun_induction dropRepeats xs with
  | case1 => simp
  | case2 => simp
  | case3 t r ih => rw [ih]; simp
  | case4 t u r _ ih => simp [ih]

/-- The members of a collection in order, each once. -/
def sortedSet (xs : List Text) : List Text :=
  dropRepeats (xs.mergeSort le)

@[simp] theorem mem_sortedSet {s : Text} {xs : List Text} : s ∈ sortedSet xs ↔ s ∈ xs := by
  simp [sortedSet, mem_dropRepeats, List.mem_mergeSort]

/-! ## Cutting -/

/-- The text up to and including the last occurrence of a character. -/
def uptoLast (c : Char) (s : Text) : Text :=
  (s.reverse.dropWhile (· != c)).reverse

/-- The text after the last occurrence of a character, all of it if there is none. -/
def afterLast (c : Char) (s : Text) : Text :=
  (s.reverse.takeWhile (· != c)).reverse

theorem uptoLast_append_afterLast (c : Char) (s : Text) : uptoLast c s ++ afterLast c s = s := by
  simp [uptoLast, afterLast, ← List.reverse_append]

theorem dropWhile_dropWhile (p : Char → Bool) (s : Text) :
    (s.dropWhile p).dropWhile p = s.dropWhile p := by
  induction s with
  | nil => rfl
  | cons c r ih => by_cases hc : p c <;> simp [hc, ih]

/-- The text without the longest ending whose characters all satisfy `p`. -/
def dropRightWhile (p : Char → Bool) (s : Text) : Text :=
  (s.reverse.dropWhile p).reverse

/-- The text with every occurrence of one character written as another text. -/
def replaceChar (c : Char) (written : Text) (s : Text) : Text :=
  s.flatMap fun d => if d = c then written else [d]

/-! ## Whole numbers in decimal -/

/-- A natural number in decimal digits, without leading zeros. -/
def ofNat (n : Nat) : Text :=
  Nat.toDigits 10 n

/-- A whole number in decimal digits, a minus sign before a negative one. -/
def ofInt : Int → Text
  | .ofNat n => ofNat n
  | .negSucc n => '-' :: ofNat (n + 1)

end Text

end Bindery

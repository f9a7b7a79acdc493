import Bindery.Text.Basic

/-!
# Blank characters

The characters that are trimmed from the ends of a line and that separate the words of one: the
Unicode spaces, the control characters that move the cursor, and the four separator controls
U+001C to U+001F.  Zero-width characters are not blank.

* `Text.trim` removes the blanks at both ends, and what is left is trimmed: `Text.trim_trim`.
* `Text.words` lists the longest runs of characters that are not blank.
-/

namespace Bindery

/-- The ranges of code points of blank characters. -/
def blankRanges : List (Nat × Nat) :=
  [(0x9, 0xd), (0x1c, 0x20), (0x85, 0x85), (0xa0, 0xa0), (0x1680, 0x1680), (0x2000, 0x200a),
    (0x2028, 0x2029), (0x202f, 0x202f), (0x205f, 0x205f), (0x3000, 0x3000)]

/-- Whether a character is blank. -/
def isBlank (c : Char) : Bool :=
  blankRanges.any fun r => r.1 ≤ c.toNat && c.toNat ≤ r.2

namespace Text

/-- The text without the blanks at its beginning. -/
def trimLeft (s : Text) : Text :=
  s.dropWhile isBlank

/-- The text without the blanks at its end. -/
def trimRight (s : Text) : Text :=
  s.dropRightWhile isBlank

/-- The text without the blanks at both ends. -/
def trim (s : Text) : Text :=
  trimRight (trimLeft s)

theorem trimRight_cons {c : Char} (hc : isBlank c = false) (s : Text) :
    trimRight (c :: s) = c :: trimRight s := by
  simp only [trimRight, dropRightWhile, List.reverse_cons, List.dropWhile_append]
  split
  · next h => simp_all
  · simp

theorem trimRight_trimRight (s : Text) : trimRight (trimRight s) = trimRight s := by
  simp only [trimRight, dropRightWhile, List.reverse_reverse]
  rw [dropWhile_dropWhile]

/-- A text that is trimmed is not changed by trimming it again. -/
theorem trim_trim (s : Text) : trim (trim s) = trim s := by
  unfold trim
  cases h : trimLeft s with
  | nil => rfl
  | cons c r =>
    have hc : isBlank c = false := by
      have := List.head?_dropWhile_not isBlank s
      simp_all [trimLeft]
    rw [trimRight_cons hc]
    have : trimLeft (c :: trimRight r) = c :: trimRight r := by simp [trimLeft, hc]
    rw [this, trimRight_cons hc, trimRight_trimRight]

/-- The longest runs of characters that are not blank, in order. -/
def words : Text → List Text
  | [] => []
  | c :: r =>
    if isBlank c then words r
    else match r with
      | [] => [[c]]
      | d :: _ =>
        if isBlank d then [c] :: words r
        else match words r with
          | [] => [[c]]
          | w :: ws => (c :: w) :: ws

end Text

end Bindery

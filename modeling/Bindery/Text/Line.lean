import Bindery.Text.Basic

/-!
# Lines

A line ends at a line feed, a carriage return (with the line feed that may follow it), a vertical
tab, a form feed, one of the separator controls U+001C to U+001E, the next-line control U+0085,
or one of the separators U+2028 and U+2029.  The end of the text ends a line only if the line has
characters.

* `Text.lines` cuts a text into lines without their breaks; no line holds a break:
  `Text.not_isLineBreak_of_mem_lines`.
* `Text.unifyNewlines` is what reading a text file does to carriage returns.
-/

namespace Bindery

/-- Whether a character ends a line. -/
def isLineBreak (c : Char) : Bool :=
  (0xa ≤ c.toNat && c.toNat ≤ 0xd) || (0x1c ≤ c.toNat && c.toNat ≤ 0x1e) || c.toNat == 0x85 ||
    c.toNat == 0x2028 || c.toNat == 0x2029

namespace Text

/-- The lines of a text; a carriage return and the line feed after it are one break. -/
def lines : Text → List Text
  | [] => []
  | '\r' :: '\n' :: r => [] :: lines r
  | c :: r =>
    if isLineBreak c then [] :: lines r
    else match lines r with
      | [] => [[c]]
      | line :: rest => (c :: line) :: rest

/-- The text with `\r\n` and `\r` both written as `\n`. -/
def unifyNewlines : Text → Text
  | [] => []
  | '\r' :: '\n' :: r => '\n' :: unifyNewlines r
  | c :: r => (if c = '\r' then '\n' else c) :: unifyNewlines r

theorem not_isLineBreak_of_mem_lines {s line : Text} (h : line ∈ lines s) :
    ∀ c ∈ line, isLineBreak c = false := by
  fun_induction lines s generalizing line with
  | case1 => simp at h
  | case2 r ih =>
    rcases List.mem_cons.1 h with rfl | h
    · simp
    · exact ih h
  | case3 c r _ _ ih =>
    rcases List.mem_cons.1 h with rfl | h
    · simp
    · exact ih h
  | case4 c r _ hc heq ih => simp_all
  | case5 c r _ hc l rest heq ih =>
    rcases List.mem_cons.1 h with rfl | h
    · intro d hd
      rcases List.mem_cons.1 hd with rfl | hd
      · simpa using hc
      · exact ih (heq ▸ List.mem_cons_self) d hd
    · exact ih (heq ▸ List.mem_cons_of_mem _ h)

end Text

end Bindery

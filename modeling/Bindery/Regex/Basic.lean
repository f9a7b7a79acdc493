import Bindery.Text.Basic

/-!
# Regular expressions

The fragment of regular expressions that patterns over paths need: character sets, repetition of
one set, sequence, choice, optional parts and the end of the text.

* `Regex.Matches` says which beginnings of a text an expression matches.
* `Regex.reach` decides it for all positions at once: a column of truth values, one for each
  position, goes through the expression from left to right.
* `Regex.isMatch` asks for a match at the beginning of a text.
-/

namespace Bindery

/-- A set of characters: the union of inclusive ranges, or everything outside of it. -/
structure CharSet where
  negated : Bool
  ranges : List (Char × Char)
  deriving DecidableEq, Repr

namespace CharSet

/-- Whether a set holds a character. -/
def holds (s : CharSet) (c : Char) : Bool :=
  (s.ranges.any fun r => r.1 ≤ c && c ≤ r.2) != s.negated

/-- The set of all characters. -/
def all : CharSet := ⟨true, []⟩

/-- The set without any character. -/
def none : CharSet := ⟨false, []⟩

/-- The set of one character. -/
def single (c : Char) : CharSet := ⟨false, [(c, c)]⟩

/-- The set of all characters but one. -/
def allBut (c : Char) : CharSet := ⟨true, [(c, c)]⟩

@[simp] theorem holds_all (c : Char) : all.holds c = true := rfl

@[simp] theorem holds_none (c : Char) : none.holds c = false := rfl

theorem le_antisymm_iff (c d : Char) : (c ≤ d && d ≤ c) = decide (d = c) := by
  rw [Bool.eq_iff_iff]
  simp only [Bool.and_eq_true, decide_eq_true_eq]
  exact ⟨fun h => Char.le_antisymm h.2 h.1, fun h => h ▸ ⟨Char.le_refl _, Char.le_refl _⟩⟩

@[simp] theorem holds_single (c d : Char) : (single c).holds d = decide (d = c) := by
  simp [holds, single, le_antisymm_iff]

@[simp] theorem holds_allBut (c d : Char) : (allBut c).holds d = !decide (d = c) := by
  simp [holds, allBut, le_antisymm_iff]

end CharSet

/-- A regular expression over characters. -/
inductive Regex
  /-- Nothing, at any position. -/
  | empty
  /-- One character of the set. -/
  | set (s : CharSet)
  /-- Any number of characters of the set. -/
  | many (s : CharSet)
  /-- One expression, then another. -/
  | seq (first second : Regex)
  /-- Either expression. -/
  | alt (left right : Regex)
  /-- The expression or nothing. -/
  | opt (body : Regex)
  /-- The end of the text. -/
  | atEnd
  deriving DecidableEq, Repr

namespace Regex

/-! ## Meaning -/

/-- `r.Matches s rest`: the expression matches the part of `s` before its ending `rest`. -/
inductive Matches : Regex → Text → Text → Prop
  | empty (s) : Matches .empty s s
  | set {s : CharSet} {c : Char} (h : s.holds c = true) (t) : Matches (.set s) (c :: t) t
  | manyNil (s : CharSet) (t) : Matches (.many s) t t
  | manyCons {s : CharSet} {c : Char} {t rest : Text} (h : s.holds c = true)
      (more : Matches (.many s) t rest) : Matches (.many s) (c :: t) rest
  | seq {a b : Regex} {s t u : Text} (first : Matches a s t) (second : Matches b t u) :
      Matches (.seq a b) s u
  | altLeft {a : Regex} (b : Regex) {s t : Text} (h : Matches a s t) : Matches (.alt a b) s t
  | altRight (a : Regex) {b : Regex} {s t : Text} (h : Matches b s t) : Matches (.alt a b) s t
  | optNone (a : Regex) (s) : Matches (.opt a) s s
  | optSome {a : Regex} {s t : Text} (h : Matches a s t) : Matches (.opt a) s t
  | atEnd : Matches .atEnd [] []

/-! ## Columns of positions -/

/-- A column of truth values, one for each position of a text, from its beginning to its end. -/
abbrev Column := List Bool

/-- The column that holds at the beginning of a text only. -/
def start (s : Text) : Column :=
  true :: s.map fun _ => false

/-- The positions after one more character of the set; `here` is the value at the first. -/
def advance (cs : CharSet) (here : Bool) : Text → Column → Column
  | c :: t, v :: vs => here :: advance cs (v && cs.holds c) t vs
  | _, _ => [here]

/-- The positions after any number of further characters of the set; `carried` says whether the
first is reached from before. -/
def spread (cs : CharSet) (carried : Bool) : Text → Column → Column
  | c :: t, v :: vs => (carried || v) :: spread cs ((carried || v) && cs.holds c) t vs
  | _, v :: _ => [carried || v]
  | _, [] => []

/-- The last position only. -/
def keepLast : Column → Column
  | [] => []
  | [v] => [v]
  | _ :: v :: vs => false :: keepLast (v :: vs)

/-- The positions where a match may end that began at one of the given positions. -/
def reach : Regex → Text → Column → Column
  | .empty, _, v => v
  | .set cs, s, v => advance cs false s v
  | .many cs, s, v => spread cs false s v
  | .seq a b, s, v => b.reach s (a.reach s v)
  | .alt a b, s, v => List.zipWith or (a.reach s v) (b.reach s v)
  | .opt a, s, v => List.zipWith or v (a.reach s v)
  | .atEnd, _, v => keepLast v

/-- Whether the expression matches some beginning of a text. -/
def isMatch (r : Regex) (s : Text) : Bool :=
  (r.reach s (start s)).any id

/-! ## Building -/

/-- One given character. -/
def char (c : Char) : Regex := .set (.single c)

/-- A sequence of expressions. -/
def ofList : List Regex → Regex
  | [] => .empty
  | [r] => r
  | r :: rs => .seq r (ofList rs)

end Regex

end Bindery

import Bindery.Regex.Basic

/-!
# Regular expressions as text

Reads the text of an expression in two steps.  `Regex.lex` cuts the text into tokens; a class in
brackets is one token, and the one mistake that a text made from a pattern can hold is a range of
a class whose ends are in the wrong order.  `Regex.build` puts the tokens together; groups still
open are kept on a stack.

In a class, `^` in front negates, a `]` in front is a member, a backslash takes the meaning from
the character after it, and a hyphen between two members makes them an inclusive range.

* `Regex.read`, and `Regex.Flaw` for what can be wrong with a text.
-/

namespace Bindery.Regex

/-- What is wrong with the text of an expression. -/
inductive Flaw
  /-- The ends of a range of a class, as they are written, are in the wrong order. -/
  | badRange (low high : Text)
  /-- The text is not an expression of this fragment. -/
  | malformed
  deriving DecidableEq, Repr

/-! ## Classes -/

/-- A member of a class: how it is written, the character, and the text after it. -/
def classMember : Text → Option (Text × Char × Text)
  | '\\' :: c :: r => some (['\\', c], c, r)
  | c :: r => some ([c], c, r)
  | [] => none

theorem length_classMember {s w r : Text} {c : Char} (h : classMember s = some (w, c, r)) :
    r.length < s.length := by
  unfold classMember at h
  split at h
  · simp only [Option.some.injEq, Prod.mk.injEq] at h
    obtain ⟨-, -, rfl⟩ := h
    simp only [List.length_cons]
    omega
  · simp only [Option.some.injEq, Prod.mk.injEq] at h
    obtain ⟨-, -, rfl⟩ := h
    simp only [List.length_cons]
    omega
  · exact absurd h nofun

/-- Passes a closing bracket: whether there was one, and the text after it. -/
def passClose : Text → Bool × Text
  | ']' :: r => (true, r)
  | r => (false, r)

theorem length_passClose (s : Text) : (passClose s).2.length ≤ s.length := by
  unfold passClose
  split <;> simp

/-- One member or one range of a class, the closing bracket passed if it comes next. -/
def classItem (s : Text) : Except Flaw (List (Char × Char) × Bool × Text) :=
  match classMember s with
  | none => .error .malformed
  | some (_, lo, '-' :: ']' :: r) => .ok ([(lo, lo), ('-', '-')], true, r)
  | some (low, lo, '-' :: r) =>
    match classMember r with
    | none => .error .malformed
    | some (high, hi, r') =>
      if hi < lo then .error (.badRange low high) else .ok ([(lo, hi)], passClose r')
  | some (_, lo, r) => .ok ([(lo, lo)], passClose r)

theorem length_classItem {s r : Text} {m : List (Char × Char)} {closed : Bool}
    (h : classItem s = .ok (m, closed, r)) : r.length < s.length := by
  unfold classItem at h
  split at h
  · simp at h
  · next hs =>
    have := length_classMember hs
    simp_all
    omega
  · next hs =>
    have h₁ := length_classMember hs
    split at h
    · simp at h
    · next r' hr =>
      have h₂ := length_classMember hr
      have h₃ := length_passClose r'
      split at h <;> simp_all
      omega
  · next r' _ _ hs =>
    have h₁ := length_classMember hs
    have h₃ := length_passClose r'
    simp_all
    omega

/-- The ranges of a class up to its closing bracket, and the text after that. -/
def classRanges (s : Text) : Except Flaw (List (Char × Char) × Text) :=
  match _h : classItem s with
  | .error e => .error e
  | .ok (m, true, r) => .ok (m, r)
  | .ok (m, false, r) => (classRanges r).map fun x => (m ++ x.1, x.2)
  termination_by s.length
  decreasing_by exact length_classItem _h

/-- The class that follows an opening bracket, and the text after its closing bracket. -/
def classSet : Text → Except Flaw (CharSet × Text)
  | '^' :: r => (classRanges r).map fun x => (⟨true, x.1⟩, x.2)
  | r => (classRanges r).map fun x => (⟨false, x.1⟩, x.2)

theorem length_classRanges {s r : Text} {m : List (Char × Char)}
    (h : classRanges s = .ok (m, r)) : r.length < s.length := by
  fun_induction classRanges s generalizing m r with
  | case1 => simp at h
  | case2 s m' r' hs =>
    have := length_classItem hs
    simp_all
  | case3 s m' r' hs ih =>
    have h₁ := length_classItem hs
    cases hc : classRanges r' with
    | error e => simp [hc, Except.map] at h
    | ok x =>
      have h₂ := ih hc
      simp only [hc, Except.map, Except.ok.injEq, Prod.mk.injEq] at h
      obtain ⟨_, rfl⟩ := h
      omega

theorem length_classSet {s r : Text} {m : CharSet} (h : classSet s = .ok (m, r)) :
    r.length < s.length := by
  unfold classSet at h
  split at h
  · next r' =>
    cases hc : classRanges r' with
    | error e => simp [hc, Except.map] at h
    | ok x =>
      have := length_classRanges hc
      simp [hc, Except.map] at h
      simp_all
      omega
  · cases hc : classRanges s with
    | error e => simp [hc, Except.map] at h
    | ok x =>
      have := length_classRanges hc
      simp [hc, Except.map] at h
      simp_all

/-! ## Tokens -/

/-- A token of an expression. -/
inductive Token
  | openGroup
  | closeGroup
  | bar
  | star
  | question
  | set (s : CharSet)
  | atEnd
  deriving DecidableEq, Repr

/-- The tokens of an expression.  Groups are written `(?s:` or `(?:`, a point is any character. -/
def lex : Text → Except Flaw (List Token)
  | [] => .ok []
  | '(' :: '?' :: 's' :: ':' :: r => (lex r).map (.openGroup :: ·)
  | '(' :: '?' :: ':' :: r => (lex r).map (.openGroup :: ·)
  | '(' :: _ => .error .malformed
  | ')' :: r => (lex r).map (.closeGroup :: ·)
  | '|' :: r => (lex r).map (.bar :: ·)
  | '*' :: r => (lex r).map (.star :: ·)
  | '?' :: r => (lex r).map (.question :: ·)
  | '.' :: r => (lex r).map (.set .all :: ·)
  | '\\' :: 'Z' :: r => (lex r).map (.atEnd :: ·)
  | '\\' :: c :: r => (lex r).map (.set (.single c) :: ·)
  | ['\\'] => .error .malformed
  | '[' :: r =>
    match _h : classSet r with
    | .error e => .error e
    | .ok (s, rest) => (lex rest).map (.set s :: ·)
  | c :: r => (lex r).map (.set (.single c) :: ·)
  termination_by s => s.length
  decreasing_by
    all_goals first
      | (simp only [List.length_cons]; omega)
      | (have hl := length_classSet _h; simp only [List.length_cons]; omega)

/-! ## Groups -/

/-- A group that is still open: the choices before its last bar, and the parts since. -/
structure Group where
  choices : Option Regex
  parts : List Regex
  deriving DecidableEq, Repr

namespace Group

/-- A group just opened. -/
def new : Group := ⟨none, []⟩

/-- The group with one more part. -/
def push (g : Group) (r : Regex) : Group :=
  { g with parts := g.parts ++ [r] }

/-- The expression of the group. -/
def close (g : Group) : Regex :=
  match g.choices with
  | none => ofList g.parts
  | some r => .alt r (ofList g.parts)

/-- The group after a bar. -/
def split (g : Group) : Group :=
  ⟨some g.close, []⟩

end Group

/-- Builds the expression from tokens: `g` is the innermost open group, `outer` are those around
it, the nearest first. -/
def build : List Token → Group → List Group → Except Flaw Regex
  | [], g, [] => .ok g.close
  | [], _, _ :: _ => .error .malformed
  | .openGroup :: ts, g, outer => build ts .new (g :: outer)
  | .closeGroup :: _, _, [] => .error .malformed
  | .closeGroup :: .question :: ts, g, o :: outer => build ts (o.push (.opt g.close)) outer
  | .closeGroup :: ts, g, o :: outer => build ts (o.push g.close) outer
  | .bar :: ts, g, outer => build ts g.split outer
  | .set s :: .star :: ts, g, outer => build ts (g.push (.many s)) outer
  | .set s :: ts, g, outer => build ts (g.push (.set s)) outer
  | .atEnd :: ts, g, outer => build ts (g.push .atEnd) outer
  | .star :: _, _, _ => .error .malformed
  | .question :: _, _, _ => .error .malformed

/-- Reads the text of an expression. -/
def read (s : Text) : Except Flaw Regex :=
  (lex s).bind fun ts => build ts .new []

end Bindery.Regex

import Bindery.Text.Basic

/-!
# Brace alternatives

A group `{a,b}` without inner braces stands for each of its options in turn.  Groups are expanded
from the leftmost innermost one, in rounds over all patterns made so far, until no pattern has a
group; braces without a comma between them are ordinary characters.  A round that would make more
than a thousand patterns is not taken.

* `Group.first?` finds the group a round expands, and loses nothing: `Group.first?_eq_some`.
* `expandBraces` gives the patterns.
-/

namespace Bindery.Glob

/-- A brace group in a pattern: what is before it, its options, and what is after it. -/
structure Group where
  before : Text
  options : List Text
  after : Text
  deriving DecidableEq, Repr

/-- Whether a character is a brace. -/
def isBrace (c : Char) : Bool :=
  c == '{' || c == '}'

/-- The body of a group and the text after it, if a group's opening brace is just before. -/
def groupBody? (s : Text) : Option (Text × Text) :=
  match s.dropWhile fun c => !isBrace c with
  | '}' :: after =>
    if (s.takeWhile fun c => !isBrace c).contains ',' then
      some (s.takeWhile fun c => !isBrace c, after)
    else none
  | _ => none

namespace Group

/-- The leftmost group without inner braces. -/
def first? : Text → Option Group
  | [] => none
  | c :: r =>
    match if c = '{' then groupBody? r else none with
    | some (body, after) => some ⟨[], body.splitOn ',', after⟩
    | none => (first? r).map fun g => { g with before := c :: g.before }

/-- The patterns that a group stands for, one for each option. -/
def expand (g : Group) : List Text :=
  g.options.map fun option => g.before ++ option ++ g.after

/-- The text of a group in its pattern. -/
def toText (g : Group) : Text :=
  g.before ++ '{' :: List.intercalate [','] g.options ++ '}' :: g.after

end Group

theorem groupBody?_eq_some {s body after : Text} (h : groupBody? s = some (body, after)) :
    s = body ++ '}' :: after ∧ ',' ∈ body ∧ ∀ c ∈ body, isBrace c = false := by
  unfold groupBody? at h
  split at h
  · next a hd =>
    split at h
    · next hc =>
      simp only [Option.some.injEq, Prod.mk.injEq] at h
      obtain ⟨rfl, rfl⟩ := h
      refine ⟨?_, by simpa using hc, ?_⟩
      · rw [← hd, List.takeWhile_append_dropWhile]
      · intro c hc
        exact by simpa using List.all_eq_true.1 List.all_takeWhile c hc
    · simp at h
  · simp at h

/-- A group found stands in the pattern as it is written. -/
theorem Group.first?_eq_some {s : Text} {g : Group} (h : Group.first? s = some g) :
    s = g.toText := by
  induction s generalizing g with
  | nil => simp [first?] at h
  | cons c r ih =>
    simp only [first?] at h
    split at h
    · next body after hb =>
      split at hb
      · next hc =>
        obtain ⟨hs, _, _⟩ := groupBody?_eq_some hb
        obtain rfl := (Option.some.inj h).symm
        simp [toText, List.intercalate_splitOn, hc, hs]
      · simp at hb
    · obtain ⟨g', hg', rfl⟩ := Option.map_eq_some_iff.1 h
      have := ih hg'
      simp [toText] at this ⊢
      exact this

/-- No more patterns than this are made. -/
def maxPatterns : Nat := 1000

/-- The patterns that one round makes of a pattern. -/
def expandOnce (p : Text) : List Text :=
  match Group.first? p with
  | none => [p]
  | some g => g.expand

/-- The number of patterns that one round makes of a pattern. -/
def expandOnceCount (p : Text) : Nat :=
  match Group.first? p with
  | none => 1
  | some g => g.options.length

theorem length_expandOnce (p : Text) : (expandOnce p).length = expandOnceCount p := by
  unfold expandOnce expandOnceCount
  split <;> simp [Group.expand]

/-- At most `rounds` rounds over a list of patterns. -/
def expandRounds : Nat → List Text → List Text
  | 0, ps => ps
  | rounds + 1, ps =>
    if ps.all fun p => (Group.first? p).isNone then ps
    else if maxPatterns < ps.foldr (fun p n => expandOnceCount p + n) 0 then ps
    else expandRounds rounds (ps.flatMap expandOnce)

/-- The patterns that a pattern with brace groups stands for.  Every round removes one opening
brace from each pattern, so their number bounds the rounds. -/
def expandBraces (p : Text) : List Text :=
  expandRounds (p.count '{') [p]

end Bindery.Glob

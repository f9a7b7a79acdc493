import Bindery.Proofs.Ignore.Reading
import Bindery.Proofs.Search.Expand
import Bindery.Proofs.Search.Found

/-!
# Searches that fail

Below an absolute root in a tree with proper names, little can keep files from being found: a null
character in a path, a line of the ignore file that cannot be read, and, where all files are asked
for, a flawed exclude pattern.  Patterns themselves do not fail, whatever they are, but for null
characters.

* `Matcher.Hinders`: what spoils every search below a root.
* `Matcher.expand_failsOnly`: searches for patterns.
* `Matcher.allFiles_failsOnly`, `Matcher.exists_allFiles_eq_error`: all files, and nothing else does.
-/

namespace Bindery

/-- Between absolute paths there is a path, whatever the working directory is. -/
theorem Host.exists_relativeTo (h : Host) {path start : Text} (hpath : Path.isAbsolute path = true)
    (hstart : Path.isAbsolute start = true) : ∃ rel, h.relativeTo path start = .ok rel := by
  rw [relativeTo, absolute, absolute, if_pos hstart, if_pos hpath]
  split
  · exact ⟨_, rfl⟩
  · exact ⟨_, rfl⟩

namespace Matcher

open Bindery.Path Bindery.Search

/-- What keeps files below a root from being found, with the fault that it is reported as. -/
inductive Hinders (m : Matcher) (h : Host) (cache : IgnoreCache) (root : Text) : Fault → Prop
  /-- The path of the root holds a null character. -/
  | root (hnull : '\x00' ∈ root) : Hinders m h cache root .nullCharacter
  /-- The name of ignore files holds a null character. -/
  | ignoreFile (hrules : m.includeIgnored = false) (hnull : '\x00' ∈ m.ignoreFileName) :
      Hinders m h cache root .nullCharacter
  /-- A line of the ignore file cannot be read. -/
  | line {lines : List Text} {line : Text} {flaw : Regex.Flaw} (hrules : m.includeIgnored = false)
      (hlines : cache.lines h root m.ignoreFileName = .ok lines) (hline : line ∈ lines)
      (hflaw : IgnoreRule.readLine line = .error (.expression flaw)) :
      Hinders m h cache root (.expression flaw)

variable {m : Matcher} {h : Host} {cache : IgnoreCache} {root : Text}

/-! ## Rules -/

/-- The result of reading the rules. -/
theorem result_rules (m : Matcher) (h : Host) (cache : IgnoreCache) (root : Text) :
    (m.rules h cache root).result =
      if m.includeIgnored then .ok none
      else do
        let lines ← cache.lines h root m.ignoreFileName
        let rules ← IgnoreRule.readLines lines
        return if rules.isEmpty then none else some rules := by
  rw [rules]
  split
  · rfl
  · simp only [Reported.result_bind, Reported.result_consult, Reported.result_ofExcept,
      Reported.result_pure]
    rfl

theorem rules_failsOnly (m : Matcher) (h : Host) (cache : IgnoreCache) (root : Text) :
    FailsOnly (m.Hinders h cache root) (m.rules h cache root).result := by
  rw [result_rules]
  split
  · exact .ok none
  next hrules =>
  rw [Bool.not_eq_true] at hrules
  refine .bind (fun f hf => ?_) fun lines hlines => ?_
  · obtain ⟨rfl, hnull⟩ := (IgnoreCache.lines_eq_error_iff cache h).1 hf
    rcases IgnoreCache.mem_of_mem_pathOf hnull with hslash | hdot | hroot | hname
    · exact absurd hslash (by decide)
    · exact absurd hdot (by decide)
    · exact .root hroot
    · exact .ignoreFile hrules hname
  · refine .bind ?_ fun rules _ => .ok _
    refine (IgnoreRule.readLines_failsOnly lines).mono ?_
    rintro f ⟨line, hline, hf⟩
    obtain ⟨-, flaw, -, -, rfl⟩ := IgnoreRule.readLine_eq_error hf
    exact .line hrules hlines hline hf

/-- But for a null character in the root, what hinders a search keeps the rules from being read. -/
theorem Hinders.null_or_rules {f : Fault} (hf : m.Hinders h cache root f) :
    '\x00' ∈ root ∨ ∃ f', (m.rules h cache root).result = .error f' := by
  rw [result_rules]
  cases hf with
  | root hnull => exact Or.inl hnull
  | ignoreFile hrules hnull =>
    have hpath : '\x00' ∈ IgnoreCache.pathOf root m.ignoreFileName :=
      IgnoreCache.mem_pathOf_of_mem_name (by decide) (by decide) hnull
    have hlines := (IgnoreCache.lines_eq_error_iff cache h).2 ⟨rfl, hpath⟩
    rw [hrules, hlines]
    exact Or.inr ⟨_, rfl⟩
  | line hrules hlines hline hflaw =>
    obtain ⟨f', hf'⟩ := IgnoreRule.exists_readLines_eq_error hline hflaw
    rw [hrules, hlines]
    refine Or.inr ⟨f', ?_⟩
    change (IgnoreRule.readLines _ >>= _) = _
    rw [hf']
    rfl

/-! ## Patterns -/

theorem isAbsolute_escape (hroot : isAbsolute root = true) :
    isAbsolute (NamePattern.escape root) = true := by
  cases root with
  | nil => exact absurd hroot nofun
  | cons c root =>
    obtain rfl : c = '/' := by simpa [isAbsolute] using hroot
    rfl

/-- A search for an absolute pattern fails only where there is a null character in the pattern. -/
theorem filesMatching_failsOnly (hnamed : h.IsNamed) {pattern : Text}
    (hp : isAbsolute pattern = true) :
    FailsOnly (fun f => f = .nullCharacter ∧ '\x00' ∈ pattern) (filesMatching h pattern) :=
  .map (paths_outcome hnamed false hp).fault _

/-- Patterns that are joined to the escaped root have no null characters but those of the root and
their own. -/
theorem candidates_failsOnly (hnamed : h.IsNamed) (hroot : isAbsolute root = true) (p : Text) :
    FailsOnly (fun f => f = .nullCharacter ∧ ('\x00' ∈ root ∨ '\x00' ∈ p))
      (candidates h root p) := by
  have hbase := isAbsolute_escape hroot
  have hjoined : ∀ alt ∈ Glob.expandBraces (belowRoot p),
      '\x00' ∈ Path.join (NamePattern.escape root) alt → '\x00' ∈ root ∨ '\x00' ∈ p := by
    intro alt halt hnull
    rcases mem_of_mem_join hnull with hslash | hnull | hnull
    · exact absurd hslash (by decide)
    · exact Or.inl ((NamePattern.mem_escape_iff_of_plain (by decide)).1 hnull)
    · exact Or.inr (IsProperPattern.mem_of_mem_belowRoot (Glob.mem_of_mem_expandBraces halt hnull))
  have hsearch : ∀ search : Text → Text, (∀ alt ∈ Glob.expandBraces (belowRoot p),
      isAbsolute (search alt) = true ∧ ('\x00' ∈ search alt → '\x00' ∈ root ∨ '\x00' ∈ p)) →
      FailsOnly (fun f => f = .nullCharacter ∧ ('\x00' ∈ root ∨ '\x00' ∈ p))
        (filesMatchingAny h ((Glob.expandBraces (belowRoot p)).map search)) := by
    intro search hsearch
    refine .map (.mapM fun q hq => ?_) _
    obtain ⟨alt, halt, rfl⟩ := List.mem_map.1 hq
    obtain ⟨habs, hnull⟩ := hsearch alt halt
    exact (filesMatching_failsOnly hnamed habs).mono fun f hf => hf.imp_right hnull
  rw [candidates]
  dsimp only
  split
  · refine hsearch _ fun alt halt => ⟨isAbsolute_join (isAbsolute_join
      (isAbsolute_join hbase alt) _) _, fun hnull => ?_⟩
    rcases mem_of_mem_join hnull with hslash | hnull | hnull
    · exact absurd hslash (by decide)
    · rcases mem_of_mem_join hnull with hslash | hnull | hnull
      · exact absurd hslash (by decide)
      · exact hjoined alt halt hnull
      · exact absurd hnull (by decide)
    · exact absurd hnull (by decide)
  split
  · exact .ok _
  · exact hsearch _ fun alt halt => ⟨isAbsolute_join hbase alt, hjoined alt halt⟩

/-- **Patterns do not fail.**  What keeps the files of patterns below an absolute root from being
found is what hinders every search there, or a null character in a pattern. -/
theorem expand_failsOnly (m : Matcher) (cache : IgnoreCache) (hnamed : h.IsNamed)
    (hroot : isAbsolute root = true) (patterns : List Text) :
    FailsOnly (fun f => m.Hinders h cache root f ∨
        f = .nullCharacter ∧ ∃ p ∈ patterns, '\x00' ∈ p)
      (m.expand h cache patterns root).result := by
  rw [expand, Reported.result_bind]
  refine .bind ((rules_failsOnly m h cache root).mono fun f hf => Or.inl hf) fun rules _ => ?_
  rw [Reported.result_ofExcept, expandWith]
  refine .map (.mapM fun p hp => ?_) _
  refine ((candidates_failsOnly hnamed hroot p).map _).mono ?_
  rintro f ⟨rfl, hnull | hnull⟩
  · exact Or.inl (.root hnull)
  · exact Or.inr ⟨rfl, p, List.mem_of_mem_filter hp, hnull⟩

/-! ## All files -/

/-- A walk down from an absolute directory fails only where there is a null character in its
path. -/
theorem filesBelow_failsOnly (hnamed : h.IsNamed) (hroot : isAbsolute root = true)
    (rules : Option (List IgnoreRule)) (pruned : Option Regex) (depth : Nat) {directory : Text}
    (hdirectory : isAbsolute directory = true) :
    FailsOnly (fun f => f = .nullCharacter ∧ '\x00' ∈ directory)
      (filesBelow h root rules pruned depth directory) := by
  induction depth generalizing directory with
  | zero => exact .ok []
  | succ depth ih =>
    rw [filesBelow]
    split
    · exact .ok []
    · next e hfile he =>
      rcases Host.entries_fault he with ⟨cause, rfl⟩ | hnull
      · exact (hfile cause rfl).elim
      · exact .error hnull
    · next entries hentries =>
      refine .map (.mapM fun ⟨name, node⟩ hentry => ?_) _
      have hproper := hnamed.isName_of_mem_entries hentries _ (List.mem_of_mem_filter hentry)
      have hpath : isAbsolute (normalize (Path.join directory name)) = true :=
        isAbsolute_normalize (isAbsolute_join hdirectory name)
      -- Names have no null characters, so those below are those of the directory.
      have hbelow : '\x00' ∈ normalize (Path.join directory name) → '\x00' ∈ directory := by
        intro hnull
        rcases mem_of_mem_normalize hnull with hslash | hdot | hnull
        · exact absurd hslash (by decide)
        · exact absurd hdot (by decide)
        rcases mem_of_mem_join hnull with hslash | hnull | hnull
        · exact absurd hslash (by decide)
        · exact hnull
        · exact absurd hnull hproper.no_null
      obtain ⟨rel, hrel⟩ := h.exists_relativeTo hpath hroot
      refine .bind (hrel ▸ .ok rel) fun rel _ => ?_
      split
      · split
        · exact .ok []
        · exact (ih hpath).mono fun f hf => hf.imp_right hbelow
      · split
        · exact .ok _
        · exact .ok _

/-- Patterns for whole directories are exclude patterns without the end that all of them have. -/
theorem append_mem_of_mem_prunePatterns {excludes : List Text} {p : Text}
    (hp : p ∈ prunePatterns excludes) : p ++ "/**".toList ∈ excludes := by
  obtain ⟨q, hq, hcut⟩ := List.mem_filterMap.1 hp
  split at hcut
  · next hsuffix =>
    obtain ⟨r, rfl⟩ := List.isSuffixOf_iff_suffix.1 hsuffix
    obtain rfl := Option.some.inj hcut
    simpa using hq
  · exact absurd hcut nofun

section Excludes

variable (m h cache root) (excludes : List Text)

/-- The result of looking for all files. -/
theorem result_allFiles :
    (m.allFiles h cache root excludes).result =
      (do
        let excluded ← (Glob.compile (excludes.filter (!·.isEmpty))).mapError Fault.expression
        let pruned ← (Glob.compile (prunePatterns (excludes.filter (!·.isEmpty)))).mapError
          Fault.expression
        let rules ← (m.rules h cache root).result
        let files ← filesBelow h root rules pruned Host.maxPathBytes root
        return files.filter fun f => !isExcluded h excluded root f) := by
  simp only [allFiles, Reported.result_bind, Reported.result_ofExcept, Reported.result_pure]
  rfl

/-- **What keeps all files from being found** is what hinders every search below the root, or a
flawed exclude pattern. -/
theorem allFiles_failsOnly (hnamed : h.IsNamed) (hroot : isAbsolute root = true) :
    FailsOnly (fun f => m.Hinders h cache root f ∨
        ∃ alt ∈ Glob.alternatives excludes, ∃ flaw,
          Glob.patternFlaw? alt = some flaw ∧ f = .expression flaw)
      (m.allFiles h cache root excludes).result := by
  rw [result_allFiles]
  refine .bind ?_ fun excluded hexcluded => .bind ?_ fun pruned _ => .bind ?_ fun rules _ => .bind ?_
    fun files _ => .ok _
  · intro f hf
    cases hcompile : Glob.compile (excludes.filter (!·.isEmpty)) with
    | ok r => exact absurd (hcompile ▸ hf) nofun
    | error flaw =>
      rw [hcompile] at hf
      obtain ⟨alt, halt, hflaw⟩ := Glob.compile_eq_error hcompile
      rw [Glob.alternatives_filter] at halt
      exact Or.inr ⟨alt, halt, flaw, hflaw, (Except.error.inj hf).symm⟩
  · -- A flaw would have been found before.
    have hbrace : ∀ c ∈ ['/', '*', '*'], Glob.isBrace c = false := by simp [Glob.isBrace]
    obtain ⟨r, hr⟩ := Glob.exists_compile_of_append hbrace (by decide)
      (fun p hp => append_mem_of_mem_prunePatterns hp) ⟨excluded, eq_ok_of_mapError hexcluded⟩
    rw [hr]
    exact .ok r
  · exact (rules_failsOnly m h cache root).mono fun f hf => Or.inl hf
  · refine (filesBelow_failsOnly hnamed hroot rules pruned _ hroot).mono ?_
    rintro f ⟨rfl, hnull⟩
    exact Or.inl (.root hnull)

/-- All of that does keep them from being found. -/
theorem exists_allFiles_eq_error
    (hbad : (∃ f, m.Hinders h cache root f) ∨
      ∃ alt ∈ Glob.alternatives excludes, Glob.patternFlaw? alt ≠ none) :
    ∃ f, (m.allFiles h cache root excludes).result = .error f := by
  cases hresult : (m.allFiles h cache root excludes).result with
  | error f => exact ⟨f, rfl⟩
  | ok files =>
    rw [result_allFiles] at hresult
    obtain ⟨excluded, hexcluded, hresult⟩ := bind_eq_ok_iff.1 hresult
    obtain ⟨pruned, -, hresult⟩ := bind_eq_ok_iff.1 hresult
    obtain ⟨rules, hrules, hresult⟩ := bind_eq_ok_iff.1 hresult
    obtain ⟨found, hfound, -⟩ := bind_eq_ok_iff.1 hresult
    rcases hbad with ⟨f, hf⟩ | ⟨alt, halt, hflaw⟩
    · rcases hf.null_or_rules with hnull | ⟨f', hf'⟩
      · rw [Host.maxPathBytes, filesBelow, Host.entries, Host.node, Host.nodeAt, Host.locate,
          if_pos (by simpa using hnull)] at hfound
        cases hfound
      · cases hrules.symm.trans hf'
    · rw [← Glob.alternatives_filter] at halt
      have hcompile := Glob.exists_compile_iff.1 ⟨excluded, eq_ok_of_mapError hexcluded⟩
      exact absurd (hcompile alt halt) hflaw

end Excludes

end Matcher

end Bindery

import Bindery.Proofs.Search.Below
import Bindery.Proofs.Search.Whole

/-!
# Leaving out ignored files

To leave out ignored files is to take the files that there are otherwise and to drop those that are
inside the root and ignored by their path.  That is so for patterns, whose files are filtered one by
one, and for all files, where the walk passes over ignored directories.

* `Matcher.ignoresInside`: the files that are dropped.
* `Matcher.expand_eq_filter`, `Matcher.allFiles_eq_filter_ignored`.
-/

namespace Bindery

open Bindery.Path Bindery.Search

/-- Where there is a working directory, there is a path between any two places. -/
theorem Host.exists_relativeTo_of_lost_eq_zero {h : Host} (hlost : h.lost = 0) (path start : Text) :
    ∃ rel, h.relativeTo path start = .ok rel := by
  have habsolute : ∀ p, ∃ q, h.absolute p = .ok q := by
    intro p
    rw [absolute]
    split
    · exact ⟨_, rfl⟩
    · rw [currentPath, if_pos hlost]
      exact ⟨_, rfl⟩
  obtain ⟨origin, horigin⟩ := habsolute start
  obtain ⟨target, htarget⟩ := habsolute path
  rw [relativeTo, horigin, htarget]
  split
  · exact ⟨_, rfl⟩
  · exact ⟨_, rfl⟩

namespace Matcher

variable {m m' : Matcher} {h : Host} {cache : IgnoreCache} {root : Text}
  {rules : Option (List IgnoreRule)}

/-! ## Files inside a root -/

/-- Whether a path leads out of the place that it counts from. -/
def leadsOut (rel : Text) : Bool :=
  decide (rel = "..".toList) || "../".toList.isPrefixOf rel

theorem leadsOut_iff {rel : Text} :
    leadsOut rel = true ↔ rel = "..".toList ∨ "../".toList.isPrefixOf rel = true := by
  rw [leadsOut, Bool.or_eq_true, decide_eq_true_eq]

/-- Whether a file is inside the root and rules ignore it by the path that leads to it from
there. -/
def ignoresInside (h : Host) (rules : Option (List IgnoreRule)) (root f : Text) : Bool :=
  (h.relativeTo f root).toOption.any fun rel => !leadsOut rel && ignoresPath rules rel

theorem ignoresInside_none (f : Text) : ignoresInside h none root f = false := by
  rw [ignoresInside, Option.any_eq_false]
  intro rel _
  simp [ignoresPath]

theorem isIgnored_eq_ignoresInside {f : Text} (hrel : ∃ rel, h.relativeTo f root = .ok rel)
    (rules : Option (List IgnoreRule)) :
    isIgnored h rules root f = ignoresInside h rules root f := by
  obtain ⟨rel, hrel⟩ := hrel
  cases rules with
  | none => exact (ignoresInside_none f).symm
  | some rules =>
    rw [isIgnored, ignoresInside, hrel]
    change (if _ then _ else _) = (!leadsOut rel && _)
    split
    · next hout => rw [leadsOut_iff.2 hout, Bool.not_true, Bool.false_and]
    · next hin =>
      rw [Bool.eq_false_iff.2 fun hout => hin (leadsOut_iff.1 hout), Bool.not_false, Bool.true_and]
      rfl

/-! ## Files of patterns -/

/-- What a search for an absolute pattern finds is absolute. -/
theorem isAbsolute_of_mem_filesMatching (hnamed : h.IsNamed) {pattern : Text}
    (hp : isAbsolute pattern = true) {files : List Text}
    (hfiles : filesMatching h pattern = .ok files) : ∀ f ∈ files, isAbsolute f = true := by
  intro f hf
  obtain ⟨ps, q, hps, hq, -, rfl⟩ := exists_path_of_mem_filesMatching hfiles hf
  have hfound := (paths_outcome hnamed false hp).sound ps hps q hq
  exact isAbsolute_normalize (hfound.isAbsolute_eq.trans hp)

theorem isAbsolute_of_mem_candidates (hnamed : h.IsNamed) (hroot : isAbsolute root = true)
    {p : Text} {files : List Text} (hfiles : candidates h root p = .ok files) :
    ∀ f ∈ files, isAbsolute f = true := by
  have hbase := isAbsolute_escape hroot
  have hany : ∀ patterns : List Text, (∀ q ∈ patterns, isAbsolute q = true) →
      filesMatchingAny h patterns = .ok files → ∀ f ∈ files, isAbsolute f = true := by
    intro patterns hpatterns hfiles f hf
    obtain ⟨q, hq, found, hfound, hf⟩ := (mem_filesMatchingAny hfiles f).1 hf
    exact isAbsolute_of_mem_filesMatching hnamed (hpatterns q hq) hfound f hf
  rw [candidates] at hfiles
  dsimp only at hfiles
  split at hfiles
  · refine hany _ (fun q hq => ?_) hfiles
    obtain ⟨alt, -, rfl⟩ := List.mem_map.1 hq
    exact isAbsolute_join (isAbsolute_join (isAbsolute_join hbase alt) _) _
  split at hfiles
  · obtain rfl := Except.ok.inj hfiles
    exact List.forall_mem_singleton.2 (isAbsolute_normalize (isAbsolute_join hroot _))
  · refine hany _ (fun q hq => ?_) hfiles
    obtain ⟨alt, -, rfl⟩ := List.mem_map.1 hq
    exact isAbsolute_join hbase alt

/-- Where the root is can be told, so can where its candidates are from there. -/
theorem exists_relativeTo_of_mem_candidates (hnamed : h.IsNamed) (hwhere : h.KnowsWhere root)
    {p : Text} {files : List Text} (hfiles : candidates h root p = .ok files) :
    ∀ f ∈ files, ∃ rel, h.relativeTo f root = .ok rel := by
  intro f hf
  rcases hwhere with hroot | hlost
  · exact h.exists_relativeTo (isAbsolute_of_mem_candidates hnamed hroot hfiles f hf) hroot
  · exact Host.exists_relativeTo_of_lost_eq_zero hlost f root

theorem expandWith_eq_filter (hnamed : h.IsNamed) (hwhere : h.KnowsWhere root)
    (rules : Option (List IgnoreRule)) (patterns : List Text) :
    expandWith h rules patterns root =
      (expandWith h none patterns root).map
        (List.filter fun f => !ignoresInside h rules root f) := by
  refine flatten_mapM_eq_filter fun p _ => ?_
  cases hfiles : candidates h root p with
  | error e => rfl
  | ok files =>
    refine congrArg Except.ok ?_
    have hall : files.filter (!isIgnored h none root ·) = files :=
      List.filter_eq_self.2 fun _ _ => rfl
    refine Eq.trans (List.filter_congr fun f hf => ?_) (congrArg (List.filter _) hall).symm
    rw [isIgnored_eq_ignoresInside
      (exists_relativeTo_of_mem_candidates hnamed hwhere hfiles f hf) rules]

theorem result_rules_of_includeIgnored (hall : m.includeIgnored = true) (h : Host)
    (cache : IgnoreCache) (root : Text) : (m.rules h cache root).result = .ok none := by
  rw [result_rules, if_pos hall]

theorem result_expand_of_rules (hrules : (m.rules h cache root).result = .ok rules)
    (patterns : List Text) :
    (m.expand h cache patterns root).result = expandWith h rules patterns root := by
  rw [expand, Reported.result_bind, hrules]
  rfl

/-- The files of patterns are those that there are otherwise, but for those that the rules
ignore. -/
theorem expand_eq_filter (hnamed : h.IsNamed) (hwhere : h.KnowsWhere root)
    (hrules : (m.rules h cache root).result = .ok rules) (hall : m'.includeIgnored = true)
    (patterns : List Text) :
    (m.expand h cache patterns root).result =
      (m'.expand h cache patterns root).result.map
        (List.filter fun f => !ignoresInside h rules root f) := by
  rw [result_expand_of_rules hrules,
    result_expand_of_rules (result_rules_of_includeIgnored hall h cache root)]
  exact expandWith_eq_filter hnamed hwhere rules patterns

/-! ## All files -/

theorem IsBelow.exists_relativeTo {f : Text} (hf : IsBelow root [] f) (hwhere : h.KnowsWhere root) :
    ∃ rel, h.relativeTo f root = .ok rel := by
  obtain ⟨more, hne, hmore, rfl⟩ := hf
  exact ⟨_, Host.relativeTo_placeBelow hwhere hne fun n hn => (hmore n hn).1⟩

theorem isBelow_of_mem_filesBelow (hnamed : h.IsNamed) (hwhere : h.KnowsWhere root) {depth : Nat}
    {files : List Text} (hfiles : filesBelow h root none none depth root = .ok files) :
    ∀ f ∈ files, IsBelow root [] f := by
  by_cases hnull : '\x00' ∈ root
  · -- Such a root cannot be listed.
    cases depth with
    | zero =>
      obtain rfl := Except.ok.inj hfiles
      exact nofun
    | succ depth =>
      have hentries : h.entries root = .error .nullCharacter := by
        rw [Host.entries, Host.node, Host.nodeAt_of_null h .target hnull]
      rw [filesBelow_succ, hentries] at hfiles
      cases hfiles
  · obtain ⟨files', hfiles', hbelow⟩ := exists_filesBelow_root hnamed hwhere depth hnull
    obtain rfl := Except.ok.inj (hfiles.symm.trans hfiles')
    exact hbelow

/-- All files are those that there are otherwise, but for those that the rules ignore. -/
theorem allFiles_eq_filter_ignored (hnamed : h.IsNamed) (hwhere : h.KnowsWhere root)
    (hrules : (m.rules h cache root).result = .ok rules) (hall : m'.includeIgnored = true)
    (excludes : List Text) :
    (m.allFiles h cache root excludes).result =
      (m'.allFiles h cache root excludes).result.map
        (List.filter fun f => !ignoresInside h rules root f) := by
  rw [result_allFiles, result_allFiles, hrules, result_rules_of_includeIgnored hall]
  cases (Glob.compile (excludes.filter (!·.isEmpty))).mapError Fault.expression with
  | error e => rfl
  | ok excluded =>
    cases (Glob.compile (prunePatterns (excludes.filter (!·.isEmpty)))).mapError
      Fault.expression with
    | error e => rfl
    | ok pruned =>
      change (filesBelow h root rules pruned Host.maxPathBytes root >>= fun files =>
        Except.ok (files.filter fun f => !isExcluded h excluded root f)) =
          (filesBelow h root none pruned Host.maxPathBytes root >>= fun files =>
            Except.ok (files.filter fun f => !isExcluded h excluded root f)).map _
      rw [filesBelow_eq_filter hnamed root rules, filesBelow_eq_filter hnamed root none pruned]
      cases hfound : filesBelow h root none none Host.maxPathBytes root with
      | error e => rfl
      | ok found =>
        refine congrArg Except.ok ?_
        rw [List.filter_filter, List.filter_filter, List.filter_filter]
        refine List.filter_congr fun f hf => ?_
        have hbelow := isBelow_of_mem_filesBelow hnamed hwhere hfound f hf
        rw [keepsPath_eq_and h root rules, keepsPath_eq_not_isIgnored hwhere rules hbelow,
          isIgnored_eq_ignoresInside (hbelow.exists_relativeTo hwhere)]
        cases ignoresInside h rules root f <;> cases keepsPath h root none pruned f <;>
          cases isExcluded h excluded root f <;> rfl

end Matcher

end Bindery

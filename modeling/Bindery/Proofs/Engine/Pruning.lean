import Bindery.Proofs.Engine.Resolving
import Bindery.Proofs.Engine.Selecting

/-!
# Pruned selections

Pruning takes from a selection the names that have no profile, and leaves the others as they are.
Such a name has no files, so the files of the selection stay the same.  Of the reports those go that
are made about the names taken away.  No other report is like one of them: what is reported of a
name that has a profile is a missing parent or a cycle, in other words.

* `Engine.names_prune`, `Engine.prune_eq_self`: what pruning leaves.
* `Engine.resolveName_reportsOnly`: what is reported of a name that has a profile.
* `Engine.CanExpand`: resolving a selection does not fail.
* `Engine.resolveSelection_prune`: a pruned selection and its files and reports.
-/

namespace Bindery

namespace Registry

/-- The names that have a profile are those of the registry. -/
theorem has_iff {r : Registry} {name : Text} : r.has name = true ↔ name ∈ r.names := by
  rw [has, Option.isSome_iff_ne_none, ne_eq, get?, Entries.get?_eq_none_iff, not_not, names]

end Registry

namespace Engine

variable {e : Engine} {h : Host} {cache : IgnoreCache} {s : Selection} {name : Text}

/-! ## What is left of a selection -/

/-- The names with a profile are left, in their order. -/
theorem names_prune (e : Engine) (hs : s.Canonical) :
    (e.prune s).names = s.names.filter e.registry.has := by
  cases s with
  | none => rfl
  | allFiles => rfl
  | profiles names =>
    rw [prune, Selection.ofNames_of_clean (hs.2.filter _)]
    split
    · next hnil => exact hnil.symm
    · rfl

theorem prune_ne_allFiles (hall : s ≠ .allFiles) : e.prune s ≠ .allFiles := by
  cases s with
  | none => exact hall
  | allFiles => exact absurd rfl hall
  | profiles names =>
    intro hpruned
    rw [prune, Selection.ofNames] at hpruned
    split at hpruned <;> cases hpruned

theorem canonical_prune (e : Engine) (hs : s.Canonical) : (e.prune s).Canonical := by
  cases s with
  | none => exact trivial
  | allFiles => exact trivial
  | profiles names => exact Selection.canonical_ofNames _

/-- A selection whose names all have a profile is left as it is. -/
theorem prune_eq_self (hs : s.Canonical) (hnames : ∀ n ∈ s.names, e.registry.has n = true) :
    e.prune s = s := by
  cases s with
  | none => rfl
  | allFiles => rfl
  | profiles names =>
    have hkept : names.filter e.registry.has = names := List.filter_eq_self.2 hnames
    rw [prune, hkept, hs.ofNames_eq]

/-- Nothing is taken from a selection exactly if all its names are those of the registry. -/
theorem prune_eq_self_iff (hs : s.Canonical) :
    e.prune s = s ↔ ∀ n ∈ s.names, n ∈ e.registry.names := by
  refine ⟨fun heq n hn => ?_, fun hnames =>
    prune_eq_self hs fun n hn => Registry.has_iff.2 (hnames n hn)⟩
  have hkept := e.names_prune hs
  rw [heq] at hkept
  rw [hkept] at hn
  exact Registry.has_iff.1 (List.mem_filter.1 hn).2

theorem prune_prune (e : Engine) (hs : s.Canonical) : e.prune (e.prune s) = e.prune s := by
  refine prune_eq_self (e.canonical_prune hs) fun n hn => ?_
  rw [e.names_prune hs] at hn
  exact (List.mem_filter.1 hn).2

/-- Nothing is left of names without a profile. -/
theorem isEmpty_prune_iff (hs : s.Canonical) (hall : s ≠ .allFiles) :
    (e.prune s).isEmpty = true ↔ ∀ n ∈ s.names, n ∉ e.registry.names := by
  cases s with
  | none => exact iff_of_true rfl fun n hn => absurd hn List.not_mem_nil
  | allFiles => exact absurd rfl hall
  | profiles names =>
    rw [prune, Selection.ofNames_of_clean (hs.2.filter _)]
    split
    · next hnil =>
      refine iff_of_true rfl fun n hn => ?_
      exact mt Registry.has_iff.2 (List.filter_eq_nil_iff.1 hnil n hn)
    · next hne =>
      refine iff_of_false nofun fun hnone => hne (List.filter_eq_nil_iff.2 fun n hn => ?_)
      exact mt Registry.has_iff.1 (hnone n hn)

/-! ## What is reported of a name -/

/-- A name without a profile is reported and has no files. -/
theorem resolveName_of_not_has (hname : e.registry.has name = false) (expand : Expansion) :
    e.resolveName expand name = ⟨⟨[unknownProfile name], []⟩, .ok []⟩ := by
  have hnone : e.registry.get? name = none :=
    Option.isNone_iff_eq_none.1 (Option.isSome_eq_false_iff.1 hname)
  rw [resolveName, hnone]
  rfl

/-- What is reported of a name with a profile is a missing parent below the profile, or a cycle. -/
theorem resolveName_reportsOnly {p : Profile} (hp : e.registry.get? name = some p) :
    (e.resolveName (e.expansion h cache) name).ReportsOnly fun d =>
      e.registry.MissingBelow p d ∨ ∃ chain, d = inheritanceCycle name chain := by
  have hwalk := Registry.resolveFrom_reportsOnly (r := e.registry)
    (diagnostics_expansion e h cache) (e.registry.size + 2) [] p
  have hname : e.resolveName (e.expansion h cache) name =
      reportCycle name (e.registry.resolve (e.expansion h cache) p) := by
    rw [resolveName, hp]
  rw [hname, reportCycle]
  split
  · next chain _ =>
    intro d hd
    rcases List.mem_append.1 hd with hd | hd
    · exact Or.inl (hwalk d hd)
    · exact Or.inr ⟨chain, List.mem_singleton.1 hd⟩
  · exact hwalk.mono fun d hd => Or.inl hd

/-- A parent that is missing is not reported as a selected name is. -/
theorem unknownProfile_ne_unknownParent (name child parent : Text) :
    unknownProfile name ≠ Registry.unknownParent child parent := by
  intro heq
  obtain ⟨-, hmessage, -, hprofile⟩ := Diagnostic.mk.inj heq
  obtain rfl := Option.some.inj hprofile
  rw [List.append_assoc, List.append_assoc, List.append_assoc] at hmessage
  have hrest := List.append_cancel_left (List.append_cancel_left hmessage)
  exact absurd (congrArg (List.take 3) hrest) (by simp)

theorem unknownProfile_ne_inheritanceCycle (n name : Text) (chain : List Text) :
    unknownProfile n ≠ inheritanceCycle name chain :=
  fun heq => nomatch congrArg Diagnostic.kind heq

/-! ## Files and reports -/

/-- All that has to be expanded for a selection can be. -/
def CanExpand (e : Engine) (h : Host) (cache : IgnoreCache) : Selection → Prop
  | .none => True
  | .profiles names => ∀ n ∈ names, ∀ p, e.registry.get? n = some p →
      e.registry.Expandable (e.expansion h cache) p
  | .allFiles => ∀ root ∈ e.roots, ∃ files,
      (e.matcher.allFiles h cache root e.settings.excludePatterns).result = .ok files

/-- What can be expanded has files. -/
theorem CanExpand.exists_files (hkeyed : e.registry.Keyed) (hs : e.CanExpand h cache s) :
    ∃ files, (e.resolveSelection h cache s).result = .ok files := by
  cases s with
  | none => exact ⟨[], rfl⟩
  | allFiles =>
    obtain ⟨parts, hparts⟩ := exists_mapM_eq_ok hs
    rw [result_resolveSelection_allFiles, hparts]
    exact ⟨parts.flatten, rfl⟩
  | profiles names =>
    obtain ⟨parts, hparts⟩ := exists_mapM_eq_ok fun n hn =>
      (selectedAlone_resolveName hkeyed (hs n hn)).exists_files
    rw [result_resolveSelection_profiles, hparts]
    exact ⟨parts.flatten, rfl⟩

/-- A selection of names has the files of one name after the other. -/
theorem resolveSelection_names (hall : s ≠ .allFiles) :
    e.resolveSelection h cache s =
      (s.names.mapM (e.resolveName (e.expansion h cache)) >>= fun parts => pure parts.flatten) := by
  cases s with
  | none => rfl
  | allFiles => exact absurd rfl hall
  | profiles names => rfl

/-- The files of a pruned selection are those of the selection. -/
theorem result_resolveSelection_prune (hs : s.Canonical) :
    (e.resolveSelection h cache (e.prune s)).result = (e.resolveSelection h cache s).result := by
  rcases eq_or_ne s .allFiles with rfl | hall
  · rfl
  rw [resolveSelection_names hall, resolveSelection_names (prune_ne_allFiles hall),
    names_prune e hs, Reported.result_bind, Reported.result_bind, Reported.result_mapM, Reported.result_mapM]
  refine flatten_mapM_filter fun n _ hn => ?_
  rw [resolveName_of_not_has hn]

/-- The reports on a pruned selection are those on the selection that are not about a name without a
profile. -/
theorem diagnostics_resolveSelection_prune (hs : s.Canonical) :
    (e.resolveSelection h cache (e.prune s)).notes.diagnostics =
      (e.resolveSelection h cache s).notes.diagnostics.filter
        (· ∉ s.names.map unknownProfile) := by
  rcases eq_or_ne s .allFiles with rfl | hall
  · exact (List.filter_eq_self.2 fun _ _ => decide_eq_true List.not_mem_nil).symm
  rw [resolveSelection_names hall, resolveSelection_names (prune_ne_allFiles hall),
    names_prune e hs, Reported.diagnostics_bind_pure, Reported.diagnostics_bind_pure]
  refine Reported.diagnostics_mapM_filter (fun n _ hn d hd => ?_) fun n hmem hn => ?_
  · refine decide_eq_true fun hd' => ?_
    obtain ⟨m, -, rfl⟩ := List.mem_map.1 hd'
    obtain ⟨p, hp⟩ := Option.isSome_iff_exists.1 hn
    rcases resolveName_reportsOnly hp _ hd with ⟨q, parent, -, -, -, heq⟩ | ⟨chain, heq⟩
    · exact unknownProfile_ne_unknownParent m q.name parent heq
    · exact unknownProfile_ne_inheritanceCycle m n chain heq
  · rw [resolveName_of_not_has hn]
    refine ⟨⟨[], rfl⟩, fun d hd => decide_eq_false (not_not.2 ?_)⟩
    rw [List.mem_singleton.1 hd]
    exact List.mem_map_of_mem hmem

/-- **Pruning takes away the names that have no profile, and nothing else.**  In whatever state the
engine is: a pruned selection has the selected names that the registry has, in their order, and is
empty if there are none; all files stay all files, and to prune again makes no difference.  As long
as the files stay as they are, the pruned selection is resolved to the same files, and with the same
reports but for those about selected names without a profile; and there are files if all can be
expanded. -/
theorem resolveSelection_prune {settings : Settings} (he : Reachable settings e) (h : Host)
    (cache : IgnoreCache) (hs : s.IsMade) :
    (e.prune s).names = s.names.filter (· ∈ e.registry.names) ∧
    e.prune .allFiles = .allFiles ∧
    (s ≠ .allFiles → ((e.prune s).isEmpty = true ↔ ∀ n ∈ s.names, n ∉ e.registry.names)) ∧
    e.prune (e.prune s) = e.prune s ∧
    (∀ notes,
      (e.resolveSelection h (e.refreshed h cache notes) (e.prune s)).result =
        (e.resolveSelection h cache s).result ∧
      (e.resolveSelection h (e.refreshed h cache notes) (e.prune s)).notes.diagnostics =
        (e.resolveSelection h cache s).notes.diagnostics.filter
          (· ∉ s.names.map unknownProfile)) ∧
    (e.CanExpand h cache s → ∃ files, (e.resolveSelection h cache s).result = .ok files) := by
  have hcanonical := hs.canonical
  refine ⟨?_, rfl, isEmpty_prune_iff hcanonical, prune_prune e hcanonical, fun notes => ?_,
    CanExpand.exists_files he.declared.keyed⟩
  · rw [names_prune e hcanonical]
    exact List.filter_congr fun n _ =>
      Bool.eq_iff_iff.2 (Registry.has_iff.trans decide_eq_true_iff.symm)
  · rw [resolveSelection_refreshed]
    exact ⟨result_resolveSelection_prune hcanonical, diagnostics_resolveSelection_prune hcanonical⟩

/-- Of two names one has no profile; that a parent of this name is missing is reported as before. -/
theorem resolveSelection_prune_loop :
    Reachable loopSettings loopEngine ∧ (Selection.ofNames [['u'], ['k']]).IsMade ∧
      loopEngine.CanExpand loopHost .empty (.ofNames [['u'], ['k']]) ∧
      loopEngine.prune (.ofNames [['u'], ['k']]) = .profiles [['k']] ∧
      loopEngine.prune (.profiles [['k']]) = .profiles [['k']] ∧
      ∃ files, (loopEngine.resolveSelection loopHost .empty (.ofNames [['u'], ['k']])).result =
          .ok files ∧ ∀ notes,
        (loopEngine.resolveSelection loopHost (loopEngine.refreshed loopHost .empty notes)
          (.profiles [['k']])).result = .ok files ∧
        (loopEngine.resolveSelection loopHost (loopEngine.refreshed loopHost .empty notes)
          (.profiles [['k']])).notes.diagnostics = [Registry.unknownParent ['k'] ['u']] := by
  have hprune : loopEngine.prune (.ofNames [['u'], ['k']]) = .profiles [['k']] := by
    rw [loopEngine_eq]
    cbv
  have hexpand : loopEngine.CanExpand loopHost .empty (.ofNames [['u'], ['k']]) :=
    fun n _ p hp => expandable_loopEngine hp
  have hdiagnostics : (loopEngine.resolveSelection loopHost .empty
      (.ofNames [['u'], ['k']])).notes.diagnostics =
        [unknownProfile ['u'], Registry.unknownParent ['k'] ['u']] := by
    rw [loopEngine_eq]
    cbv
  obtain ⟨-, -, -, hagain, hsame, hfiles⟩ :=
    resolveSelection_prune reachable_loopEngine loopHost .empty (.ofNames [['u'], ['k']])
  obtain ⟨files, hfiles⟩ := hfiles hexpand
  rw [hprune] at hagain hsame
  refine ⟨reachable_loopEngine, .ofNames _, hexpand, hprune, hagain, files, hfiles, fun notes => ?_⟩
  obtain ⟨hresult, hreports⟩ := hsame notes
  refine ⟨hresult.trans hfiles, hreports.trans ?_⟩
  rw [hdiagnostics]
  decide

end Engine

end Bindery

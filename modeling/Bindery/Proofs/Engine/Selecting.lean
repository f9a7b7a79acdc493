import Bindery.Engine.Resolve
import Bindery.Proofs.Engine.Consistency
import Bindery.Proofs.Ignore.Remembered
import Bindery.Proofs.Profile.Missing
import Bindery.Proofs.Selection.Names

/-!
# Selections name by name

Where patterns can be expanded, every name of a selection is resolved as if it were selected alone:
the files are those of all names together, and the reports are those of the names in their order.
So a name without a profile and one that reaches a cycle are reported and take nothing away from the
others, wherever they stand, and the files do not depend on the order of the names.

* `Engine.SelectedAlone`: what a name contributes.
* `Engine.resolveSelection_name_by_name`: a selection of several names.
-/

namespace Bindery

namespace Engine

variable {e : Engine} {h : Host} {cache : IgnoreCache}

/-! ## Expansions -/

/-- Expansions report nothing. -/
theorem diagnostics_expansion (e : Engine) (h : Host) (cache : IgnoreCache) (patterns : List Text)
    (root : Text) : (e.expansion h cache patterns root).notes.diagnostics = [] :=
  e.matcher.diagnostics_expand h cache patterns root

/-- What is remembered of ignore files makes no difference as long as the files stay as they are. -/
theorem rules_refreshed (e : Engine) (h : Host) (cache : IgnoreCache) (notes : Notes) :
    e.matcher.rules h (e.refreshed h cache notes) = e.matcher.rules h cache := by
  funext root
  rw [Matcher.rules, Matcher.rules, refreshed, IgnoreCache.lines_foldl_refresh]

/-- A selection is resolved to the same again, whatever has been resolved in between. -/
theorem resolveSelection_refreshed (e : Engine) (h : Host) (cache : IgnoreCache) (notes : Notes)
    (s : Selection) :
    e.resolveSelection h (e.refreshed h cache notes) s = e.resolveSelection h cache s := by
  have hexpansion : e.expansion h (e.refreshed h cache notes) = e.expansion h cache := by
    funext patterns root
    rw [expansion, expansion, Matcher.expand, Matcher.expand, rules_refreshed]
  have hall : e.matcher.allFiles h (e.refreshed h cache notes) = e.matcher.allFiles h cache := by
    funext root excludes
    rw [Matcher.allFiles, Matcher.allFiles, rules_refreshed]
  unfold resolveSelection
  rw [hexpansion, hall]

/-! ## Selections of names -/

/-- The files of a selection of names are those of one name after the other. -/
theorem resolveSelection_ofNames {names : List Text} (hnames : Selection.Clean names) :
    e.resolveSelection h cache (.ofNames names) =
      (names.mapM (e.resolveName (e.expansion h cache)) >>= fun parts => pure parts.flatten) := by
  rw [Selection.ofNames_of_clean hnames]
  cases names <;> rfl

/-- A name that is selected alone has what it is resolved to. -/
theorem resolveSelection_singleton {name : Text} (hname : Selection.Clean [name]) :
    e.resolveSelection h cache (.ofNames [name]) =
      e.resolveName (e.expansion h cache) name := by
  rw [resolveSelection_ofNames hname, List.mapM_cons, List.mapM_nil, bind_assoc]
  simp

/-- What a name comes to that is selected alone.  Reports are of missing parents, but for one about
a name that has no profile or reaches a cycle. -/
structure SelectedAlone (e : Engine) (name : Text) (x : Reported (List Text)) : Prop where
  exists_files : ∃ files, x.result = .ok files
  of_unknown : e.registry.get? name = none →
    x.result = .ok [] ∧ x.notes.diagnostics = [unknownProfile name]
  of_cycle : ∀ p, e.registry.get? name = some p → e.registry.ReachesCycle p →
    x.result = .ok [] ∧ ∃ missing chain,
      x.notes.diagnostics = missing ++ [inheritanceCycle name chain] ∧
        ∀ d ∈ missing, e.registry.MissingBelow p d
  of_acyclic : ∀ p, e.registry.get? name = some p → ¬ e.registry.ReachesCycle p →
    ∀ d ∈ x.notes.diagnostics, e.registry.MissingBelow p d

/-- A name comes to what it should where the patterns of its profile can be expanded. -/
theorem selectedAlone_resolveName (hkeyed : e.registry.Keyed) {name : Text}
    (hexpand : ∀ p, e.registry.get? name = some p →
      e.registry.Expandable (e.expansion h cache) p) :
    e.SelectedAlone name (e.resolveName (e.expansion h cache) name) := by
  cases hp : e.registry.get? name with
  | none =>
    have hname : e.resolveName (e.expansion h cache) name = ⟨⟨[unknownProfile name], []⟩, .ok []⟩ := by
      rw [resolveName, hp]
      rfl
    rw [hname]
    refine ⟨⟨[], rfl⟩, fun _ => ⟨rfl, rfl⟩, fun p hsome => ?_, fun p hsome => ?_⟩
    all_goals exact absurd (hp.symm.trans hsome) nofun
  | some p =>
    have hlookup : e.registry.lookup name none = some p := hp
    have hstored : e.registry.Stored p := hkeyed.stored_of_lookup hlookup
    have hwalk := Registry.walked_resolve hkeyed hstored (hexpand p hp)
    have hreports := Registry.resolveFrom_reportsOnly (r := e.registry)
      (diagnostics_expansion e h cache) (e.registry.size + 2) [] p
    have hname : e.resolveName (e.expansion h cache) name =
        reportCycle name (e.registry.resolve (e.expansion h cache) p) := by
      rw [resolveName, hp]
    rw [hname, reportCycle]
    cases hresult : (e.registry.resolve (e.expansion h cache) p).result with
    | error f =>
      rw [hresult] at hwalk
      obtain ⟨hcycle, chain, rfl⟩ := hwalk.of_error
      refine ⟨⟨[], rfl⟩, fun hnone => absurd hnone (by rw [hp]; nofun), fun q hq _ => ?_,
        fun q hq hnot => ?_⟩
      · obtain rfl := Option.some.inj (hp.symm.trans hq)
        exact ⟨rfl, _, chain, rfl, hreports⟩
      · obtain rfl := Option.some.inj (hp.symm.trans hq)
        exact absurd hcycle hnot
    | ok files =>
      rw [hresult] at hwalk
      dsimp only
      refine ⟨⟨files, hresult⟩, fun hnone => absurd hnone (by rw [hp]; nofun),
        fun q hq hcycle => ?_, fun q hq _ => ?_⟩
      · obtain rfl := Option.some.inj (hp.symm.trans hq)
        exact absurd hcycle hwalk.of_ok.1
      · obtain rfl := Option.some.inj (hp.symm.trans hq)
        exact hreports

/-- **Names are resolved one by one.**  Where the patterns of their profiles can be expanded, a
selection of names has the files that the names have alone, in whatever order they are given, and
the reports that they have alone, in the order in which they are given; and a name that has no
profile or reaches a cycle is reported once and has no files.  What has been resolved before makes no
difference. -/
theorem resolveSelection_name_by_name {settings : Settings} (he : Reachable settings e) (h : Host)
    (cache : IgnoreCache) {names : List Text} (hnames : Selection.Clean names)
    (hexpand : ∀ n ∈ names, ∀ p, e.registry.get? n = some p →
      e.registry.Expandable (e.expansion h cache) p) :
    (∀ n ∈ names, e.SelectedAlone n (e.resolveSelection h cache (.ofNames [n]))) ∧
    (∃ files, (e.resolveSelection h cache (.ofNames names)).result = .ok files ∧
      (∀ f, f ∈ files ↔ ∃ n ∈ names, ∃ alone,
        (e.resolveSelection h cache (.ofNames [n])).result = .ok alone ∧ f ∈ alone) ∧
      ∀ names', names'.Perm names → ∃ files',
        (e.resolveSelection h cache (.ofNames names')).result = .ok files' ∧
          ∀ f, f ∈ files' ↔ f ∈ files) ∧
    (e.resolveSelection h cache (.ofNames names)).notes.diagnostics =
      names.flatMap (fun n => (e.resolveSelection h cache (.ofNames [n])).notes.diagnostics) ∧
    ∀ notes s, e.resolveSelection h (e.refreshed h cache notes) s =
      e.resolveSelection h cache s := by
  have hsingle : ∀ n ∈ names, e.resolveSelection h cache (.ofNames [n]) =
      e.resolveName (e.expansion h cache) n :=
    fun n hn => resolveSelection_singleton (hnames.singleton hn)
  have halone : ∀ n ∈ names, e.SelectedAlone n (e.resolveName (e.expansion h cache) n) :=
    fun n hn => selectedAlone_resolveName he.declared.keyed (hexpand n hn)
  have hfiles : ∀ names', names'.Perm names → ∃ files,
      (e.resolveSelection h cache (.ofNames names')).result = .ok files ∧
        ∀ f, f ∈ files ↔ ∃ n ∈ names', ∃ alone,
          (e.resolveName (e.expansion h cache) n).result = .ok alone ∧ f ∈ alone := by
    intro names' hperm
    obtain ⟨parts, hparts⟩ := exists_mapM_eq_ok fun n hn =>
      (halone n (hperm.subset hn)).exists_files
    refine ⟨parts.flatten, ?_, mem_flatten_of_mapM_eq_ok hparts⟩
    rw [resolveSelection_ofNames (hnames.perm hperm), Reported.result_bind, Reported.result_mapM,
      hparts]
    rfl
  refine ⟨fun n hn => hsingle n hn ▸ halone n hn, ?_, ?_, resolveSelection_refreshed e h cache⟩
  · obtain ⟨files, hresult, hmem⟩ := hfiles names (.refl names)
    refine ⟨files, hresult, fun f => ?_, fun names' hperm => ?_⟩
    · rw [hmem]
      refine exists_congr fun n => and_congr_right fun hn => ?_
      rw [hsingle n hn]
    · obtain ⟨files', hresult', hmem'⟩ := hfiles names' hperm
      refine ⟨files', hresult', fun f => ?_⟩
      rw [hmem, hmem']
      exact exists_congr fun n => and_congr_left fun _ => hperm.mem_iff
  · obtain ⟨parts, hparts⟩ := exists_mapM_eq_ok fun n hn => (halone n hn).exists_files
    rw [← Reported.result_mapM] at hparts
    rw [resolveSelection_ofNames hnames, Reported.diagnostics_bind_of_ok hparts,
      Reported.diagnostics_mapM fun n hn => (halone n hn).exists_files, Reported.notes_pure]
    refine (List.append_nil _).trans (List.flatMap_congr fun n hn => ?_)
    rw [hsingle n hn]

/-! ## A name without a profile, one on a cycle and one with a file -/

/-- A root with a file, in which two of three profiles inherit from each other. -/
def loopHost : Host where
  tree := .directory
    [("w".toList, .directory
      [(".conplug".toList,
          .file (Utf8.encode "x: y\x7ba\x7d\ny: x\x7b\x7d\nk: u\x7ba\x7d".toList) (.given 0)),
        ("a".toList, .file [] (.given 0))])]
  directory := []
  lost := 0
  home := ['/']
  users := []
  clock := 0

def loopSettings : Settings := .default ['/']

/-- An engine that has loaded the root. -/
def loopEngine : Engine := (Call.loadRoot "/w".toList).perform loopHost (.empty loopSettings)

theorem reachable_loopEngine : Reachable loopSettings loopEngine := .call loopHost _ .start

def loopProfile (name : Text) (parents includes : List Text) : Profile :=
  ⟨name, "/w".toList, parents, includes, []⟩

/-- The profiles that the root declares. -/
def loopRegistry : Registry :=
  ⟨[("/w".toList,
    [(['x'], loopProfile ['x'] [['y']] [['a']]), (['y'], loopProfile ['y'] [['x']] []),
      (['k'], loopProfile ['k'] [['u']] [['a']])])]⟩

theorem loopEngine_eq :
    loopEngine = ⟨loopSettings, loopRegistry, ["/w".toList], ["/w".toList]⟩ := by
  cbv

theorem expandable_loopEngine {n : Text} {p : Profile} (hp : loopEngine.registry.get? n = some p) :
    loopEngine.registry.Expandable (loopEngine.expansion loopHost .empty) p := by
  have hall : (loopEngine.registry.byRoot.all fun d => d.2.all fun f =>
      (loopEngine.expansion loopHost .empty f.2.includes f.2.root).result.isOk &&
        (loopEngine.expansion loopHost .empty f.2.excludes f.2.root).result.isOk) = true := by
    rw [loopEngine_eq]
    cbv
  have hlookup : loopEngine.registry.lookup n none = some p := hp
  have hkeyed := reachable_loopEngine.declared.keyed
  exact hkeyed.expandable_of_all hall (hkeyed.stored_of_lookup hlookup)

/-- The one name that has files has them between two that are reported. -/
theorem resolveSelection_loop :
    Reachable loopSettings loopEngine ∧ Selection.Clean [['u'], ['k'], ['x']] ∧
      (∀ n ∈ [['u'], ['k'], ['x']], ∀ p, loopEngine.registry.get? n = some p →
        loopEngine.registry.Expandable (loopEngine.expansion loopHost .empty) p) ∧
      (∃ files, (loopEngine.resolveSelection loopHost .empty
          (.ofNames [['u'], ['k'], ['x']])).result = .ok files ∧
        ∀ f, f ∈ files ↔ f = "/w/a".toList) ∧
      (loopEngine.resolveSelection loopHost .empty
          (.ofNames [['u'], ['k'], ['x']])).notes.diagnostics =
        [unknownProfile ['u'], Registry.unknownParent ['k'] ['u'],
          inheritanceCycle ['x'] [['x'], ['y'], ['x']]] := by
  have hclean : Selection.Clean [['u'], ['k'], ['x']] := ⟨by decide, by decide, by decide⟩
  have hexpand : ∀ n ∈ [['u'], ['k'], ['x']], ∀ p,
      loopEngine.registry.get? n = some p →
        loopEngine.registry.Expandable (loopEngine.expansion loopHost .empty) p :=
    fun n _ p hp => expandable_loopEngine hp
  obtain ⟨-, ⟨files, hfiles, hmem, -⟩, hdiagnostics, -⟩ :=
    resolveSelection_name_by_name reachable_loopEngine loopHost .empty hclean hexpand
  have hunknown : loopEngine.resolveSelection loopHost .empty (.ofNames [['u']]) =
      ⟨⟨[unknownProfile ['u']], []⟩, .ok []⟩ := by
    rw [loopEngine_eq]
    cbv
  have hfile : loopEngine.resolveSelection loopHost .empty (.ofNames [['k']]) =
      ⟨⟨[Registry.unknownParent ['k'] ['u']], ["/w".toList, "/w".toList]⟩,
        .ok ["/w/a".toList]⟩ := by
    rw [loopEngine_eq]
    cbv
  have hx : loopEngine.resolveSelection loopHost .empty (.ofNames [['x']]) =
      ⟨⟨[inheritanceCycle ['x'] [['x'], ['y'], ['x']]], []⟩, .ok []⟩ := by
    have hget : loopRegistry.get? ['x'] = some (loopProfile ['x'] [['y']] [['a']]) := by cbv
    rw [resolveSelection_singleton (hclean.singleton (by decide)), loopEngine_eq, resolveName, hget]
    have hresolve : ∀ expand, loopRegistry.resolve expand (loopProfile ['x'] [['y']] [['a']]) =
        .fail (.cycle [['x'], ['y'], ['x']]) := by
      intro expand
      cbv
    dsimp only
    rw [hresolve]
    rfl
  refine ⟨reachable_loopEngine, hclean, hexpand, ⟨files, hfiles, fun f => ?_⟩, ?_⟩
  · rw [hmem]
    simp [hunknown, hfile, hx]
  · rw [hdiagnostics]
    simp [hunknown, hfile, hx]

end Engine

end Bindery

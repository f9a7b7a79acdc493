import Bindery.Proofs.Engine.Resolving
import Bindery.Proofs.Search.Ignored

/-!
# Switching ignored files on and off

With a single root, the setting that includes ignored files is a filter on the files of a selection:
without it there are the files that there are with it, less those that the rules of the root ignore.
A profile takes away what its exclude patterns match before or after the filter, which makes no
difference, and parents are only united.

* `Registry.Filters`: one expansion is a filter on another.
* `Registry.resolve_eq_filter`: then so are the files of a profile.
* `Engine.resolveSelection_eq_filter`: the setting.
-/

namespace Bindery

/-! ## Profiles -/

namespace Registry

variable {r : Registry} {expand expand' : Expansion} {root : Text} {keep : Text → Bool}

/-- Below a root an expansion gives what another gives, less what is not to be kept. -/
def Filters (keep : Text → Bool) (root : Text) (expand expand' : Expansion) : Prop :=
  ∀ patterns, (expand' patterns root).result =
    (expand patterns root).result.map (List.filter keep)

/-- All profiles belong to one root. -/
def HasOnly (r : Registry) (root : Text) : Prop :=
  ∀ d ∈ r.byRoot, ∀ e ∈ d.2, e.2.root = root

instance (r : Registry) (root : Text) : Decidable (r.HasOnly root) :=
  inferInstanceAs (Decidable (∀ _ ∈ _, ∀ _ ∈ _, _))

theorem HasOnly.of_lookup (hr : r.HasOnly root) {name : Text} {prefer : Option Text} {p : Profile}
    (hp : r.lookup name prefer = some p) : p.root = root := by
  obtain ⟨d, hd, hmem⟩ := exists_of_lookup_eq_some hp
  exact hr d hd _ hmem

theorem result_ownFiles (expand : Expansion) (p : Profile) :
    (ownFiles expand p).result =
      (expand p.excludes p.root).result >>= fun excluded =>
        (expand p.includes p.root).result.map
          (List.filter fun f => !excluded.contains f) := by
  rw [ownFiles, Reported.result_bind]
  congr 1
  funext excluded
  rw [Reported.result_bind]
  cases (expand p.includes p.root).result <;> rfl

/-- What is not kept is neither to be taken nor to be taken away. -/
theorem ownFiles_eq_filter (h : Filters keep root expand expand') {p : Profile}
    (hp : p.root = root) :
    (ownFiles expand' p).result = (ownFiles expand p).result.map (List.filter keep) := by
  rw [result_ownFiles, result_ownFiles, hp, h, h]
  cases (expand p.excludes root).result with
  | error e => rfl
  | ok excluded =>
    cases (expand p.includes root).result with
    | error e => rfl
    | ok included =>
      change Except.ok ((included.filter keep).filter _) =
        .ok ((included.filter fun f => !excluded.contains f).filter keep)
      rw [List.filter_filter, List.filter_filter]
      refine congrArg Except.ok (List.filter_congr fun f _ => ?_)
      cases hkeep : keep f <;> simp [hkeep]

/-- A walk over parents filters each of them and the files of the profile itself. -/
theorem resolveFrom_eq_filter (h : Filters keep root expand expand') (hr : r.HasOnly root)
    (fuel : Nat) (chain : List (Text × Text)) {p : Profile} (hp : p.root = root) :
    (r.resolveFrom expand' fuel chain p).result =
      (r.resolveFrom expand fuel chain p).result.map (List.filter keep) := by
  induction fuel generalizing chain p with
  | zero => rfl
  | succ fuel ih =>
    by_cases hmem : p.key ∈ chain
    · rw [resolveFrom, resolveFrom, if_pos (by simpa using hmem), if_pos (by simpa using hmem)]
      rfl
    have hinherited : (p.parents.mapM (r.inheritFrom expand' fuel chain p)).map List.flatten =
        ((p.parents.mapM (r.inheritFrom expand fuel chain p)).map List.flatten).map
          (List.filter keep) := by
      refine flatten_mapM_eq_filter fun name _ => ?_
      rw [inheritFrom, inheritFrom]
      cases hq : r.lookup name (some p.root) with
      | none => rfl
      | some q => exact ih _ (hr.of_lookup hq)
    have hunited : ∀ (parts : Except Fault (List (List Text))) (own : Except Fault (List Text)),
        (parts >>= fun inherited => own >>= fun files => .ok (inherited.flatten ++ files)) =
          parts.map List.flatten >>= fun inherited => own.map (inherited ++ ·) := by
      intro parts own
      cases parts <;> cases own <;> rfl
    rw [result_resolveFrom_succ expand' fuel hmem, result_resolveFrom_succ expand fuel hmem,
      hunited, hunited, hinherited, ownFiles_eq_filter h hp]
    cases (p.parents.mapM (r.inheritFrom expand fuel chain p)).map List.flatten with
    | error e => rfl
    | ok inherited =>
      cases (ownFiles expand p).result with
      | error e => rfl
      | ok own => exact congrArg Except.ok (List.filter_append inherited own).symm

/-- **The files of a profile** are filtered where the files of patterns are. -/
theorem resolve_eq_filter (h : Filters keep root expand expand') (hr : r.HasOnly root) {p : Profile}
    (hp : p.root = root) :
    (r.resolve expand' p).result = (r.resolve expand p).result.map (List.filter keep) :=
  resolveFrom_eq_filter h hr (r.size + 2) [] hp

end Registry

/-! ## Selections -/

namespace Engine

variable {e : Engine} {h : Host} {cache : IgnoreCache} {root : Text}
  {rules : Option (List IgnoreRule)}

/-- The engine with the setting that includes ignored files. -/
def withIgnored (e : Engine) (included : Bool) : Engine :=
  { e with settings := { e.settings with includeIgnored := included } }

/-- All roots are one, and so are those that profiles belong to. -/
structure HasOnly (e : Engine) (root : Text) : Prop where
  roots : ∀ r ∈ e.roots, r = root
  registry : e.registry.HasOnly root

theorem result_reportCycle (name : Text) (x : Reported (List Text)) :
    (reportCycle name x).result =
      match x.result with
      | .error (.cycle _) => .ok []
      | result => result := by
  rw [reportCycle]
  cases hx : x.result with
  | ok files => exact hx
  | error f =>
    cases f with
    | cycle chain => rfl
    | _ => exact hx

/-- A cycle is reported in either case. -/
theorem reportCycle_eq_filter {keep : Text → Bool} {x x' : Reported (List Text)}
    (hx : x'.result = x.result.map (List.filter keep)) (name : Text) :
    (reportCycle name x').result = (reportCycle name x).result.map (List.filter keep) := by
  rw [result_reportCycle, result_reportCycle, hx]
  cases x.result with
  | error f => cases f <;> rfl
  | ok files => rfl

theorem resolveName_eq_filter {e' : Engine} {expand expand' : Expansion} {keep : Text → Bool}
    (hregistry : e'.registry = e.registry) (honly : e.registry.HasOnly root)
    (h : Registry.Filters keep root expand expand') (name : Text) :
    (e'.resolveName expand' name).result =
      (e.resolveName expand name).result.map (List.filter keep) := by
  rw [resolveName, resolveName, hregistry]
  cases hp : e.registry.get? name with
  | none => rfl
  | some p =>
    have hlookup : e.registry.lookup name none = some p := hp
    exact reportCycle_eq_filter
      (Registry.resolve_eq_filter h honly (honly.of_lookup hlookup)) name

/-- **Switching ignored files on and off.** With a single root, what is found without ignored files
is what is found with them, less the files inside the root that its rules ignore. -/
theorem resolveSelection_eq_filter (e : Engine) (cache : IgnoreCache) (s : Selection)
    (hnamed : h.IsNamed) (honly : e.HasOnly root) (hwhere : h.KnowsWhere root)
    (hrules : ((e.withIgnored false).matcher.rules h cache root).result = .ok rules) :
    ((e.withIgnored false).resolveSelection h cache s).result =
      ((e.withIgnored true).resolveSelection h cache s).result.map
        (List.filter fun f => !Matcher.ignoresInside h rules root f) := by
  have hall : (e.withIgnored true).matcher.includeIgnored = true := rfl
  cases s with
  | none => rfl
  | allFiles =>
    rw [result_resolveSelection_allFiles, result_resolveSelection_allFiles]
    refine flatten_mapM_eq_filter fun r hr => ?_
    rw [honly.roots r hr]
    exact Matcher.allFiles_eq_filter_ignored hnamed hwhere hrules hall e.settings.excludePatterns
  | profiles names =>
    rw [result_resolveSelection_profiles, result_resolveSelection_profiles]
    refine flatten_mapM_eq_filter fun name _ => ?_
    exact resolveName_eq_filter rfl honly.registry
      (fun patterns => Matcher.expand_eq_filter hnamed hwhere hrules hall patterns) name

/-! ## A root with an ignored directory -/

/-- A profile of one file, and one that inherits it and has all files but this one. -/
def layeredProfiles : Entries Profile :=
  [("base".toList, ⟨"base".toList, "/proj".toList, [], ["a.txt".toList], []⟩),
    ("top".toList, ⟨"top".toList, "/proj".toList, ["base".toList], ["/".toList],
      ["a.txt".toList]⟩)]

/-- An engine with these profiles. -/
def layeredEngine : Engine :=
  ⟨ignoringSettings, ⟨[("/proj".toList, layeredProfiles)]⟩, ["/proj".toList], ["/proj".toList]⟩

/-- The inherited file stays in either case, and what is ignored goes. -/
theorem resolveSelection_layered :
    ∃ rules, (ignoringHost "out/".toList).IsNamed ∧ layeredEngine.HasOnly "/proj".toList ∧
      ((layeredEngine.withIgnored false).matcher.rules (ignoringHost "out/".toList) .empty
        "/proj".toList).result = .ok rules ∧
      ((layeredEngine.withIgnored true).resolveSelection (ignoringHost "out/".toList) .empty
        (.profiles ["top".toList])).result =
          .ok ["/proj/a.txt".toList, "/proj/out/b.txt".toList] ∧
      ((layeredEngine.withIgnored false).resolveSelection (ignoringHost "out/".toList) .empty
        (.profiles ["top".toList])).result =
          .ok (["/proj/a.txt".toList, "/proj/out/b.txt".toList].filter fun f =>
            !Matcher.ignoresInside (ignoringHost "out/".toList) rules "/proj".toList f) ∧
      ((layeredEngine.withIgnored false).resolveSelection (ignoringHost "out/".toList) .empty
        (.profiles ["top".toList])).result = .ok ["/proj/a.txt".toList] := by
  have hnamed : (ignoringHost "out/".toList).IsNamed := ⟨by cbv⟩
  have honly : layeredEngine.HasOnly "/proj".toList := ⟨by decide, by decide⟩
  have hreadable : ((layeredEngine.withIgnored false).matcher.rules (ignoringHost "out/".toList)
      .empty "/proj".toList).result.isOk = true := by
    cbv
  obtain ⟨rules, hrules⟩ := exists_of_isOk hreadable
  have hfilter := resolveSelection_eq_filter layeredEngine .empty (.profiles ["top".toList])
    hnamed honly (Or.inl rfl) hrules
  have hall : ((layeredEngine.withIgnored true).resolveSelection (ignoringHost "out/".toList)
      .empty (.profiles ["top".toList])).result =
        .ok ["/proj/a.txt".toList, "/proj/out/b.txt".toList] := by
    cbv
  refine ⟨rules, hnamed, honly, hrules, hall, ?_, by cbv⟩
  rw [hfilter, hall]
  rfl

end Engine

end Bindery

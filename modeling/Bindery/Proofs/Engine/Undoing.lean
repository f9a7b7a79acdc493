import Bindery.Proofs.Engine.Consistency

/-!
# Loading again and taking a load back

A reload takes a way of its own, but where the profile file of the root is gone or can be read it
comes out where the two steps do that drop the root and load it.  They part over a file that is
there and cannot be read: a reload keeps the former profiles, which the two steps drop.  The load of
a new root is taken back by removing the root, whatever the load came to and whatever it shadowed.

* `Engine.reloadRoot_eq_loadRoot`: where the two ways meet; `Engine.reloadRoot_of_unreadable`: where
  they part.
* `Run.removeRoot_loadRoot`: after any run, the removal of a root that was new leaves the engine
  that was there before its load.
-/

namespace Bindery

/-! ## Roots in the registry -/

namespace Registry

variable {root : Text} {profiles : Entries Profile}

theorem replaceRoot_dropRoot (r : Registry) (root : Text) (profiles : Entries Profile) :
    (r.dropRoot root).replaceRoot root profiles = r.replaceRoot root profiles := by
  simp [dropRoot, replaceRoot, Entries.remove]

theorem dropRoot_replaceRoot (r : Registry) (root : Text) (profiles : Entries Profile) :
    (r.replaceRoot root profiles).dropRoot root = r.dropRoot root := by
  simp [dropRoot, replaceRoot, Entries.remove]

/-- There is nothing to drop of a root without an entry. -/
theorem dropRoot_of_notMem {r : Registry} (hroot : root ∉ r.byRoot.names) :
    r.dropRoot root = r := by
  have hkeep : r.byRoot.remove root = r.byRoot := by
    rw [Entries.remove, List.filter_eq_self]
    intro d hd
    have hne : d.1 ≠ root := fun heq => hroot (heq ▸ List.mem_map_of_mem hd)
    exact bne_iff_ne.2 hne
  rw [dropRoot, hkeep]

end Registry

/-- A profile file that is gone or can be read, and so tells which profiles its root has. -/
def Config.Tells (c : Config) : Prop :=
  c = .missing ∨ ∃ content, c = .text content

namespace Engine

variable {e : Engine} {h : Host} {path root : Text}

/-! ## A reload as two steps -/

/-- Whether a root is listed before or after its profiles are dropped is the same. -/
theorem addNormal_invalidateNormal (e : Engine) (root : Text) :
    (e.invalidateNormal root).addNormal root = (e.addNormal root).invalidateNormal root := by
  unfold addNormal invalidateNormal
  dsimp only
  split <;> rfl

theorem invalidateNormal_reopenNormal (e : Engine) (root : Text) :
    (e.reopenNormal root).invalidateNormal root = e.invalidateNormal root := by
  simp [reopenNormal, invalidateNormal]

/-- What is accepted for a root takes the place of what was dropped. -/
theorem accept_invalidateNormal (e : Engine) (root : Text) (profiles : Entries Profile) :
    (e.invalidateNormal root).accept root profiles =
      (e.reopenNormal root).accept root profiles := by
  simp [reopenNormal, invalidateNormal, accept, Registry.replaceRoot_dropRoot]

/-- What a load does of a root that was just dropped. -/
theorem loadRoot_invalidateNormal (hnormal : Roots.normalize h path = .ok root) :
    (e.invalidateNormal root).loadRoot h path =
      let dropped := (e.addNormal root).invalidateNormal root
      match Config.find e.settings h root with
      | .missing => (dropped, .ok false)
      | .text content => (dropped.accept root (Profile.readText root content), .ok true)
      | .unreadable f => (dropped, ⟨⟨[parseFailure (e.configPath root) f], []⟩, .ok false⟩)
      | .fault f => (dropped, .fail f) := by
  have hunloaded : ((e.addNormal root).invalidateNormal root).loaded.contains root = false := by
    simp [invalidateNormal]
  have hsettings : ((e.addNormal root).invalidateNormal root).settings = e.settings :=
    settings_addNormal e root
  rw [loadRoot, hnormal]
  dsimp only
  rw [addNormal_invalidateNormal, loadNormal_eq, hunloaded, hsettings, configPath, configPath,
    hsettings]
  rfl

/-- A profile file that cannot be read is reported by both ways alike, but only the reload keeps the
profiles that the root had. -/
theorem reloadRoot_of_unreadable {f : Fault} (hnormal : Roots.normalize h path = .ok root)
    (hfix : Roots.normalize h root = .ok root)
    (hfind : Config.find e.settings h root = .unreadable f) :
    (e.reloadRoot h path).2 = ((e.invalidateNormal root).loadRoot h path).2 ∧
      (e.reloadRoot h path).1.registry = e.registry ∧
      ((e.invalidateNormal root).loadRoot h path).1.registry = e.registry.dropRoot root := by
  rw [loadRoot_invalidateNormal hnormal, reloadRoot_eq hnormal hfix, hfind]
  refine ⟨rfl, registry_addNormal e root, ?_⟩
  exact congrArg (Registry.dropRoot · root) (registry_addNormal e root)

/-- **A reload is a drop and a load**: of a root whose normal form is its own normal form and whose
profile file is gone or can be read, a reload leaves the engine that is left when the root is
invalidated and then loaded, and gives the same answer; neither is cut short or has anything to
report. -/
theorem reloadRoot_eq_loadRoot (hnormal : Roots.normalize h path = .ok root)
    (hfix : Roots.normalize h root = .ok root) (hconfig : (Config.find e.settings h root).Tells) :
    ∃ dropped found, e.invalidateRoot h path = .ok dropped ∧
      e.reloadRoot h path = dropped.loadRoot h path ∧ (e.reloadRoot h path).2 = .ok found := by
  have hinvalidate : e.invalidateRoot h path = .ok (e.invalidateNormal root) := by
    rw [invalidateRoot, hnormal]
    rfl
  rw [reloadRoot_eq hnormal hfix]
  rcases hconfig with hfind | ⟨content, hfind⟩
  · refine ⟨e.invalidateNormal root, false, hinvalidate, ?_, by rw [hfind]⟩
    rw [loadRoot_invalidateNormal hnormal, hfind]
    dsimp only
    rw [invalidateNormal_reopenNormal]
  · refine ⟨e.invalidateNormal root, true, hinvalidate, ?_, by rw [hfind]⟩
    rw [loadRoot_invalidateNormal hnormal, hfind]
    dsimp only
    rw [accept_invalidateNormal]

end Engine

namespace Run

open Engine

variable {settings : Settings} {e : Engine} {hist : History}

/-- By name the profile is found that the texts of a history declare. -/
theorem get?_of_current (hrun : Run settings e hist) {name : Text} {p : Profile}
    (hp : hist.current.findSome? (fun c => (Profile.readText c.1 c.2).get? name) = some p) :
    e.registry.get? name = some p := by
  rw [hrun.follows.registry_eq, History.get?_registry_iff]
  exact (History.findSome?_current_iff _ p).1 hp

/-- Of two roots the one that was taken for loaded no longer, and kept the profile of its former
text, is loaded again: it comes last, so that its profile is found. -/
theorem reloadRoot_pair : ∃ e dropped found, Run pairSettings e pairHistory ∧
    e.invalidateRoot pairBefore "/a".toList = .ok dropped ∧
    e.reloadRoot pairBefore "/a".toList = dropped.loadRoot pairBefore "/a".toList ∧
    (e.reloadRoot pairBefore "/a".toList).2 = .ok found ∧
    (e.reloadRoot pairBefore "/a".toList).1.registry.get? ['p'] =
      some ⟨['p'], "/a".toList, [], [['x']], []⟩ := by
  obtain ⟨e, hrun⟩ := run_pair
  have hnormal : Roots.normalize pairBefore "/a".toList = .ok "/a".toList := by cbv
  have hfind : Config.find pairSettings pairBefore "/a".toList =
      .text "p\x7bx\x7d".toList := by cbv
  have hreloaded := hrun.call pairBefore (.reloadRoot "/a".toList) fun path hpath =>
    List.mem_singleton.1 hpath ▸ Roots.fixes_of_normalize_eq hnormal
  rw [Call.record, History.onRoot, hnormal] at hreloaded
  dsimp only at hreloaded
  rw [Call.reloadEvents, hfind] at hreloaded
  have hconfig : (Config.find e.settings pairBefore "/a".toList).Tells := by
    rw [hrun.follows.settings_eq]
    exact Or.inr ⟨_, hfind⟩
  obtain ⟨dropped, found, hdropped, hsame, hfound⟩ := reloadRoot_eq_loadRoot hnormal hnormal hconfig
  refine ⟨e, dropped, found, hrun, hdropped, hsame, hfound, ?_⟩
  exact get?_of_current hreloaded (by cbv)

end Run

/-! ## A load taken back -/

namespace Engine

variable {e : Engine} {h : Host} {path root : Text}

/-- A removal forgets the profiles of the root, its mark and its place. -/
theorem removeRoot_eq (hnormal : Roots.normalize h path = .ok root)
    (hfix : Roots.normalize h root = .ok root) :
    e.removeRoot h path = .ok { e.invalidateNormal root with roots := e.roots.erase root } := by
  rw [removeRoot, hnormal]
  dsimp only
  rw [invalidateRoot, hfix]
  rfl

/-- Of a root that was neither listed nor loaded nor had an entry, nothing is left to drop. -/
theorem invalidateNormal_of_notMem (hloaded : root ∉ e.loaded)
    (hread : root ∉ e.registry.byRoot.names) : e.invalidateNormal root = e := by
  have hkeep : e.loaded.filter (· != root) = e.loaded := by
    rw [List.filter_eq_self]
    intro r hr
    have hne : r ≠ root := fun heq => hloaded (heq ▸ hr)
    exact bne_iff_ne.2 hne
  rw [invalidateNormal, hkeep, Registry.dropRoot_of_notMem hread]

theorem addNormal_eq (e : Engine) (root : Text) :
    e.addNormal root = { e with roots := (e.addNormal root).roots } := by
  unfold addNormal
  split <;> rfl

theorem erase_roots_addNormal (hroot : root ∉ e.roots) :
    (e.addNormal root).roots.erase root = e.roots := by
  have hnew : ¬ e.roots.contains root = true := fun hmem => hroot (List.contains_iff_mem.1 hmem)
  rw [addNormal, if_neg hnew, List.erase_append_right _ hroot, List.erase_cons_head,
    List.append_nil]

/-- What is accepted for a root is dropped with it. -/
theorem invalidateNormal_accept (e : Engine) (root : Text) (profiles : Entries Profile) :
    (e.accept root profiles).invalidateNormal root = e.invalidateNormal root := by
  simp [accept, invalidateNormal, Registry.dropRoot_replaceRoot]

end Engine

namespace Run

open Engine

variable {settings : Settings} {e : Engine} {hist : History}

/-- **The load of a new root can be taken back**: after any run, when a root that is not listed is
loaded, with whatever result, and then removed, the engine is the one from before the load. -/
theorem removeRoot_loadRoot {h : Host} {path root : Text} (hrun : Run settings e hist)
    (hnormal : Roots.normalize h path = .ok root) (hfix : Roots.normalize h root = .ok root)
    (hnew : root ∉ e.roots) :
    (e.loadRoot h path).1.removeRoot h path = .ok e := by
  have hread : root ∉ e.registry.byRoot.names := fun hmem =>
    hnew (hrun.keeps_consistent.read_listed root hmem)
  have hloaded : root ∉ e.loaded := fun hmem =>
    hread (hrun.keeps_consistent.loaded_read root hmem)
  have hlisted : { (e.addNormal root).invalidateNormal root with
      roots := (e.addNormal root).roots.erase root } = e := by
    rw [← addNormal_invalidateNormal, invalidateNormal_of_notMem hloaded hread,
      addNormal_eq, erase_roots_addNormal hnew]
  -- Whatever the load came to, what it accepted is dropped, and its root was listed last.
  rw [removeRoot_eq hnormal hfix]
  rcases loadRoot_cases e h path with
    ⟨f, hfault, -⟩ | ⟨normal, hroot, ⟨r, -, -, heq⟩ | ⟨content, -, -, heq⟩⟩
  · rw [hnormal] at hfault
    cases hfault
  · obtain rfl := Except.ok.inj (hnormal.symm.trans hroot)
    rw [heq]
    exact congrArg Except.ok hlisted
  · obtain rfl := Except.ok.inj (hnormal.symm.trans hroot)
    rw [heq, invalidateNormal_accept]
    exact congrArg Except.ok hlisted

/-- Beside two roots there is a third, which declares the same name. -/
def trioHost : Host where
  __ := pairBefore
  tree := .directory
    [("b".toList, .directory
        [(".conplug".toList, .file "p\x7by\x7d".toUTF8.toList (.given 0))]),
      ("c".toList, .directory
        [(".conplug".toList, .file "p\x7bz\x7d".toUTF8.toList (.given 0))])]

/-- The profile of the third root is found while that is loaded, and the former one after its
removal. -/
theorem removeRoot_loadRoot_trio : ∃ e, Run pairSettings e pairHistory ∧
    e.registry.get? ['p'] = some ⟨['p'], "/b".toList, [], [['y']], []⟩ ∧
    (e.loadRoot trioHost "/c".toList).1.registry.get? ['p'] =
      some ⟨['p'], "/c".toList, [], [['z']], []⟩ ∧
    (e.loadRoot trioHost "/c".toList).1.removeRoot trioHost "/c".toList = .ok e := by
  obtain ⟨e, hrun⟩ := run_pair
  have hnormal : Roots.normalize trioHost "/c".toList = .ok "/c".toList := by cbv
  have hloaded := hrun.call trioHost (.loadRoot "/c".toList) fun path hpath =>
    List.mem_singleton.1 hpath ▸ Roots.fixes_of_normalize_eq hnormal
  have hevents : Call.record pairSettings trioHost pairHistory (.loadRoot "/c".toList) =
      [.parsed "/c".toList "p\x7bz\x7d".toList, .added "/c".toList] ++ pairHistory := by cbv
  rw [hevents] at hloaded
  have hnew : "/c".toList ∉ e.roots := by
    rw [hrun.follows.roots_eq]
    decide
  refine ⟨e, hrun, ?_, ?_, removeRoot_loadRoot hrun hnormal hnormal hnew⟩
  · exact get?_of_current hrun (by cbv)
  · exact get?_of_current hloaded (by cbv)

end Run

end Bindery

import Bindery.Proofs.Engine.Rooted
import Bindery.Proofs.Engine.Runs
import Bindery.Proofs.Outcome
import Bindery.Proofs.Profile.Declared

/-!
# Roots, loaded roots and profiles in step

An engine keeps three collections: the roots that are listed, those that are loaded, and the
profiles of each.  They are kept in step by every call: what is loaded has profiles, what has
profiles is listed, and the profiles of a root are those that some text declared for it.  Only the
removal of a root needs to know more.  It takes a normal form from the list and drops the profiles
of the normal form of that, so the two have to be the same.

* `Engine.Reachable.declared`: the profiles of an engine are those of texts.
* `Engine.Consistent` is what the calls keep.
* `Run.consistent`: it holds after every run.
-/

namespace Bindery

namespace Engine

theorem Kept.declared (h : Host) : Kept h fun e => e.registry.Declared where
  add _ he := by rwa [registry_addNormal]
  accept content _ _ he := he.replaceRoot _ content
  reopen _ he := he
  drop root he := he.dropRoot root

/-- Whatever normal forms are, the profiles of an engine are those of texts. -/
theorem Reachable.declared {settings : Settings} {e : Engine} (he : Reachable settings e) :
    e.registry.Declared := by
  induction he with
  | start => exact .empty
  | call h c _ ih => exact (Kept.declared h).perform ih c fun _ _ normal _ _ _ => ih.dropRoot normal

/-- Loaded roots have profiles, roots with profiles are listed once, and profiles are those of a
text. -/
structure Consistent (e : Engine) : Prop where
  roots_nodup : e.roots.Nodup
  loaded_read : ∀ root ∈ e.loaded, root ∈ e.registry.byRoot.names
  read_listed : ∀ root ∈ e.registry.byRoot.names, root ∈ e.roots
  declared : e.registry.Declared

namespace Consistent

variable {e : Engine} {root : Text}

theorem empty (settings : Settings) : (Engine.empty settings).Consistent where
  roots_nodup := List.nodup_nil
  loaded_read _ hr := absurd hr List.not_mem_nil
  read_listed _ hr := absurd hr List.not_mem_nil
  declared := .empty

theorem addNormal (he : e.Consistent) (root : Text) : (e.addNormal root).Consistent where
  roots_nodup := by
    unfold Engine.addNormal
    split
    · exact he.roots_nodup
    · next hroot =>
      have hnew : root ∉ e.roots := fun hmem => hroot (List.contains_iff_mem.2 hmem)
      exact he.roots_nodup.append (List.nodup_singleton root) (List.disjoint_singleton.2 hnew)
  loaded_read := by
    rw [loaded_addNormal, registry_addNormal]
    exact he.loaded_read
  read_listed r hr := by
    rw [registry_addNormal] at hr
    have hlisted := he.read_listed r hr
    unfold Engine.addNormal
    split
    · exact hlisted
    · exact List.mem_append_left [root] hlisted
  declared := by
    rw [registry_addNormal]
    exact he.declared

/-- A listed root that is read becomes loaded and gets an entry at once. -/
theorem accept (he : e.Consistent) (hroot : root ∈ e.roots) (text : Text) :
    (e.accept root (Profile.readText root text)).Consistent := by
  have hnames : (e.registry.replaceRoot root (Profile.readText root text)).byRoot.names =
      (e.registry.byRoot.remove root).names ++ [root] := by
    rw [Registry.replaceRoot, Entries.names, List.map_append]
    rfl
  refine ⟨he.roots_nodup, fun r hr => ?_, fun r hr => ?_, he.declared.replaceRoot root text⟩
  · rw [Engine.accept, hnames, List.mem_append, List.mem_singleton, Entries.mem_names_remove_iff]
    by_cases heq : r = root
    · exact Or.inr heq
    · rcases List.mem_append.1 hr with hr | hr
      · exact Or.inl ⟨heq, he.loaded_read r hr⟩
      · exact absurd (List.mem_singleton.1 hr) heq
  · rw [Engine.accept, hnames, List.mem_append, List.mem_singleton,
      Entries.mem_names_remove_iff] at hr
    rcases hr with ⟨-, hr⟩ | rfl
    · exact he.read_listed r hr
    · exact hroot

/-- A root that is not taken for loaded may keep its profiles. -/
theorem reopenNormal (he : e.Consistent) (root : Text) : (e.reopenNormal root).Consistent :=
  ⟨he.roots_nodup, fun r hr => he.loaded_read r (List.mem_of_mem_filter hr), he.read_listed,
    he.declared⟩

/-- A root without profiles is not taken for loaded. -/
theorem invalidateNormal (he : e.Consistent) (root : Text) :
    (e.invalidateNormal root).Consistent where
  roots_nodup := he.roots_nodup
  loaded_read r hr := by
    obtain ⟨hloaded, hne⟩ := List.mem_filter.1 hr
    exact Entries.mem_names_remove_iff.2 ⟨bne_iff_ne.1 hne, he.loaded_read r hloaded⟩
  read_listed r hr := he.read_listed r (Entries.mem_names_remove_iff.1 hr).2
  declared := he.declared.dropRoot root

/-- A root whose profiles are dropped can be taken from the list. -/
theorem removed (he : e.Consistent) (root : Text) :
    { e.invalidateNormal root with roots := e.roots.erase root }.Consistent where
  roots_nodup := he.roots_nodup.erase root
  loaded_read := (he.invalidateNormal root).loaded_read
  read_listed r hr :=
    (List.mem_erase_of_ne (Entries.mem_names_remove_iff.1 hr).1).2
      ((he.invalidateNormal root).read_listed r hr)
  declared := (he.invalidateNormal root).declared

theorem kept (h : Host) : Kept h Consistent where
  add _ he := he.addNormal _
  accept content _ hlisted he := he.accept hlisted content
  reopen root he := he.reopenNormal root
  drop root he := he.invalidateNormal root

/-- The step of a run. -/
theorem perform (he : e.Consistent) (h : Host) (c : Call)
    (hfix : ∀ path ∈ c.paths e.roots, Roots.Fixes h path) : (c.perform h e).Consistent := by
  refine (kept h).perform he c fun path root normal hc hroot hnormal => ?_
  have hpath : path ∈ c.paths e.roots := by
    rw [hc]
    exact List.mem_singleton.2 rfl
  rw [hfix path hpath root hroot] at hnormal
  exact Except.ok.inj hnormal ▸ he.removed root

end Consistent

end Engine

namespace Run

variable {settings : Settings} {e : Engine} {hist : History}

theorem keeps_consistent (hrun : Run settings e hist) : e.Consistent := by
  induction hrun with
  | start => exact .empty settings
  | call h c _ hfix ih => exact ih.perform h c hfix

/-- An engine that is made with roots has gone through a run. -/
theorem ofRoots {h : Host} {paths : List Text} (hfix : ∀ path ∈ paths, Roots.Fixes h path)
    (he : Engine.ofRoots settings h paths = .ok e) : ∃ hist, Run settings e hist := by
  suffices ∀ (e₀ : Engine) (hist : History), Run settings e₀ hist → e₀.addRoots h paths = .ok e →
      ∃ hist, Run settings e hist from this _ [] .start he
  clear he
  induction paths with
  | nil =>
    intro e₀ hist hrun hadded
    exact ⟨hist, Except.ok.inj hadded ▸ hrun⟩
  | cons path paths ih =>
    intro e₀ hist hrun hadded
    rw [Engine.addRoots, List.foldlM_cons, bind_eq_ok_iff] at hadded
    obtain ⟨next, hnext, hrest⟩ := hadded
    have hcall := hrun.call h (.addRoot path) fun p hp => by
      rw [List.mem_singleton.1 hp]
      exact hfix path List.mem_cons_self
    rw [Call.perform, hnext] at hcall
    exact ih (fun p hp => hfix p (List.mem_cons_of_mem path hp)) next _ hcall hrest

/-- **Roots, loaded roots and profiles are in step after every run**: no root is listed twice, each
loaded root has an entry for its profiles, each root with an entry is listed, and a profile in the
entry of a root belongs to the root, stands under its own name and is not its own parent. -/
theorem consistent (hrun : Run settings e hist) :
    e.roots.Nodup ∧ (∀ root ∈ e.loaded, root ∈ e.registry.byRoot.names) ∧
      (∀ root ∈ e.registry.byRoot.names, root ∈ e.roots) ∧
      ∀ d ∈ e.registry.byRoot, ∀ f ∈ d.2,
        f.2.root = d.1 ∧ f.2.name = f.1 ∧ f.2.name ∉ f.2.parents := by
  have he := hrun.keeps_consistent
  refine ⟨he.roots_nodup, he.loaded_read, he.read_listed, fun d hd f hf => ?_⟩
  obtain ⟨hroot, hname⟩ := Prod.mk.inj (he.declared.keyed.key_eq d hd f hf)
  exact ⟨hroot, hname, he.declared.notMem_parents hd hf⟩

/-- Of two loaded roots the second is removed, and nothing of it is left. -/
theorem consistent_pair_removed : ∃ e hist, Run pairSettings e hist ∧
    "/b".toList ∉ e.registry.byRoot.names ∧ e.roots = ["/a".toList] ∧ e.roots.Nodup ∧
      (∀ root ∈ e.loaded, root ∈ e.registry.byRoot.names) ∧
      (∀ root ∈ e.registry.byRoot.names, root ∈ e.roots) ∧
      ∀ d ∈ e.registry.byRoot, ∀ f ∈ d.2,
        f.2.root = d.1 ∧ f.2.name = f.1 ∧ f.2.name ∉ f.2.parents := by
  obtain ⟨e, hrun⟩ := run_pair
  have hnormal : Roots.normalize pairAfter "/b".toList = .ok "/b".toList := by cbv
  have hremoved := hrun.call pairAfter (.removeRoot "/b".toList) fun path hpath =>
    List.mem_singleton.1 hpath ▸ Roots.fixes_of_normalize_eq hnormal
  have hroots := hremoved.follows.roots_eq
  rw [Call.record, History.onRoot, hnormal] at hroots
  have hevents : History.roots ([.removed "/b".toList, .dropped "/b".toList] ++ pairHistory) =
      ["/a".toList] := by cbv
  have hconsistent := consistent hremoved
  refine ⟨_, _, hremoved, fun hmem => ?_, hroots.trans hevents, hconsistent⟩
  have hlisted := hconsistent.2.2.1 _ hmem
  rw [hroots.trans hevents] at hlisted
  exact absurd (List.mem_singleton.1 hlisted) (by decide)

end Run

end Bindery

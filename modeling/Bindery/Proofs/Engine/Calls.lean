import Bindery.Proofs.Engine.Loading
import Bindery.Proofs.Outcome

/-!
# What calls are made of

Whatever the files are, a call takes an engine through a few kinds of steps: a root is listed in a
normal form, the profiles in a text become those of a listed root, a root is no longer taken for
loaded, and the profiles of a root are dropped.  Only the removal of a root does more, it takes the
root from the list.  So a property that these steps keep is kept by every call.

* `Engine.Kept`: a property that the steps keep.
* `Engine.Kept.perform`: then every call keeps it, if removals do.
-/

namespace Bindery

/-- A text is the normal form of some path. -/
def Roots.IsNormalForm (h : Host) (root : Text) : Prop :=
  ∃ path, normalize h path = .ok root

namespace Engine

/-- A property of engines that stays through the steps of all calls. -/
structure Kept (h : Host) (motive : Engine → Prop) : Prop where
  add : ∀ {e root}, Roots.IsNormalForm h root → motive e → motive (e.addNormal root)
  accept : ∀ {e root} (content : Text), Roots.IsNormalForm h root → root ∈ e.roots → motive e →
    motive (e.accept root (Profile.readText root content))
  reopen : ∀ {e} (root : Text), motive e → motive (e.reopenNormal root)
  drop : ∀ {e} (root : Text), motive e → motive (e.invalidateNormal root)

namespace Kept

variable {h : Host} {motive : Engine → Prop} {e : Engine}

theorem loadRoot (hkept : Kept h motive) (he : motive e) (path : Text) :
    motive (e.loadRoot h path).1 := by
  rcases loadRoot_cases e h path with
    ⟨f, -, heq⟩ | ⟨root, hroot, ⟨r, -, -, heq⟩ | ⟨content, -, -, heq⟩⟩
  · rw [heq]
    exact he
  · rw [heq]
    exact hkept.add ⟨path, hroot⟩ he
  · rw [heq]
    exact hkept.accept content ⟨path, hroot⟩ (mem_roots_addNormal e root)
      (hkept.add ⟨path, hroot⟩ he)

/-- A load of several roots is a load of one after the other. -/
theorem loadFrom (hkept : Kept h motive) (he : motive e) (fuel position : Nat) (found : Bool) :
    motive (e.loadFrom h fuel position found).1 := by
  induction fuel generalizing e position found with
  | zero =>
    rw [Engine.loadFrom]
    exact he
  | succ fuel ih =>
    rw [Engine.loadFrom.eq_def]
    cases e.roots[position]? with
    | none => exact he
    | some root =>
      have hnext := hkept.loadRoot he root
      dsimp only
      split
      · exact hnext
      · exact ih hnext _ _

theorem addRoot (hkept : Kept h motive) (he : motive e) {path root : Text} {next : Engine}
    (hnext : e.addRoot h path = .ok (next, root)) : motive next := by
  rw [Engine.addRoot] at hnext
  cases hnormal : Roots.normalize h path with
  | error f =>
    rw [hnormal] at hnext
    cases hnext
  | ok normal =>
    rw [hnormal] at hnext
    obtain ⟨rfl, -⟩ := Prod.mk.inj (Except.ok.inj hnext)
    exact hkept.add ⟨path, hnormal⟩ he

theorem addRoots (hkept : Kept h motive) (he : motive e) {paths : List Text} {next : Engine}
    (hnext : e.addRoots h paths = .ok next) : motive next := by
  induction paths generalizing e with
  | nil => exact Except.ok.inj hnext ▸ he
  | cons path paths ih =>
    rw [Engine.addRoots, List.foldlM_cons, bind_eq_ok_iff] at hnext
    obtain ⟨first, hfirst, hrest⟩ := hnext
    obtain ⟨⟨added, root⟩, hadded, rfl⟩ := map_eq_ok_iff.1 hfirst
    exact ih (hkept.addRoot he hadded) hrest

theorem invalidateRoot (hkept : Kept h motive) (he : motive e) {path : Text} {next : Engine}
    (hnext : e.invalidateRoot h path = .ok next) : motive next := by
  rw [Engine.invalidateRoot] at hnext
  cases hroot : Roots.normalize h path with
  | error f =>
    rw [hroot] at hnext
    cases hnext
  | ok root =>
    rw [hroot] at hnext
    exact Except.ok.inj hnext ▸ hkept.drop root he

theorem reloadRoot (hkept : Kept h motive) (he : motive e) (path : Text) :
    motive (e.reloadRoot h path).1 := by
  rw [Engine.reloadRoot]
  split
  · exact he
  · next root hroot =>
    have hunmarked := hkept.reopen root (hkept.add ⟨path, hroot⟩ he)
    dsimp only
    split
    · exact hunmarked
    · exact hkept.loadRoot hunmarked root
    · split
      · exact hunmarked
      · next dropped hdropped => exact hkept.invalidateRoot hunmarked hdropped

/-- A call keeps what its steps keep.  A removal drops the profiles of the normal form of the root,
and takes the root itself from the list. -/
theorem perform (hkept : Kept h motive) (he : motive e) (c : Call)
    (hremove : ∀ path root normal, c = .removeRoot path → Roots.normalize h path = .ok root →
      Roots.normalize h root = .ok normal →
      motive { e.invalidateNormal normal with roots := e.roots.erase root }) :
    motive (c.perform h e) := by
  cases c with
  | addRoot path =>
    rw [Call.perform]
    cases hadd : e.addRoot h path with
    | error f => exact he
    | ok next => exact hkept.addRoot he hadd
  | removeRoot path =>
    rw [Call.perform, removeRoot]
    cases hroot : Roots.normalize h path with
    | error f => exact he
    | ok root =>
      dsimp only
      rw [Engine.invalidateRoot]
      cases hnormal : Roots.normalize h root with
      | error f => exact he
      | ok normal => exact hremove path root normal rfl hroot hnormal
  | loadRoot path => exact hkept.loadRoot he path
  | loadAll => exact hkept.loadFrom he _ 0 false
  | invalidateRoot path =>
    rw [Call.perform]
    cases hdropped : e.invalidateRoot h path with
    | error f => exact he
    | ok dropped => exact hkept.invalidateRoot he hdropped
  | reloadRoot path => exact hkept.reloadRoot he path

end Kept

end Engine

end Bindery

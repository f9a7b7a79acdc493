import Bindery.Proofs.Profile.Keyed
import Bindery.Proofs.Profile.WellFormed

/-!
# Registries of what files declare

Every profile that a text declares is well formed: its name has no blanks at its ends, and it is not
its own parent.

The profiles of a root come from one text as a whole.  A registry of which this is true, and where
no root comes twice, is keyed, and stays so when roots are replaced and dropped.

* `Registry.Declared`: every root has the profiles of some text.
-/

namespace Bindery

/-! ## Profiles of a text -/

namespace Profile

/-- No profile that a text declares is its own parent. -/
theorem notMem_parents_of_readText {root text : Text} {f : Text × Profile}
    (hf : f ∈ readText root text) : f.2.name ∉ f.2.parents :=
  fun hmem => ((wellFormed_of_mem_readText hf).parents _ hmem).2.2.2 rfl

/-- The names that a text declares have no blanks at their ends. -/
theorem trim_name_of_readText {root text : Text} {f : Text × Profile}
    (hf : f ∈ readText root text) : Text.trim f.1 = f.1 := by
  have hname : f.2.name = f.1 := congrArg Prod.snd ((sound_readText root text).2 f hf)
  rw [← hname]
  exact (wellFormed_of_mem_readText hf).name.trimmed

end Profile

/-! ## Registries -/

namespace Registry

/-- No root comes twice, and the profiles of each are those of some text. -/
structure Declared (r : Registry) : Prop where
  roots_nodup : r.byRoot.names.Nodup
  read : ∀ d ∈ r.byRoot, ∃ text, d.2 = Profile.readText d.1 text

namespace Declared

variable {r : Registry}

theorem empty : Registry.empty.Declared :=
  ⟨List.nodup_nil, fun _ hd => absurd hd List.not_mem_nil⟩

theorem dropRoot (hr : r.Declared) (root : Text) : (r.dropRoot root).Declared :=
  ⟨Entries.nodup_names_remove hr.roots_nodup root,
    fun d hd => hr.read d (List.mem_of_mem_filter hd)⟩

/-- A load gives a root the profiles of a text. -/
theorem replaceRoot (hr : r.Declared) (root text : Text) :
    (r.replaceRoot root (Profile.readText root text)).Declared where
  roots_nodup := by
    have hnew : root ∉ (r.byRoot.remove root).names := fun hroot =>
      (Entries.mem_names_remove_iff.1 hroot).1 rfl
    rw [Registry.replaceRoot, Entries.names, List.map_append, List.map_singleton]
    refine (hr.dropRoot root).roots_nodup.append (List.nodup_singleton root) ?_
    exact List.disjoint_singleton.2 hnew
  read d hd := by
    rcases List.mem_append.1 hd with hd | hd
    · exact (hr.dropRoot root).read d hd
    · exact ⟨text, List.mem_singleton.1 hd ▸ rfl⟩

/-- What texts declare is keyed by itself. -/
theorem keyed (hr : r.Declared) : r.Keyed where
  roots_nodup := hr.roots_nodup
  names_nodup d hd := by
    obtain ⟨text, htext⟩ := hr.read d hd
    rw [htext]
    exact (Profile.sound_readText d.1 text).1
  key_eq d hd := by
    obtain ⟨text, htext⟩ := hr.read d hd
    rw [htext]
    exact (Profile.sound_readText d.1 text).2

theorem notMem_parents (hr : r.Declared) {d : Text × Entries Profile} (hd : d ∈ r.byRoot)
    {f : Text × Profile} (hf : f ∈ d.2) : f.2.name ∉ f.2.parents := by
  obtain ⟨text, htext⟩ := hr.read d hd
  exact Profile.notMem_parents_of_readText (htext ▸ hf)

/-- A name that is found has no blanks at its ends. -/
theorem trim_of_get? (hr : r.Declared) {name : Text} {p : Profile} (hp : r.get? name = some p) :
    Text.trim name = name := by
  obtain ⟨d, hd, hf⟩ := exists_of_mem_live (Entries.mem_of_get?_eq_some hp)
  obtain ⟨text, htext⟩ := hr.read d hd
  exact Profile.trim_name_of_readText (htext ▸ hf)

end Declared

end Registry

end Bindery

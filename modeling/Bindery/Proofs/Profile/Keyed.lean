import Bindery.Profile.Registry
import Bindery.Proofs.Entries
import Mathlib.Data.List.Nodup

/-!
# Registries under their own keys

A registry is keyed if no root and no name of a root comes twice, and each profile stands under its
own root and name.  Loading and dropping roots keep it so.  In a keyed registry every look-up gives
a stored profile, a key determines its profile, and there are no more keys than profiles.
-/

namespace Bindery.Registry

/-- Each profile stands under its own root and name, and under no other. -/
structure Keyed (r : Registry) : Prop where
  roots_nodup : r.byRoot.names.Nodup
  names_nodup : ∀ e ∈ r.byRoot, e.2.names.Nodup
  key_eq : ∀ e ∈ r.byRoot, ∀ f ∈ e.2, f.2.key = (e.1, f.1)

/-- The profile stands in the registry under its own root and name. -/
def Stored (r : Registry) (p : Profile) : Prop :=
  r.scoped? p.root p.name = some p

instance (r : Registry) (p : Profile) : Decidable (r.Stored p) :=
  inferInstanceAs (Decidable (_ = _))

/-- The keys of all profiles of all roots. -/
def keys (r : Registry) : List (Text × Text) :=
  r.byRoot.flatMap fun e => e.2.map fun f => (e.1, f.1)

theorem length_keys (r : Registry) : r.keys.length = r.size := by
  simp [keys, size, Entries.values, List.length_flatMap, Function.comp_def]

/-- A profile of a root stands in the entries of that root. -/
theorem exists_of_scoped?_eq_some {r : Registry} {root name : Text} {p : Profile}
    (h : r.scoped? root name = some p) :
    ∃ es, (root, es) ∈ r.byRoot ∧ (name, p) ∈ es := by
  rw [scoped?, ofRoot] at h
  cases hes : r.byRoot.get? root with
  | none =>
    rw [hes] at h
    exact absurd h nofun
  | some es =>
    rw [hes] at h
    exact ⟨es, Entries.mem_of_get?_eq_some hes, Entries.mem_of_get?_eq_some h⟩

/-- Two stored profiles with one key are the same. -/
theorem Stored.eq_of_key_eq {r : Registry} {p q : Profile} (hp : r.Stored p) (hq : r.Stored q)
    (h : p.key = q.key) : p = q := by
  obtain ⟨hroot, hname⟩ := Prod.mk.inj h
  rw [Stored, hroot, hname, hq] at hp
  exact (Option.some.inj hp).symm

/-- The key of a stored profile is one of the keys. -/
theorem Stored.key_mem {r : Registry} {p : Profile} (hp : r.Stored p) : p.key ∈ r.keys := by
  obtain ⟨es, hes, hp⟩ := exists_of_scoped?_eq_some hp
  exact List.mem_flatMap.2 ⟨_, hes, List.mem_map.2 ⟨_, hp, rfl⟩⟩

/-- A stored profile stands in the entries of some root. -/
theorem Stored.exists_mem {r : Registry} {p : Profile} (hp : r.Stored p) :
    ∃ e ∈ r.byRoot, ∃ f ∈ e.2, f.2 = p := by
  obtain ⟨es, hes, hp⟩ := exists_of_scoped?_eq_some hp
  exact ⟨_, hes, _, hp, rfl⟩

/-- A profile that is found by name stands in some root. -/
theorem exists_of_mem_live {r : Registry} {e : Text × Profile} (h : e ∈ r.live) :
    ∃ d ∈ r.byRoot, e ∈ d.2 := by
  suffices ∀ (roots : Entries (Entries Profile)) (acc : Entries Profile),
      e ∈ roots.values.foldl Entries.merge acc → e ∈ acc ∨ ∃ d ∈ roots, e ∈ d.2 from
    (this r.byRoot [] h).resolve_left List.not_mem_nil
  intro roots
  induction roots with
  | nil => exact fun acc h => Or.inl h
  | cons d roots ih =>
    intro acc h
    rcases ih _ h with h | ⟨d', hd', h⟩
    · rcases Entries.mem_of_mem_merge h with h | h
      · exact Or.inl h
      · exact Or.inr ⟨d, List.mem_cons_self, h⟩
    · exact Or.inr ⟨d', List.mem_cons_of_mem d hd', h⟩

/-- A profile that a look-up finds stands under the name in some root. -/
theorem exists_of_lookup_eq_some {r : Registry} {name : Text} {prefer : Option Text} {p : Profile}
    (h : r.lookup name prefer = some p) : ∃ d ∈ r.byRoot, (name, p) ∈ d.2 := by
  rw [lookup] at h
  split at h
  · next q hq =>
    obtain rfl := Option.some.inj h
    obtain ⟨root, -, hq⟩ := Option.bind_eq_some_iff.1 hq
    obtain ⟨es, hes, hmem⟩ := exists_of_scoped?_eq_some hq
    exact ⟨_, hes, hmem⟩
  · exact exists_of_mem_live (Entries.mem_of_get?_eq_some h)

/-- To replace the profiles of one root leaves those of the others. -/
theorem ofRoot_replaceRoot_of_ne (r : Registry) {root other : Text} (h : root ≠ other)
    (profiles : Entries Profile) : (r.replaceRoot root profiles).ofRoot other = r.ofRoot other := by
  rw [ofRoot, ofRoot, replaceRoot, Entries.get?_append, Entries.get?_remove, if_neg h,
    Entries.get?, if_neg h, Entries.get?, Option.or_none]

/-- By name a profile is looked for in one root after the other, from the one loaded last. -/
theorem get?_eq_findSome? {r : Registry} (hr : ∀ e ∈ r.byRoot, e.2.names.Nodup) (name : Text) :
    r.get? name = r.byRoot.reverse.findSome? fun e => e.2.get? name := by
  suffices ∀ (roots : Entries (Entries Profile)) (acc : Entries Profile),
      (∀ e ∈ roots, e.2.names.Nodup) →
      (roots.values.foldl Entries.merge acc).get? name =
        (roots.reverse.findSome? fun e => e.2.get? name).or (acc.get? name) by
    have hlive := this r.byRoot [] hr
    rw [show Entries.get? ([] : Entries Profile) name = none from rfl, Option.or_none] at hlive
    exact hlive
  intro roots
  induction roots with
  | nil => exact fun acc _ => rfl
  | cons d roots ih =>
    intro acc hroots
    have hd : (acc.merge d.2).get? name = (d.2.get? name).or (acc.get? name) :=
      Entries.get?_merge acc d.2 (hroots d List.mem_cons_self) name
    have hrest := ih (acc.merge d.2) fun e he => hroots e (List.mem_cons_of_mem d he)
    rw [Entries.values, List.map_cons, List.foldl_cons, ← Entries.values, hrest, hd,
      List.reverse_cons, List.findSome?_append, List.findSome?_singleton, Option.or_assoc]

namespace Keyed

variable {r : Registry}

/-- Whatever stands in a root is stored. -/
theorem stored_of_mem (hr : r.Keyed) {e : Text × Entries Profile} (he : e ∈ r.byRoot)
    {f : Text × Profile} (hf : f ∈ e.2) : r.Stored f.2 := by
  obtain ⟨hroot, hname⟩ := Prod.mk.inj (hr.key_eq e he f hf)
  rw [Stored, hroot, hname, scoped?, ofRoot, Entries.get?_eq_some_of_mem hr.roots_nodup he]
  exact Entries.get?_eq_some_of_mem (hr.names_nodup e he) hf

/-- A profile that a look-up finds is stored. -/
theorem stored_of_lookup (hr : r.Keyed) {name : Text} {prefer : Option Text} {p : Profile}
    (h : r.lookup name prefer = some p) : r.Stored p := by
  obtain ⟨d, hd, hp⟩ := exists_of_lookup_eq_some h
  exact hr.stored_of_mem hd hp

/-- A profile that a look-up finds has the name that was looked for. -/
theorem name_of_lookup (hr : r.Keyed) {name : Text} {prefer : Option Text} {p : Profile}
    (h : r.lookup name prefer = some p) : p.name = name := by
  obtain ⟨d, hd, hp⟩ := exists_of_lookup_eq_some h
  exact congrArg Prod.snd (hr.key_eq d hd _ hp)

end Keyed

end Bindery.Registry

import Bindery.Profile.Inherit
import Bindery.Proofs.Outcome
import Bindery.Proofs.Profile.Keyed
import Mathlib.Data.List.Perm.Subperm

/-!
# Roots do not disturb each other

A parent is looked for in the root of the profile first.  So if a profile and all that it descends
from in its root find their parents there, nothing that happens to other roots makes a difference:
neither what they declare under the same names, nor that they come and go.

The walk over parents sees a registry through its look-ups and through the bound on the length of
chains.  On a region of profiles that find their parents in the region, registries that agree there
are walked alike, and so they are with different bounds if these leave room for the region.

* `Registry.Region`: profiles that find their parents among themselves.
* `Registry.resolveFrom_add_fuel`, `Registry.resolveFrom_congr`: bounds and registries.
* `Registry.resolve_after_changes`: changes of other roots.
-/

namespace Bindery.Registry

variable {r r' : Registry} {expand : Expansion} {keys : List (Text × Text)}
  {inside : Profile → Prop}

/-! ## Regions -/

/-- Profiles that find all their parents among themselves, with keys from a list. -/
structure Region (r : Registry) (keys : List (Text × Text)) (inside : Profile → Prop) : Prop where
  key_mem : ∀ q, inside q → q.key ∈ keys
  closed : ∀ q, inside q → ∀ name ∈ q.parents, ∃ s, r.lookup name (some q.root) = some s ∧ inside s

/-- A walk in a region cannot use more fuel than there are keys. -/
theorem resolveFrom_add_fuel (hregion : r.Region keys inside) {fuel : Nat}
    {chain : List (Text × Text)} {q : Profile} (hq : inside q) (hnodup : chain.Nodup)
    (hsub : chain ⊆ keys) (hfuel : keys.length < chain.length + fuel) (more : Nat) :
    r.resolveFrom expand (fuel + more) chain q = r.resolveFrom expand fuel chain q := by
  induction fuel generalizing chain q with
  | zero =>
    -- The keys of a chain are different, so there are not more than keys.
    have hle := (hnodup.subperm hsub).length_le
    omega
  | succ fuel ih =>
    rw [Nat.add_right_comm, resolveFrom, resolveFrom]
    split
    · rfl
    · next hmem =>
      have hnew : q.key ∉ chain := by simpa using hmem
      have hchain : (chain ++ [q.key]).Nodup :=
        hnodup.append (List.nodup_singleton _) (List.disjoint_singleton.2 hnew)
      have hkeys : chain ++ [q.key] ⊆ keys :=
        List.append_subset.2 ⟨hsub, List.cons_subset.2 ⟨hregion.key_mem q hq, List.nil_subset _⟩⟩
      congr 1
      refine Reported.mapM_congr fun name hname => ?_
      obtain ⟨s, hs, hinside⟩ := hregion.closed q hq name hname
      rw [hs]
      refine ih hinside hchain hkeys ?_
      rw [List.length_append, List.length_singleton]
      omega

/-- Registries that agree in a region are walked alike. -/
theorem resolveFrom_congr
    (hagree : ∀ q, inside q → ∀ name ∈ q.parents, ∃ s, r.lookup name (some q.root) = some s ∧
      r'.lookup name (some q.root) = some s ∧ inside s)
    (fuel : Nat) (chain : List (Text × Text)) {q : Profile} (hq : inside q) :
    r'.resolveFrom expand fuel chain q = r.resolveFrom expand fuel chain q := by
  induction fuel generalizing chain q with
  | zero => rfl
  | succ fuel ih =>
    rw [resolveFrom, resolveFrom]
    congr 2
    refine Reported.mapM_congr fun name hname => ?_
    obtain ⟨s, hs, hs', hinside⟩ := hagree q hq name hname
    rw [hs, hs']
    exact ih _ hinside

/-! ## The region of a root -/

/-- `q` is `p` or an ancestor of it, all on the way found in one root. -/
inductive ReachesWithin (r : Registry) (root : Text) : Profile → Profile → Prop
  | refl (p) : ReachesWithin r root p p
  | snoc {p q s} {name : Text} (h : ReachesWithin r root p q) (hname : name ∈ q.parents)
      (hs : r.scoped? root name = some s) : ReachesWithin r root p s

/-- A profile and all that it descends from in its root belong to the root and list only parents
that the root declares. -/
structure Confined (r : Registry) (p : Profile) : Prop where
  belongs : ∀ q, r.ReachesWithin p.root p q → q.root = p.root
  declared : ∀ q, r.ReachesWithin p.root p q → ∀ name ∈ q.parents,
    (r.scoped? p.root name).isSome = true

/-- Where profiles stand under their own keys, those of a root belong to it. -/
theorem Keyed.confined (hr : r.Keyed) {p : Profile}
    (hdeclared : ∀ q, r.ReachesWithin p.root p q → ∀ name ∈ q.parents,
      (r.scoped? p.root name).isSome = true) : r.Confined p where
  belongs q hq := by
    cases hq with
    | refl => rfl
    | snoc _ _ hs =>
      obtain ⟨es, hes, hmem⟩ := exists_of_scoped?_eq_some hs
      exact congrArg Prod.fst (hr.key_eq _ hes _ hmem)
  declared := hdeclared

theorem lookup_of_scoped? {root name : Text} {s : Profile} (hs : r.scoped? root name = some s) :
    r.lookup name (some root) = some s := by
  rw [lookup, Option.bind_some, hs]

/-- Keys of the profiles of a root and of one more. -/
def keysWith (r : Registry) (p : Profile) : List (Text × Text) :=
  p.key :: (r.ofRoot p.root).values.map Profile.key

theorem length_keysWith_le (r : Registry) (p : Profile) : (r.keysWith p).length ≤ r.size + 1 := by
  rw [keysWith, List.length_cons, List.length_map, ofRoot, size, Nat.succ_le_succ_iff]
  cases hes : r.byRoot.get? p.root with
  | none => exact Nat.zero_le _
  | some es =>
    have hmem : es ∈ r.byRoot.values := List.mem_map_of_mem (Entries.mem_of_get?_eq_some hes)
    rw [Option.getD_some, Entries.values, List.length_map]
    exact (List.sublist_flatten_of_mem hmem).length_le

theorem Confined.region {p : Profile} (hp : r.Confined p) :
    r.Region (r.keysWith p) (r.ReachesWithin p.root p) where
  key_mem q hq := by
    cases hq with
    | refl => exact List.mem_cons_self
    | snoc _ _ hs =>
      have hmem := Entries.mem_of_get?_eq_some hs
      exact List.mem_cons_of_mem _ (List.mem_map_of_mem (List.mem_map_of_mem hmem))
  closed q hq name hname := by
    obtain ⟨s, hs⟩ := Option.isSome_iff_exists.1 (hp.declared q hq name hname)
    rw [hp.belongs q hq]
    exact ⟨s, lookup_of_scoped? hs, .snoc hq hname hs⟩

/-! ## Changes of roots -/

/-- What changes the profiles of a root. -/
inductive Change
  | replace (root : Text) (profiles : Entries Profile)
  | drop (root : Text)
  deriving DecidableEq, Repr

/-- The root whose profiles are changed. -/
def Change.root : Change → Text
  | replace root _ => root
  | drop root => root

/-- The registry after a change. -/
def change (r : Registry) : Change → Registry
  | .replace root profiles => r.replaceRoot root profiles
  | .drop root => r.dropRoot root

/-- The registry after changes made one after the other. -/
def after (r : Registry) (changes : List Change) : Registry :=
  changes.foldl change r

theorem ofRoot_change_of_ne (r : Registry) {c : Change} {root : Text} (h : c.root ≠ root) :
    (r.change c).ofRoot root = r.ofRoot root := by
  cases c with
  | replace other profiles => exact ofRoot_replaceRoot_of_ne r h profiles
  | drop other =>
    have hne : other ≠ root := h
    rw [change, dropRoot, ofRoot, ofRoot, Entries.get?_remove, if_neg hne]

theorem ofRoot_after_of_ne (r : Registry) {changes : List Change} {root : Text}
    (h : ∀ c ∈ changes, c.root ≠ root) : (r.after changes).ofRoot root = r.ofRoot root := by
  induction changes generalizing r with
  | nil => rfl
  | cons c changes ih =>
    rw [List.forall_mem_cons] at h
    exact (ih (r.change c) h.2).trans (ofRoot_change_of_ne r h.1)

/-- **Other roots make no difference** to the files of a profile that finds its parents in its own
root, nor to what is reported and what cycle is found on the way. -/
theorem resolve_after_changes (r : Registry) (expand : Expansion) (p : Profile)
    (hp : r.Confined p) (changes : List Change) (hchanges : ∀ c ∈ changes, c.root ≠ p.root) :
    (r.after changes).resolve expand p = r.resolve expand p := by
  have hroot : (r.after changes).ofRoot p.root = r.ofRoot p.root := ofRoot_after_of_ne r hchanges
  have hscoped : ∀ name, (r.after changes).scoped? p.root name = r.scoped? p.root name :=
    fun name => by rw [scoped?, scoped?, hroot]
  have hagree : ∀ q, r.ReachesWithin p.root p q → ∀ name ∈ q.parents, ∃ s,
      r.lookup name (some q.root) = some s ∧
        (r.after changes).lookup name (some q.root) = some s ∧ r.ReachesWithin p.root p s := by
    intro q hq name hname
    obtain ⟨s, hs⟩ := Option.isSome_iff_exists.1 (hp.declared q hq name hname)
    rw [hp.belongs q hq]
    exact ⟨s, lookup_of_scoped? hs, lookup_of_scoped? ((hscoped name).trans hs),
      .snoc hq hname hs⟩
  have hregion' : (r.after changes).Region (r.keysWith p) (r.ReachesWithin p.root p) :=
    ⟨hp.region.key_mem, fun q hq name hname =>
      (hagree q hq name hname).imp fun _ hs => ⟨hs.2.1, hs.2.2⟩⟩
  -- Both walks have room for the region of the profile, whatever else the registries hold.
  have hwalk : ∀ r₀ : Registry, r₀.Region (r.keysWith p) (r.ReachesWithin p.root p) →
      (r.keysWith p).length ≤ r₀.size + 1 →
      r₀.resolve expand p = r₀.resolveFrom expand ((r.keysWith p).length + 1) [] p := by
    intro r₀ hr₀ hle
    obtain ⟨more, hmore⟩ : ∃ more, r₀.size + 2 = (r.keysWith p).length + 1 + more :=
      Nat.exists_eq_add_of_le (Nat.succ_le_succ hle)
    rw [resolve, hmore]
    exact resolveFrom_add_fuel hr₀ (.refl p) List.nodup_nil (List.nil_subset _)
      (by rw [List.length_nil]; omega) more
  have hlength' : (r.keysWith p).length ≤ (r.after changes).size + 1 := by
    have hkeys : (r.after changes).keysWith p = r.keysWith p := by rw [keysWith, keysWith, hroot]
    exact hkeys ▸ length_keysWith_le (r.after changes) p
  rw [hwalk r hp.region (length_keysWith_le r p), hwalk _ hregion' hlength']
  exact resolveFrom_congr hagree _ [] (.refl p)

/-! ## A name that two roots declare -/

/-- Two roots that declare one name; a profile of the first inherits from it. -/
def shadowed : Registry where
  byRoot :=
    [(['/', 'u'], [(['b'], ⟨['b'], ['/', 'u'], [], [['x']], []⟩),
      (['c'], ⟨['c'], ['/', 'u'], [['b']], [['y'], ['z']], [['z']]⟩)]),
    (['/', 'v'], [(['b'], ⟨['b'], ['/', 'v'], [], [['z']], []⟩)])]

/-- The profile that inherits. -/
def shadowedChild : Profile := ⟨['c'], ['/', 'u'], [['b']], [['y'], ['z']], [['z']]⟩

/-- The second root declares both names, then it is dropped, and a third root declares the parent. -/
def shadowedChanges : List Change :=
  [.replace ['/', 'v'] [(['b'], ⟨['b'], ['/', 'v'], [['c']], [], []⟩),
    (['c'], ⟨['c'], ['/', 'v'], [['b']], [], []⟩)],
    .drop ['/', 'v'], .replace ['/', 'w'] [(['b'], ⟨['b'], ['/', 'w'], [['d']], [], []⟩)]]

theorem confined_shadowed : shadowed.Confined shadowedChild := by
  have hreach : ∀ q, shadowed.ReachesWithin ['/', 'u'] shadowedChild q →
      q = shadowedChild ∨ q = ⟨['b'], ['/', 'u'], [], [['x']], []⟩ := by
    intro q hq
    induction hq with
    | refl => exact Or.inl rfl
    | snoc _ hname hs ih =>
      rcases ih with rfl | rfl
      · rw [List.mem_singleton.1 hname] at hs
        exact Or.inr (Option.some.inj (hs.symm.trans (by decide)))
      · exact absurd hname List.not_mem_nil
  have hkeyed : shadowed.Keyed := by constructor <;> decide
  refine hkeyed.confined fun q hq => ?_
  rcases hreach q hq with rfl | rfl <;> decide

/-- The profile keeps its files, whatever becomes of the second root. -/
theorem resolve_shadowed_after_changes :
    shadowed.Confined shadowedChild ∧ (∀ c ∈ shadowedChanges, c.root ≠ shadowedChild.root) ∧
      (shadowed.after shadowedChanges).get? ['b'] ≠ shadowed.get? ['b'] ∧
      (shadowed.after shadowedChanges).resolve (fun patterns _ => .ok patterns) shadowedChild =
        .ok [['x'], ['y']] := by
  have hchanges : ∀ c ∈ shadowedChanges, c.root ≠ shadowedChild.root := by decide
  refine ⟨confined_shadowed, hchanges, by decide, ?_⟩
  rw [resolve_after_changes _ _ _ confined_shadowed _ hchanges]
  rfl

end Bindery.Registry

import Bindery.Proofs.Profile.Inherit
import Bindery.Proofs.Search.AnyTree

/-!
# Cycles that are reported

A walk over parents that ends with a cycle reports the names on it.  In a keyed registry these are
the names of profiles that inherit from each other, one from the next and the last from the first,
and no profile is on the cycle twice, although names may be.

The walk knows the profiles that it is in the midst of by their keys only.  `Trail` says which
profiles these are: each inherits from the next, the last from the profile at hand.  What is done
with the parents that were walked before leaves no trace on the trail.

* `Registry.Inherits`, `Registry.IsCycle`: inheritance by name, and what a cycle is.
* `Registry.Trail`: the profiles that a walk is in the midst of.
* `Registry.resolve_cycle_isCycle`: what is reported is a cycle.
-/

namespace Bindery.Registry

variable {r : Registry}

/-! ## Cycles -/

/-- The first profile lists the second by its name, and looked for from the root of the first the
name gives the second. -/
def Inherits (r : Registry) (p q : Profile) : Prop :=
  q.name ∈ p.parents ∧ r.lookup q.name (some p.root) = some q

/-- A way from a profile through others back to it: all are profiles of the registry, no two with
one key, and each inherits from the next. -/
structure IsCycle (r : Registry) (p : Profile) (others : List Profile) : Prop where
  stored : ∀ q ∈ p :: others, r.Stored q
  nodup : ((p :: others).map Profile.key).Nodup
  inherits : List.IsChain r.Inherits (p :: others ++ [p])

/-- In a keyed registry parents are found under their own names. -/
theorem Parent.inherits (hr : r.Keyed) {p q : Profile} (h : r.Parent p q) : r.Inherits p q := by
  obtain ⟨name, hname, hq⟩ := h
  obtain rfl := hr.name_of_lookup hq
  exact ⟨hname, hq⟩

/-! ## The trail of a walk -/

/-- The profiles that a walk from `top` is in the midst of when it comes to `p`. -/
structure Trail (r : Registry) (top : Profile) (trail : List Profile) (p : Profile) : Prop extends
    r.Above (trail.map Profile.key) p where
  stored : ∀ q ∈ trail ++ [p], r.Stored q
  reached : ∀ q ∈ trail ++ [p], r.Reaches top q
  inherits : List.IsChain r.Inherits (trail ++ [p])

namespace Trail

variable {top p q : Profile} {trail : List Profile}

theorem start (hp : r.Stored p) : r.Trail p [] p where
  toAbove := .nil p
  stored := List.forall_mem_singleton.2 hp
  reached := List.forall_mem_singleton.2 (.refl p)
  inherits := List.isChain_singleton p

theorem stored_last (h : r.Trail top trail p) : r.Stored p :=
  h.stored p (by simp)

/-- The walk goes on to a parent. -/
theorem snoc (hr : r.Keyed) (h : r.Trail top trail p) (hnew : p.key ∉ trail.map Profile.key)
    (hpq : r.Parent p q) : r.Trail top (trail ++ [p]) q where
  toAbove := by
    rw [List.map_append, List.map_singleton]
    exact h.toAbove.snoc h.stored_last hnew hpq
  stored := List.forall_mem_append.2
    ⟨h.stored, List.forall_mem_singleton.2 (hr.stored_of_parent hpq)⟩
  reached := List.forall_mem_append.2
    ⟨h.reached, List.forall_mem_singleton.2 ((h.reached p (by simp)).trans hpq.reaches)⟩
  inherits := by
    rw [List.append_assoc, List.singleton_append, List.isChain_append_cons_cons]
    exact ⟨h.inherits, hpq.inherits hr, List.isChain_singleton q⟩

/-- A key that is met again is that of a profile on the trail, and the trail from there on is a
cycle. -/
theorem exists_cycle (h : r.Trail top trail p) (hmem : p.key ∈ trail.map Profile.key) :
    ∃ others, r.IsCycle p others ∧
      cycleNames (trail.map Profile.key) p = (p :: others ++ [p]).map Profile.name := by
  obtain ⟨q, hq, hkey⟩ := List.mem_map.1 hmem
  obtain rfl := (h.stored q (List.mem_append_left _ hq)).eq_of_key_eq h.stored_last hkey
  obtain ⟨before, others, rfl⟩ := List.append_of_mem hq
  have hnodup := h.nodup
  rw [List.map_append, List.nodup_append] at hnodup
  obtain ⟨-, hothers, hapart⟩ := hnodup
  refine ⟨others, ⟨fun s hs => ?_, hothers, ?_⟩, ?_⟩
  · exact h.stored s (List.mem_append_left _ (List.mem_append_right before hs))
  · have hinherits := h.inherits
    rw [List.append_assoc] at hinherits
    exact hinherits.right_of_append
  · -- The keys before the first one that is met again are dropped.
    have hbefore : ∀ k ∈ before.map Profile.key, (k != q.key) = true := fun k hk =>
      bne_iff_ne.2 (hapart k hk q.key (List.mem_map_of_mem List.mem_cons_self))
    have hdrop : ((before ++ q :: others).map Profile.key).dropWhile (· != q.key) =
        (q :: others).map Profile.key := by
      rw [List.map_append, List.dropWhile_append_of_pos hbefore, List.map_cons, List.dropWhile_cons,
        if_neg (by simp)]
    rw [cycleNames, hdrop, List.map_map, List.map_append]
    rfl

end Trail

/-! ## The walk -/

/-- The names are those on a cycle that the profile reaches. -/
def NamesCycle (r : Registry) (p : Profile) (names : List Text) : Prop :=
  ∃ q others, r.Reaches p q ∧ r.IsCycle q others ∧ names = (q :: others ++ [q]).map Profile.name

/-- If expansions do not end with cycles, walks do so only with the names on one, below every trail
that leaves them enough steps. -/
theorem resolveFrom_failsOnly_namesCycle (hr : r.Keyed) {expand : Expansion}
    (hexpand : ∀ patterns root,
      FailsOnly (fun f => ∀ names, f ≠ .cycle names) (expand patterns root).result)
    {top p : Profile} {trail : List Profile} (h : r.Trail top trail p) {fuel : Nat}
    (hfuel : r.size < trail.length + fuel) :
    FailsOnly (fun f => ∀ names, f = .cycle names → r.NamesCycle top names)
      (r.resolveFrom expand fuel (trail.map Profile.key) p).result := by
  induction fuel generalizing trail p with
  | zero =>
    -- A trail is never longer than there are profiles.
    have hle := h.length_le
    rw [List.length_map] at hle
    omega
  | succ fuel ih =>
    by_cases hmem : p.key ∈ trail.map Profile.key
    · rw [resolveFrom, if_pos (by simpa using hmem)]
      refine .error fun names hnames => ?_
      obtain ⟨others, hcycle, hothers⟩ := h.exists_cycle hmem
      exact ⟨p, others, h.reached p (by simp), hcycle, (Fault.cycle.inj hnames).symm.trans hothers⟩
    · rw [result_resolveFrom_succ expand fuel hmem]
      refine .bind (.mapM fun name hname => ?_) fun inherited _ => .bind ?_ fun own _ => .ok _
      · -- What was walked before this parent makes no difference to the trail.
        rw [inheritFrom]
        cases hq : r.lookup name (some p.root) with
        | none => exact .ok []
        | some q =>
          have hnext := ih (h.snoc hr hmem ⟨name, hname, hq⟩)
            (by rw [List.length_append, List.length_singleton]; omega)
          rwa [List.map_append, List.map_singleton] at hnext
      · refine (ownFiles_failsOnly (hexpand _ _) (hexpand _ _)).mono fun f hf names hnames => ?_
        exact absurd hnames (hf names)

/-- **A cycle that is reported is one.**  In a keyed registry, whatever the files are: if resolving
a profile ends with a cycle, the names reported are those of profiles of the registry that the
profile reaches, each of which lists the next one and finds it from its own root, from one profile
through others with different keys back to it. -/
theorem resolve_cycle_isCycle (hr : r.Keyed) (m : Matcher) (h : Host) (cache : IgnoreCache)
    {p : Profile} (hp : r.Stored p) {names : List Text}
    (hcycle : (r.resolve (m.expand h cache) p).result = .error (.cycle names)) :
    ∃ q others, r.Reaches p q ∧ r.IsCycle q others ∧
      names = (q :: others ++ [q]).map Profile.name := by
  have hexpand : ∀ patterns root,
      FailsOnly (fun f => ∀ names, f ≠ .cycle names) (m.expand h cache patterns root).result := by
    intro patterns root
    refine (m.expand_failsOnly_anyTree h cache patterns root).mono ?_
    rintro f (rfl | ⟨flaw, rfl⟩) names <;> exact nofun
  exact resolveFrom_failsOnly_namesCycle hr hexpand (.start hp) (by simp) _ hcycle names rfl

/-! ## A cycle across two roots -/

/-- The profile `t` comes to a cycle by its second parent; the name `a` is on the cycle twice, once
from each root. -/
def crossing : Registry where
  byRoot :=
    [(['/', 'u'], [(['a'], plain ['/', 'u'] ['a'] [['b']] ['x']),
      (['c'], plain ['/', 'u'] ['c'] [['a']] ['x']),
      (['k'], plain ['/', 'u'] ['k'] [] ['x']),
      (['t'], plain ['/', 'u'] ['t'] [['k'], ['a']] ['x'])]),
    (['/', 'v'], [(['b'], plain ['/', 'v'] ['b'] [['k'], ['a']] ['x']),
      (['a'], plain ['/', 'v'] ['a'] [['c']] ['z'])])]

/-- What is reported is a cycle although one of its names comes three times. -/
theorem resolve_cycle_crossing :
    let top := plain ['/', 'u'] ['t'] [['k'], ['a']] ['x']
    let names := [['a'], ['b'], ['a'], ['c'], ['a']]
    crossing.Keyed ∧ crossing.Stored top ∧
      (crossing.resolve
        ((Matcher.mk false ".gitignore".toList).expand diamondHost .empty) top).result =
          .error (.cycle names) ∧
      ∃ q others, crossing.Reaches top q ∧ crossing.IsCycle q others ∧
        names = (q :: others ++ [q]).map Profile.name := by
  intro top names
  have hkeyed : crossing.Keyed := by constructor <;> decide
  have hstored : crossing.Stored top := by decide
  have hcycle : (crossing.resolve
      ((Matcher.mk false ".gitignore".toList).expand diamondHost .empty) top).result =
        .error (.cycle names) := by cbv
  exact ⟨hkeyed, hstored, hcycle, resolve_cycle_isCycle hkeyed _ _ _ hstored hcycle⟩

end Bindery.Registry

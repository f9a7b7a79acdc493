import Bindery.Proofs.Engine.Calls
import Bindery.Proofs.Path.Components

/-!
# Roots are absolute

Whatever the calls are that an engine goes through, and whatever the files are at the time of each,
its roots are absolute paths, and its profiles are those of absolute roots.  Nothing an engine looks
for later depends on the working directory.

* `Roots.isAbsolute_normalize`: normal forms are absolute.
* `Engine.Reachable`: engines after any calls; `Engine.IsRooted` is kept by each of them.
-/

namespace Bindery

open Bindery.Path

/-! ## Normal forms -/

theorem Host.isAbsolute_absolute {h : Host} {p q : Text} (hq : h.absolute p = .ok q) :
    isAbsolute q = true := by
  rw [absolute] at hq
  split at hq
  · next hp =>
    obtain rfl := Except.ok.inj hq
    exact isAbsolute_normalize hp
  · rw [currentPath] at hq
    split at hq
    · obtain rfl := Except.ok.inj hq
      exact isAbsolute_normalize (isAbsolute_join rfl p)
    · exact absurd hq nofun

theorem Path.Parsed.isAbsolute_toText_ofText {p : Text} (hp : Path.isAbsolute p = true) :
    Path.isAbsolute (Parsed.ofText p).toText = true := by
  have hroot : Path.isAbsolute (rootOf p) = true := by
    rcases isFront_rootOf hp with h | h <;> rw [h] <;> rfl
  have happ := isAbsolute_append hroot
    (List.intercalate ['/'] ((components p).filter (· != ['.'])))
  rw [toText, ofText]
  split
  · next hnil => exact absurd (hnil ▸ happ) nofun
  · exact happ

theorem Path.isAbsolute_stripTrailing {p : Text} (hp : isAbsolute p = true) :
    isAbsolute (stripTrailing p) = true := by
  rw [stripTrailing]
  split
  · exact hp
  split
  · rfl
  · next hne =>
    -- What is left begins as the path does.
    obtain ⟨q, hq⟩ := Text.isPrefix_dropRightWhile (· == '/') p
    obtain ⟨c, r, hcr⟩ := List.exists_cons_of_ne_nil hne
    rw [hcr] at hq ⊢
    rw [← hq] at hp
    exact hp

/-- The normal form of a root is absolute. -/
theorem Roots.isAbsolute_normalize {h : Host} {p root : Text} (hroot : normalize h p = .ok root) :
    isAbsolute root = true := by
  have hresolve : ∀ p q, resolve h p = .ok q → isAbsolute q = true := by
    intro p q hq
    rw [resolve] at hq
    split at hq
    · exact absurd hq nofun
    split at hq
    · exact absurd hq nofun
    next s hs =>
    rw [followLinks] at hs
    cases htrace : trace h maxNesting _ _ [] _ with
    | error f => exact absurd (htrace ▸ hs) nofun
    | ok t =>
      rw [htrace] at hs
      have habs := Parsed.isAbsolute_toText_ofText (Host.isAbsolute_absolute hs)
      dsimp only at hq
      split at hq
      · exact absurd hq nofun
      · exact absurd hq nofun
      · exact Except.ok.inj hq ▸ habs
  have hpath : ∀ p, normalizePath h p = .ok root → isAbsolute root = true := by
    intro p hp
    rw [normalizePath] at hp
    split at hp
    · next q hq => exact Except.ok.inj hp ▸ isAbsolute_stripTrailing (hresolve p q hq)
    · exact absurd hp nofun
    · cases habs : h.absolute (expandHomeText h p) with
      | error f => exact absurd (habs ▸ hp) nofun
      | ok q =>
        rw [habs] at hp
        exact Except.ok.inj hp ▸ isAbsolute_stripTrailing (Host.isAbsolute_absolute habs)
  rw [normalize] at hroot
  split at hroot
  · cases hcurrent : h.currentPath with
    | error f => exact absurd (hcurrent ▸ hroot) nofun
    | ok p =>
      rw [hcurrent] at hroot
      exact hpath p hroot
  · exact hpath p hroot

namespace Engine

/-! ## Calls -/

/-- The engines that calls in any order lead to, with any files at the time of each. -/
inductive Reachable (settings : Settings) : Engine → Prop
  | start : Reachable settings (.empty settings)
  | call {e : Engine} (h : Host) (c : Call) (he : Reachable settings e) :
      Reachable settings (c.perform h e)

/-- Roots are absolute, and profiles stand under the root that they are from. -/
structure IsRooted (e : Engine) : Prop where
  roots : ∀ root ∈ e.roots, isAbsolute root = true
  profiles : ∀ d ∈ e.registry.byRoot, isAbsolute d.1 = true ∧ ∀ f ∈ d.2, f.2.root = d.1

namespace IsRooted

variable {e : Engine} {h : Host} {root : Text}

theorem empty (settings : Settings) : (Engine.empty settings).IsRooted :=
  ⟨fun _ hr => absurd hr List.not_mem_nil, fun _ hd => absurd hd List.not_mem_nil⟩

theorem addNormal (he : e.IsRooted) (hroot : isAbsolute root = true) :
    (e.addNormal root).IsRooted where
  roots r hr := by
    rw [Engine.addNormal] at hr
    split at hr
    · exact he.roots r hr
    · rcases List.mem_append.1 hr with hr | hr
      · exact he.roots r hr
      · exact List.mem_singleton.1 hr ▸ hroot
  profiles := by
    rw [registry_addNormal]
    exact he.profiles

theorem accept (he : e.IsRooted) (hroot : isAbsolute root = true) (text : Text) :
    (e.accept root (Profile.readText root text)).IsRooted where
  roots := he.roots
  profiles d hd := by
    rcases List.mem_append.1 hd with hd | hd
    · exact he.profiles d (List.mem_of_mem_filter hd)
    · obtain rfl := List.mem_singleton.1 hd
      refine ⟨hroot, fun f hf => ?_⟩
      exact congrArg Prod.fst ((Profile.sound_readText root text).2 f hf)

theorem invalidateNormal (he : e.IsRooted) (root : Text) : (e.invalidateNormal root).IsRooted where
  roots := he.roots
  profiles d hd := he.profiles d (List.mem_of_mem_filter hd)

/-- Every step of a call keeps roots absolute: a new root is a normal form. -/
theorem kept (h : Host) : Kept h IsRooted where
  add hroot he := by
    obtain ⟨path, hpath⟩ := hroot
    exact he.addNormal (Roots.isAbsolute_normalize hpath)
  accept content hroot _ he := by
    obtain ⟨path, hpath⟩ := hroot
    exact he.accept (Roots.isAbsolute_normalize hpath) content
  reopen _ he := ⟨he.roots, he.profiles⟩
  drop root he := he.invalidateNormal root

/-- No call makes a root that is not absolute. -/
theorem perform (he : e.IsRooted) (h : Host) (c : Call) : (c.perform h e).IsRooted := by
  refine (kept h).perform he c fun path root normal _ _ _ => ?_
  have hnext := he.invalidateNormal normal
  exact ⟨fun r hr => hnext.roots r (List.mem_of_mem_erase hr), hnext.profiles⟩

/-- A profile that is found belongs to an absolute root. -/
theorem of_lookup (he : e.IsRooted) {name : Text} {prefer : Option Text} {p : Profile}
    (hp : e.registry.lookup name prefer = some p) : isAbsolute p.root = true := by
  obtain ⟨d, hd, hmem⟩ := Registry.exists_of_lookup_eq_some hp
  obtain ⟨habs, hprofiles⟩ := he.profiles d hd
  rw [hprofiles _ hmem]
  exact habs

end IsRooted

/-- Engines stay rooted. -/
theorem Reachable.isRooted {settings : Settings} {e : Engine} (he : Reachable settings e) :
    e.IsRooted := by
  induction he with
  | start => exact IsRooted.empty settings
  | call h c _ ih => exact ih.perform h c

end Engine

end Bindery

import Bindery.Proofs.Files.Named
import Bindery.Proofs.Search.Paths

/-!
# What a search can find

In any tree whose entries have proper names, links or not, and for any absolute pattern, every path
found stands for the components of the pattern: what the pattern does not spell out itself are names
of entries.  A search fails only where a null character is in the pattern.

* `Outcome`: what is found where a search has a result, and its fault where it has none.
* `IsFound`: how a path found stands for a pattern.
* `findIn_outcome`, `paths_outcome`.
-/

namespace Bindery.Search

open Bindery.Path

/-! ## Outcomes -/

/-- What a search finds has a property; where it fails, the fault is a null character, and there is
one. -/
structure Outcome (P : Text → Prop) (hasNull : Prop) (found : Except Fault (List Text)) : Prop where
  sound : ∀ xs, found = .ok xs → ∀ x ∈ xs, P x
  fault : ∀ e, found = .error e → e = .nullCharacter ∧ hasNull

namespace Outcome

variable {P Q : Text → Prop} {hasNull hasNull' : Prop} {found : Except Fault (List Text)}

theorem ok {xs : List Text} (h : ∀ x ∈ xs, P x) : Outcome P hasNull (.ok xs) where
  sound _ hys := Except.ok.inj hys ▸ h
  fault _ he := absurd he nofun

theorem error (h : hasNull) : Outcome P hasNull (.error .nullCharacter) where
  sound _ hxs := absurd hxs nofun
  fault _ he := ⟨(Except.error.inj he).symm, h⟩

theorem imp_null (h : Outcome P hasNull found) (hnull : hasNull → hasNull') :
    Outcome P hasNull' found where
  sound := h.sound
  fault e he := (h.fault e he).imp_right hnull

/-- What is made of the things found has what follows from their property. -/
theorem map {f : List Text → List Text} (h : Outcome P hasNull found)
    (hf : ∀ xs, (∀ x ∈ xs, P x) → ∀ y ∈ f xs, Q y) : Outcome Q hasNull (found.map f) where
  sound ys hys y hy := by
    cases hfound : found with
    | error e => exact absurd (hfound ▸ hys) nofun
    | ok xs =>
      rw [hfound] at hys
      obtain rfl := Except.ok.inj hys
      exact hf xs (h.sound xs hfound) y hy
  fault e he := by
    cases hfound : found with
    | error e' =>
      rw [hfound] at he
      exact h.fault e (hfound.trans he)
    | ok xs => exact absurd (hfound ▸ he) nofun

/-- Searches one after another have a result where each has one. -/
theorem flatten {f : Text → Except Fault (List Text)} {xs : List Text}
    (h : ∀ x ∈ xs, Outcome P hasNull (f x)) :
    Outcome P hasNull ((xs.mapM f).map List.flatten) where
  sound ys hys y hy := by
    cases hxs : xs.mapM f with
    | error e => exact absurd (hxs ▸ hys) nofun
    | ok yss =>
      rw [hxs] at hys
      obtain rfl := Except.ok.inj hys
      obtain ⟨x, hx, zs, hfx, hy⟩ := (mem_flatten_of_mapM_eq_ok hxs y).1 hy
      exact (h x hx).sound zs hfx y hy
  fault e he := by
    cases hxs : xs.mapM f with
    | error e' =>
      rw [hxs] at he
      obtain ⟨x, hx, hfx⟩ := exists_of_mapM_eq_error hxs
      exact (h x hx).fault e (hfx.trans he)
    | ok yss => exact absurd (hxs ▸ he) nofun

end Outcome

/-! ## One directory -/

variable {h : Host} {d c : Text}

/-- The names in a directory are proper, and only a null character keeps them from being listed. -/
theorem namesIn_outcome (hnamed : h.IsNamed) (directoriesOnly : Bool) (d : Text) :
    Outcome IsName ('\x00' ∈ d) (namesIn h directoriesOnly d) := by
  rw [namesIn]
  split
  · next names hlisted =>
    have hnames := hnamed.isName_of_mem_entryNames hlisted
    refine .ok fun n hn => ?_
    split at hn
    · exact hnames n (List.mem_filter.1 hn).1
    · exact hnames n hn
  · exact .ok (List.forall_mem_nil _)
  · next e hfile hlisted =>
    rcases Host.entryNames_fault hlisted with ⟨cause, rfl⟩ | ⟨rfl, hnull⟩
    · exact (hfile cause rfl).elim
    · refine .error ?_
      split at hnull
      · exact absurd hnull (by decide)
      · exact hnull

theorem null_mem_of_below {n : Text} (hn : IsName n) (hnull : '\x00' ∈ below d n) : '\x00' ∈ d := by
  rw [below] at hnull
  split at hnull
  · exact absurd hnull hn.no_null
  split at hnull
  · exact hnull
  · rcases mem_of_mem_join hnull with hslash | hd | hname
    · exact absurd hslash (by decide)
    · exact hd
    · exact absurd hname hn.no_null

/-- Paths below a directory are joined names that are not hidden. -/
theorem pathsBelow_outcome (hnamed : h.IsNamed) (directoriesOnly : Bool) (depth : Nat) (d : Text) :
    Outcome (fun x => ∃ ns, ns ≠ [] ∧ (∀ n ∈ ns, IsName n ∧ isHidden n = false) ∧
      x = List.intercalate ['/'] ns) ('\x00' ∈ d) (pathsBelow h directoriesOnly depth d) := by
  induction depth generalizing d with
  | zero => exact .ok nofun
  | succ depth ih =>
    have hnames := namesIn_outcome hnamed directoriesOnly d
    rw [pathsBelow]
    split
    · next e he =>
      obtain ⟨rfl, hnull⟩ := hnames.fault e he
      exact .error hnull
    · next names hlisted =>
      refine .flatten fun n hn => ?_
      obtain ⟨hn, hhidden⟩ := List.mem_filter.1 hn
      rw [Bool.not_eq_true'] at hhidden
      have hname := hnames.sound names hlisted n hn
      refine ((ih (below d n)).imp_null (null_mem_of_below hname)).map fun ps hps y hy => ?_
      rcases List.mem_cons.1 hy with rfl | hy
      · exact ⟨[y], by simp, List.forall_mem_singleton.2 ⟨hname, hhidden⟩, by simp⟩
      · obtain ⟨x, hx, rfl⟩ := List.mem_map.1 hy
        obtain ⟨ns, hne, hns, rfl⟩ := hps x hx
        exact ⟨n :: ns, by simp, List.forall_mem_cons.2 ⟨⟨hname, hhidden⟩, hns⟩,
          below_intercalate hname hne fun m hm => (hns m hm).1⟩

/-! ## Paths found -/

/-- How a path found stands for a pattern: the slashes in front are the same, and the components are
names of entries or those of the pattern. -/
structure IsFound (pattern q : Text) : Prop where
  root : rootOf q = rootOf pattern
  stands : Stands (components pattern) (components q)
  parts : ∀ n ∈ components q, IsName n ∨ n ∈ components pattern

namespace IsFound

variable {pattern q directory x : Text}

theorem isAbsolute_eq (hq : IsFound pattern q) : isAbsolute q = isAbsolute pattern := by
  rw [Bool.eq_iff_iff, isAbsolute_iff_rootOf, isAbsolute_iff_rootOf, hq.root]

theorem null_mem (hq : IsFound pattern q) (hnull : '\x00' ∈ q) : '\x00' ∈ pattern := by
  obtain ⟨part, hpart, hmem⟩ := exists_component_of_mem hnull (by decide)
  rcases hq.parts part hpart with hname | hpart
  · exact absurd hmem hname.no_null
  · exact mem_of_mem_components hpart hmem

/-- A pattern without special characters stands for itself. -/
theorem refl (hmagic : NamePattern.hasMagic pattern = false) : IsFound pattern pattern where
  root := rfl
  stands := by
    refine (stands_iff_of_plain fun part hpart => ?_).2 rfl
    rw [NamePattern.hasMagic, List.any_eq_false] at hmagic ⊢
    exact fun c hc => hmagic c (mem_of_mem_components hpart hc)
  parts _ hn := Or.inr hn

/-- What a directory's pattern and a component find makes up what the whole pattern finds. -/
theorem join (hd : IsFound (Path.split pattern).1 d) (hx : IsFound (Path.split pattern).2 x)
    (habs : isAbsolute d = true) (hrel : isAbsolute x = false) :
    IsFound pattern (Path.join d x) where
  root := by rw [rootOf_join habs hrel, hd.root, rootOf_split]
  stands := by
    rw [components_join d hrel, ← components_split pattern]
    exact hd.stands.append hx.stands
  parts n hn := by
    rw [components_join d hrel] at hn
    rw [← components_split pattern]
    rcases List.mem_append.1 hn with hn | hn
    · exact (hd.parts n hn).imp_right (List.mem_append_left _)
    · exact (hx.parts n hn).imp_right (List.mem_append_right _)

end IsFound

/-- Names joined are found by what takes them. -/
theorem isFound_intercalate {ns : List Text} (hc : '/' ∉ c) (hne : c ≠ []) (htake : Takes c ns)
    (hns : ∀ n ∈ ns, IsName n) : IsFound c (List.intercalate ['/'] ns) where
  root := by
    have hempty : ∀ p, isAbsolute p = false → rootOf p = [] := fun p hp => by
      by_contra hroot
      exact absurd (isAbsolute_iff_rootOf.2 hroot) (by simp [hp])
    rw [hempty _ (isAbsolute_intercalate hns), hempty _ (isAbsolute_eq_false hc)]
  stands := by
    rw [components_intercalate hns, components_of_notMem hc, if_neg hne]
    exact stands_singleton_iff.2 htake
  parts n hn := by
    rw [components_intercalate hns] at hn
    exact Or.inl (hns n hn)

/-- A component finds names in a directory, or itself. -/
theorem findIn_outcome (hnamed : h.IsNamed) (directoriesOnly : Bool) (d : Text) (hc : '/' ∉ c) :
    Outcome (IsFound c) ('\x00' ∈ d) (findIn h directoriesOnly d c) := by
  rw [findIn]
  split
  · next hany =>
    subst hany
    refine (pathsBelow_outcome hnamed directoriesOnly Host.maxPathBytes d).map fun ps hps x hx => ?_
    have hcases : x = [] ∨ x ∈ ps := by
      split at hx
      · exact List.mem_cons.1 hx
      · exact Or.inr hx
    rcases hcases with rfl | hx
    · show IsFound anyDepth (List.intercalate ['/'] [])
      exact isFound_intercalate hc (by decide) (.anyDepth (List.forall_mem_nil _))
        (List.forall_mem_nil _)
    · obtain ⟨ns, -, hns, rfl⟩ := hps x hx
      exact isFound_intercalate hc (by decide) (.anyDepth fun n hn => (hns n hn).2)
        fun n hn => (hns n hn).1
  next hany =>
  split
  · next hmagic =>
    refine (namesIn_outcome hnamed directoriesOnly d).map fun names hnames n hn => ?_
    obtain ⟨hn, hmatch⟩ := List.mem_filter.1 hn
    rw [Bool.and_eq_true, Bool.or_eq_true, Bool.not_eq_true'] at hmatch
    have hne : c ≠ [] := by
      rintro rfl
      cases hmagic
    have htake : Takes c [n] := .one hany hmagic hmatch.2 fun hhidden =>
      hmatch.1.resolve_right (by simp [hhidden])
    have hfound := isFound_intercalate hc hne htake (List.forall_mem_singleton.2 (hnames n hn))
    rwa [List.intercalate_singleton] at hfound
  · next hmagic =>
    rw [Bool.not_eq_true] at hmagic
    refine .ok fun x hx => ?_
    have hself : x = c := by
      rw [existingName] at hx
      split at hx
      · next hnil =>
        rw [List.isEmpty_iff.1 hnil]
        split at hx
        · exact List.mem_singleton.1 hx
        · exact absurd hx List.not_mem_nil
      · split at hx
        · exact List.mem_singleton.1 hx
        · exact absurd hx List.not_mem_nil
    rw [hself]
    exact .refl hmagic

theorem mem_of_mem_split {p : Text} {c : Char} (hc : c ∈ (Path.split p).1) : c ∈ p := by
  obtain ⟨s, -, hcut, -⟩ := exists_split p
  rw [hcut]
  exact List.mem_append_left _ hc

/-- The directory of a pattern that is not searched itself is taken as it is written. -/
theorem isFound_directory {pattern : Text} (hmagic : NamePattern.hasMagic pattern = true)
    (hself : ¬((Path.split pattern).1 ≠ pattern ∧
      NamePattern.hasMagic (Path.split pattern).1 = true)) :
    IsFound (Path.split pattern).1 (Path.split pattern).1 := by
  refine .refl ?_
  by_contra hdirectory
  rw [Bool.not_eq_false] at hdirectory
  by_cases heq : (Path.split pattern).1 = pattern
  · have hslashes := eq_slash_of_split_eq heq
    rw [NamePattern.hasMagic, List.any_eq_true] at hmagic
    obtain ⟨c, hc, hspecial⟩ := hmagic
    rw [hslashes c hc] at hspecial
    exact absurd hspecial (by decide)
  · exact hself ⟨heq, hdirectory⟩

/-- **What a search finds** stands for the pattern. -/
theorem paths_outcome (hnamed : h.IsNamed) (directoriesOnly : Bool) {pattern : Text}
    (hp : isAbsolute pattern = true) :
    Outcome (IsFound pattern) ('\x00' ∈ pattern) (paths h directoriesOnly pattern) := by
  rw [paths]
  split
  · next hmagic =>
    refine .ok fun q hq => ?_
    have hself : q = pattern := by
      split at hq <;> split at hq
      all_goals first
        | exact List.mem_singleton.1 hq
        | exact absurd hq List.not_mem_nil
    rw [hself]
    exact .refl hmagic
  next hmagic =>
  rw [Bool.not_eq_false] at hmagic
  have hdirectory : isAbsolute (Path.split pattern).1 = true := by
    rw [isAbsolute_iff_rootOf, rootOf_split, ← isAbsolute_iff_rootOf]
    exact hp
  split
  · next hempty =>
    rw [List.isEmpty_iff.1 hempty] at hdirectory
    exact absurd hdirectory nofun
  next hne =>
  have hdirectories : Outcome (IsFound (Path.split pattern).1) ('\x00' ∈ pattern)
      (if _h : (Path.split pattern).1 ≠ pattern ∧
          NamePattern.hasMagic (Path.split pattern).1 = true then
        paths h true (Path.split pattern).1
      else .ok [(Path.split pattern).1]) := by
    split
    · next hshorter => exact (paths_outcome hnamed true hdirectory).imp_null mem_of_mem_split
    · next hself => exact .ok (List.forall_mem_singleton.2 (isFound_directory hmagic hself))
  generalize (if _h : (Path.split pattern).1 ≠ pattern ∧
      NamePattern.hasMagic (Path.split pattern).1 = true then paths h true (Path.split pattern).1
    else .ok [(Path.split pattern).1]) = directories at hdirectories ⊢
  cases directories with
  | error e =>
    obtain ⟨rfl, hnull⟩ := hdirectories.fault e rfl
    exact .error hnull
  | ok ds =>
    refine .flatten fun d hd => ?_
    have hfound := hdirectories.sound ds rfl d hd
    have hslash : '/' ∉ (Path.split pattern).2 := (exists_split pattern).choose_spec.2.2.1
    refine ((findIn_outcome hnamed directoriesOnly d hslash).imp_null fun hnull =>
      mem_of_mem_split (hfound.null_mem hnull)).map fun xs hxs q hq => ?_
    obtain ⟨x, hx, rfl⟩ := List.mem_map.1 hq
    refine hfound.join (hxs x hx) (hfound.isAbsolute_eq.trans hdirectory) ?_
    rw [(hxs x hx).isAbsolute_eq]
    exact isAbsolute_eq_false hslash
  termination_by pattern.length
  decreasing_by exact length_split_lt (And.left ‹_›)

end Bindery.Search

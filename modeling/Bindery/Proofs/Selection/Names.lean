import Bindery.Proofs.Entries
import Bindery.Proofs.Outcome
import Bindery.Selection.Basic

/-!
# Canonical selections

Every selection that is made of names is canonical: the names have no blanks at their ends, none is
empty and none comes twice, and there is at least one.  Names of this kind are selected as they are.

* `Selection.Canonical`: `Selection.canonical_ofNames`, `Selection.ofNames_of_clean`.
* `Selection.IsMade`: how selections come about; all of them are canonical.
-/

namespace Bindery.Selection

/-- Names as a selection has them: trimmed, not empty and all different. -/
structure Clean (names : List Text) : Prop where
  nodup : names.Nodup
  trim_eq : ∀ n ∈ names, Text.trim n = n
  ne_nil : ∀ n ∈ names, n ≠ []

theorem Clean.nil : Clean [] :=
  ⟨List.nodup_nil, fun _ hn => absurd hn List.not_mem_nil, fun _ hn => absurd hn List.not_mem_nil⟩

theorem Clean.singleton {names : List Text} (hnames : Clean names) {n : Text} (hn : n ∈ names) :
    Clean [n] where
  nodup := List.nodup_singleton n
  trim_eq _ hm := List.mem_singleton.1 hm ▸ hnames.trim_eq n hn
  ne_nil _ hm := List.mem_singleton.1 hm ▸ hnames.ne_nil n hn

theorem Clean.perm {names names' : List Text} (hnames : Clean names) (hperm : names'.Perm names) :
    Clean names' where
  nodup := hperm.nodup_iff.2 hnames.nodup
  trim_eq n hn := hnames.trim_eq n (hperm.subset hn)
  ne_nil n hn := hnames.ne_nil n (hperm.subset hn)

theorem Clean.filter {names : List Text} (hnames : Clean names) (keep : Text → Bool) :
    Clean (names.filter keep) where
  nodup := hnames.nodup.filter keep
  trim_eq n hn := hnames.trim_eq n (List.mem_of_mem_filter hn)
  ne_nil n hn := hnames.ne_nil n (List.mem_of_mem_filter hn)

/-- What is left of any names. -/
theorem clean_eraseDups (names : List Text) :
    Clean ((names.map Text.trim).filter (!·.isEmpty)).eraseDups where
  nodup := Entries.nodup_eraseDups _
  trim_eq n hn := by
    obtain ⟨m, -, rfl⟩ := List.mem_map.1 (List.mem_of_mem_filter (List.mem_eraseDups.1 hn))
    exact Text.trim_trim m
  ne_nil n hn := by simpa using (List.mem_filter.1 (List.mem_eraseDups.1 hn)).2

/-- Names are selected as they are. -/
theorem ofNames_of_clean {names : List Text} (hnames : Clean names) :
    ofNames names = if names = [] then .none else .profiles names := by
  have htrim : names.map Text.trim = names :=
    (List.map_congr_left hnames.trim_eq).trans (List.map_id names)
  have hfilter : names.filter (!·.isEmpty) = names :=
    List.filter_eq_self.2 fun n hn => by simpa using hnames.ne_nil n hn
  rw [ofNames, htrim, hfilter, Entries.eraseDups_of_nodup hnames.nodup]
  cases names <;> rfl

/-- A selection of names has at least one, and they are clean. -/
def Canonical : Selection → Prop
  | .profiles names => names ≠ [] ∧ Clean names
  | _ => True

theorem canonical_ofNames (names : List Text) : (ofNames names).Canonical := by
  have hclean := clean_eraseDups names
  rw [ofNames]
  split
  · exact trivial
  · next hne => exact ⟨hne, hclean⟩

/-- A selected name is one of the names, but for blanks at its ends. -/
theorem exists_trim_of_mem_names {names : List Text} {n : Text} (hn : n ∈ (ofNames names).names) :
    ∃ m ∈ names, Text.trim m = n := by
  rw [ofNames] at hn
  split at hn
  · exact absurd hn List.not_mem_nil
  · exact List.mem_map.1 (List.mem_of_mem_filter (List.mem_eraseDups.1 hn))

/-- The names of a canonical selection make the same selection. -/
theorem Canonical.ofNames_eq {names : List Text} (h : (profiles names).Canonical) :
    ofNames names = .profiles names := by
  rw [ofNames_of_clean h.2, if_neg h.1]

/-- How selections come about. -/
inductive IsMade : Selection → Prop
  | none : IsMade .none
  | allFiles : IsMade .allFiles
  | ofNames (names : List Text) : IsMade (ofNames names)
  | ofValues {values : List Json} {s : Selection} (hs : ofValues values = .ok s) : IsMade s
  | ofJson (v : Json) : IsMade (ofJson v)

theorem canonical_ofJson (v : Json) : (ofJson v).Canonical := by
  cases v with
  | object members =>
    rw [ofJson]
    split
    · split
      · exact trivial
      split
      · split
        · exact canonical_ofNames _
        · exact trivial
      · exact trivial
    · exact trivial
  | _ => exact trivial

theorem IsMade.canonical {s : Selection} (h : s.IsMade) : s.Canonical := by
  cases h with
  | none => exact trivial
  | allFiles => exact trivial
  | ofNames names => exact canonical_ofNames names
  | ofValues hs =>
    obtain ⟨names, -, rfl⟩ := map_eq_ok_iff.1 hs
    exact canonical_ofNames names
  | ofJson v => exact canonical_ofJson v

/-- A canonical selection has clean names, and has them exactly if it is one of profiles. -/
theorem canonical_iff {s : Selection} :
    s.Canonical ↔ Clean s.names ∧ (s.mode = "profiles".toList ↔ s.names ≠ []) := by
  cases s with
  | none => exact iff_of_true trivial ⟨Clean.nil, by decide⟩
  | allFiles => exact iff_of_true trivial ⟨Clean.nil, by decide⟩
  | profiles names =>
    show names ≠ [] ∧ Clean names ↔ Clean names ∧ (_ = _ ↔ names ≠ [])
    rw [and_comm, iff_true_left (show (profiles names).mode = "profiles".toList from rfl)]

end Bindery.Selection

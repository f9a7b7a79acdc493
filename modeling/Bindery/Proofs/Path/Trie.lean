import Bindery.Path.Trie

/-!
# Marks in a trie

As long as no inserted path has the reserved name among its components, marks stand under that name
only, and every path without it is looked up.

* `Trie.IsMarked`: `Trie.IsMarked.insert`, `Trie.IsMarked.longestPrefix?`.
-/

namespace Bindery.Trie

/-- Marks stand under the reserved name and branches under all others; the marked paths have a
property. -/
inductive IsMarked (P : Text → Prop) : Trie → Prop
  | branch {es : List (Text × Trie)}
      (hmark : ∀ t, Entries.get? es markName = some t → ∃ path, t = .mark path ∧ P path)
      (hbranch : ∀ name t, name ≠ markName → Entries.get? es name = some t → IsMarked P t) :
      IsMarked P (.branch es)

variable {P : Text → Prop} {t : Trie} {path : Text} {names : List Text}

namespace IsMarked

theorem empty : IsMarked P empty :=
  .branch (fun _ h => nomatch h) fun _ _ _ h => nomatch h

theorem exists_branch (ht : t.IsMarked P) : ∃ es, t = .branch es := by
  cases ht
  exact ⟨_, rfl⟩

/-- What stands under the reserved name is a marked path. -/
theorem markOf (ht : t.IsMarked P) : ∀ m, t.markOf = some m → ∃ path, m = .mark path ∧ P path := by
  obtain ⟨hmark, -⟩ := ht
  exact hmark

/-- What stands under a name that is not reserved is such a trie, or nothing does. -/
theorem child {es : List (Text × Trie)} {c : Text} (ht : IsMarked P (.branch es))
    (hc : c ≠ markName) : ((Entries.get? es c).getD Trie.empty).IsMarked P := by
  obtain ⟨-, hbranch⟩ := ht
  cases hget : Entries.get? es c with
  | none => exact .empty
  | some t => exact hbranch c t hc hget

theorem insertAt (ht : t.IsMarked P) (hpath : P path) (hnames : markName ∉ names) :
    ∃ t', Trie.insertAt path t names = .ok t' ∧ t'.IsMarked P := by
  induction names generalizing t with
  | nil =>
    obtain ⟨hmark, hbranch⟩ := ht
    refine ⟨_, rfl, .branch (fun t h => ?_) fun name t hname h => ?_⟩
    · rw [Entries.get?_put, if_pos rfl] at h
      exact ⟨path, (Option.some.inj h).symm, hpath⟩
    · rw [Entries.get?_put, if_neg hname.symm] at h
      exact hbranch name t hname h
  | cons c names ih =>
    obtain ⟨es, rfl⟩ := ht.exists_branch
    rw [List.mem_cons, not_or] at hnames
    obtain ⟨hc, hnames⟩ := hnames
    obtain ⟨t', hinsert, ht'⟩ := ih (ht.child (Ne.symm hc)) hnames
    obtain ⟨hmark, hbranch⟩ := ht
    refine ⟨.branch (Entries.put c t' es), by rw [Trie.insertAt, hinsert], .branch (fun t h => ?_)
      fun name t hname h => ?_⟩
    · rw [Entries.get?_put, if_neg (Ne.symm hc)] at h
      exact hmark t h
    · rw [Entries.get?_put] at h
      split at h
      · exact Option.some.inj h ▸ ht'
      · exact hbranch name t hname h

/-- A path without the reserved name is inserted. -/
theorem insert (ht : t.IsMarked P) (hpath : P path) (hnames : markName ∉ components path) :
    ∃ t', t.insert path = .ok t' ∧ t'.IsMarked P := by
  rw [Trie.insert]
  split
  · exact ⟨t, rfl, ht⟩
  · exact ht.insertAt hpath hnames

theorem insertAll {paths : List Text} (ht : t.IsMarked P) (hpaths : ∀ path ∈ paths, P path)
    (hnames : ∀ path ∈ paths, markName ∉ components path) :
    ∃ t', paths.foldlM Trie.insert t = .ok t' ∧ t'.IsMarked P := by
  induction paths generalizing t with
  | nil => exact ⟨t, rfl, ht⟩
  | cons path paths ih =>
    rw [List.forall_mem_cons] at hpaths hnames
    obtain ⟨t', hinsert, ht'⟩ := ht.insert hpaths.1 hnames.1
    rw [List.foldlM_cons, hinsert]
    exact ih ht' hpaths.2 hnames.2

theorem follow (ht : t.IsMarked P) {last : Option Trie}
    (hlast : ∀ m, last = some m → ∃ path, m = .mark path ∧ P path) (hnames : markName ∉ names) :
    ∃ found, Trie.follow last t names = .ok found ∧
      ∀ m, found = some m → ∃ path, m = .mark path ∧ P path := by
  induction names generalizing t last with
  | nil => exact ⟨last, by rw [Trie.follow], hlast⟩
  | cons c names ih =>
    have ht' := ht
    obtain ⟨hmark, hbranch⟩ := ht'
    rename_i es
    rw [List.mem_cons, not_or] at hnames
    obtain ⟨hc, hnames⟩ := hnames
    rw [Trie.follow]
    cases hget : Entries.get? es c with
    | none => exact ⟨last, rfl, hlast⟩
    | some child =>
      have hchild := hbranch c child (Ne.symm hc) hget
      cases child with
      | mark path => cases hchild
      | branch es' =>
        refine ih hchild (fun m hm => ?_) hnames
        rcases Option.or_eq_some_iff.1 hm with hm | ⟨-, hm⟩
        · exact hchild.markOf m hm
        · exact hlast m hm

/-- A path without the reserved name is looked up, and what is found is the mark of a path. -/
theorem longestPrefix? (ht : t.IsMarked P) (hnames : markName ∉ components path) :
    t.longestPrefix? path = .ok none ∨
      ∃ root, t.longestPrefix? path = .ok (some (.mark root)) ∧ P root := by
  rw [Trie.longestPrefix?]
  split
  · exact Or.inl rfl
  · obtain ⟨found, hfollow, hfound⟩ := ht.follow ht.markOf hnames
    cases found with
    | none => exact Or.inl hfollow
    | some m =>
      obtain ⟨root, rfl, hroot⟩ := hfound m rfl
      exact Or.inr ⟨root, hfollow, hroot⟩

end IsMarked

end Bindery.Trie

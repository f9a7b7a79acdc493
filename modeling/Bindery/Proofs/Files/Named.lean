import Bindery.Proofs.Files.Plain
import Bindery.Proofs.Path.Components

/-!
# File trees with links

In a tree whose entries have proper names, symbolic links allowed, a directory lists proper names
only, and a path leads to the same file when it is normalized, as long as it has no `..`.

* `Node.isNamed`, `Host.IsNamed`: every entry has a proper name.
* `Host.IsNamed.isName_of_mem_entries`: what a directory lists.
* `Host.isFile_normalize`: files and normalized paths.
-/

namespace Bindery

/-! ## Trees -/

namespace Node

mutual

/-- Whether all entries of a tree have proper names. -/
def isNamed : Node → Bool
  | .file _ _ => true
  | .link _ => true
  | .directory es => areNamed es

/-- Whether entries, and all below them, have proper names. -/
def areNamed : List (Text × Node) → Bool
  | [] => true
  | (name, n) :: r => decide (Path.IsName name) && (n.isNamed && areNamed r)

end

theorem areNamed_iff {es : List (Text × Node)} :
    areNamed es = true ↔ ∀ e ∈ es, Path.IsName e.1 ∧ e.2.isNamed = true := by
  induction es with
  | nil => simp [areNamed]
  | cons e r ih =>
    obtain ⟨name, n⟩ := e
    rw [areNamed, Bool.and_eq_true, Bool.and_eq_true, decide_eq_true_eq, ih, List.forall_mem_cons,
      and_assoc]

mutual

theorem isNamed_of_isPlain : ∀ n : Node, n.isPlain = true → n.isNamed = true
  | .file _ _, _ => rfl
  | .link _, h => nomatch h
  | .directory es, h => areNamed_of_arePlain es h

theorem areNamed_of_arePlain : ∀ es : List (Text × Node), arePlain es = true → areNamed es = true
  | [], _ => rfl
  | (name, n) :: r, h => by
    rw [arePlain, Bool.and_eq_true, Bool.and_eq_true] at h
    rw [areNamed, h.1, isNamed_of_isPlain n h.2.1, areNamed_of_arePlain r h.2.2]
    rfl

end

theorem isNamed_of_get? {n m : Node} {place : List Text} (hn : n.isNamed = true)
    (h : n.get? place = some m) : m.isNamed = true := by
  induction place generalizing n with
  | nil =>
    obtain rfl := Option.some.inj h
    exact hn
  | cons name place ih =>
    obtain ⟨es, rfl, -⟩ := exists_directory_of_get?_cons h
    rw [get?_cons, Option.bind_eq_some_iff] at h
    obtain ⟨child, hchild, h⟩ := h
    exact ih (areNamed_iff.1 hn _ (Entries.mem_of_get?_eq_some hchild)).2 h

end Node

namespace Host

open Bindery.Path

/-- The entries of a host's tree have proper names. -/
structure IsNamed (h : Host) : Prop where
  isNamed : h.tree.isNamed = true

theorem IsPlain.isNamed {h : Host} (hplain : h.IsPlain) : h.IsNamed :=
  ⟨Node.isNamed_of_isPlain h.tree hplain.isPlain⟩

variable {h : Host} {purpose : Purpose}

/-! ## What paths lead to -/

/-- A walk ends at a node of the tree. -/
theorem exists_place_of_walk {tree n : Node} {links : Nat} {place names found : List Text}
    (hwalk : walk tree purpose links place names = .ok ⟨found, some n⟩) :
    ∃ place, tree.get? place = some n := by
  fun_induction walk tree purpose links place names with
  | case1 => exact ⟨_, (Location.mk.inj (Except.ok.inj hwalk)).2⟩
  | case2 _ _ _ _ _ ih | case3 _ _ _ _ ih => exact ih hwalk
  | case8 _ _ _ _ _ _ _ _ _ _ ih | case13 _ _ _ _ _ _ _ _ _ _ _ _ ih => exact ih hwalk
  | case9 _ _ _ _ _ _ _ _ _ _ hfile | case11 _ _ _ _ _ _ _ _ _ hfile =>
    obtain ⟨-, hn⟩ := Location.mk.inj (Except.ok.inj hwalk)
    exact ⟨_, hfile.trans hn⟩
  | case6 => cases (Location.mk.inj (Except.ok.inj hwalk)).2
  | case4 | case5 | case7 | case10 | case12 => cases hwalk

/-- The nodes that paths lead to are in the tree, unless the working directory is removed. -/
theorem exists_place_of_nodeAt {p : Text} {n : Node} (hn : h.nodeAt purpose p = .ok n) :
    (∃ place, h.tree.get? place = some n) ∨ n = .emptyDirectory := by
  have hhere : ∀ names place, h.walkHere purpose names = .ok ⟨place, some n⟩ →
      (∃ place, h.tree.get? place = some n) ∨ n = .emptyDirectory := by
    intro names place hwalk
    rw [walkHere] at hwalk
    split at hwalk
    · cases hwalk
    · exact Or.inl (exists_place_of_walk hwalk)
    · exact Or.inr (Option.some.inj (Location.mk.inj (Except.ok.inj hwalk)).2).symm
  have hlocate : ∀ place, h.locate purpose p = .ok ⟨place, some n⟩ →
      (∃ place, h.tree.get? place = some n) ∨ n = .emptyDirectory := by
    intro place hp
    rw [locate] at hp
    split at hp
    · cases hp
    split at hp
    · cases hp
    split at hp
    · cases hp
    dsimp only at hp
    cases hfound : (if isAbsolute p then walk h.tree purpose maxLinks [] (p.splitOn '/')
        else h.walkHere purpose (p.splitOn '/')) with
    | error e =>
      rw [hfound] at hp
      cases hp
    | ok found =>
      rw [hfound] at hp
      obtain rfl := Except.ok.inj hp
      split at hfound
      · exact Or.inl (exists_place_of_walk hfound)
      · exact hhere _ _ hfound
  rw [nodeAt] at hn
  split at hn
  · cases hn
  · next place m hm =>
    obtain rfl := Except.ok.inj hn
    exact hlocate place hm
  · cases hn

/-- Only a null character in a path keeps the file system from being asked. -/
theorem nodeAt_fault {p : Text} {e : Fault} (he : h.nodeAt purpose p = .error e) :
    (∃ cause, e = .file cause) ∨ (e = .nullCharacter ∧ '\x00' ∈ p) := by
  by_cases hnull : '\x00' ∈ p
  · rw [nodeAt_of_null h purpose hnull] at he
    exact Or.inr ⟨(Except.error.inj he).symm, hnull⟩
  · exact Or.inl (exists_fileError hnull he)

/-- What is no directory is a file error; only a null character is anything else. -/
theorem entries_fault {p : Text} {e : Fault} (he : h.entries p = .error e) :
    (∃ cause, e = .file cause) ∨ (e = .nullCharacter ∧ '\x00' ∈ p) := by
  rw [entries] at he
  cases hnode : h.node p with
  | error e' =>
    rw [hnode] at he
    obtain rfl := Except.error.inj he
    exact nodeAt_fault hnode
  | ok m =>
    rw [hnode] at he
    cases m with
    | file _ _ => exact Or.inl ⟨_, (Except.error.inj he).symm⟩
    | link _ => exact Or.inl ⟨_, (Except.error.inj he).symm⟩
    | directory _ => exact absurd he nofun

theorem entryNames_fault {p : Text} {e : Fault} (he : h.entryNames p = .error e) :
    (∃ cause, e = .file cause) ∨ (e = .nullCharacter ∧ '\x00' ∈ p) := by
  rw [entryNames] at he
  cases hes : h.entries p with
  | error e' =>
    rw [hes] at he
    obtain rfl := Except.error.inj he
    exact entries_fault hes
  | ok es => exact absurd (hes ▸ he) nofun

/-- The entries of a directory are those of the node that its path leads to. -/
theorem entries_eq_ok_iff {p : Text} {es : List (Text × Node)} :
    h.entries p = .ok es ↔ h.node p = .ok (.directory es) := by
  rw [entries]
  cases h.node p with
  | error e => exact ⟨nofun, nofun⟩
  | ok m =>
    cases m with
    | file _ _ => exact ⟨nofun, nofun⟩
    | link _ => exact ⟨nofun, nofun⟩
    | directory es' =>
      exact ⟨fun hes => by rw [Except.ok.inj hes], fun hes => by
        rw [Node.directory.inj (Except.ok.inj hes)]⟩

namespace IsNamed

/-- A directory lists proper names only. -/
theorem isName_of_mem_entries (hnamed : h.IsNamed) {p : Text} {es : List (Text × Node)}
    (hes : h.entries p = .ok es) : ∀ e ∈ es, IsName e.1 := by
  intro e he
  rcases exists_place_of_nodeAt (entries_eq_ok_iff.1 hes) with ⟨place, hplace⟩ | hempty
  · exact (Node.areNamed_iff.1 (Node.isNamed_of_get? hnamed.isNamed hplace) e he).1
  · obtain rfl := Node.directory.inj hempty
    exact absurd he List.not_mem_nil

theorem isName_of_mem_entryNames (hnamed : h.IsNamed) {p : Text} {names : List Text}
    (hnames : h.entryNames p = .ok names) : ∀ n ∈ names, IsName n := by
  rw [entryNames] at hnames
  cases hes : h.entries p with
  | error e => exact absurd (hes ▸ hnames) nofun
  | ok es =>
    rw [hes] at hnames
    obtain rfl := Except.ok.inj hnames
    intro n hn
    obtain ⟨e, he, rfl⟩ := List.mem_map.1 hn
    exact hnamed.isName_of_mem_entries hes e he

end IsNamed

/-! ## Normalized paths -/

/-- A list of components has all those of another, in their order, but for some that lead
nowhere. -/
inductive Shortens : List Text → List Text → Prop
  | nil : Shortens [] []
  | skip {c : Text} {cs ds : List Text} (hc : c = [] ∨ c = ['.']) (h : Shortens cs ds) :
      Shortens (c :: cs) ds
  | keep {c : Text} {cs ds : List Text} (h : Shortens cs ds) : Shortens (c :: cs) (c :: ds)

theorem Shortens.append_left (bs : List Text) {cs ds : List Text} (h : Shortens cs ds) :
    Shortens (bs ++ cs) (bs ++ ds) := by
  induction bs with
  | nil => exact h
  | cons b bs ih => exact .keep ih

/-- What a path leads to, it leads to without the components that lead nowhere. -/
theorem walk_of_shortens {tree n : Node} {links : Nat} {place names names' found : List Text}
    (hshort : Shortens names names')
    (hwalk : walk tree .target links place names = .ok ⟨found, some n⟩) :
    walk tree .target links place names' = .ok ⟨found, some n⟩ := by
  fun_induction walk tree .target links place names generalizing names' with
  | case1 =>
    cases hshort
    rwa [walk]
  | case2 _ _ _ _ hskip ih =>
    cases hshort with
    | skip _ hshort => exact ih hshort hwalk
    | keep hshort =>
      rw [walk, if_pos hskip]
      exact ih hshort hwalk
  | case3 _ _ _ hstep ih =>
    cases hshort with
    | skip hskip _ => exact absurd hskip hstep
    | keep hshort =>
      rw [walk, if_neg hstep, if_pos rfl]
      exact ih hshort hwalk
  | case8 _ _ _ _ hstep habove hout hlong es hdir ih =>
    cases hshort with
    | skip hskip _ => exact absurd hskip hstep
    | keep hshort =>
      rw [walk, if_neg hstep, if_neg habove, if_neg (by simp), if_neg hlong, hdir]
      exact ih hshort hwalk
  | case9 _ _ _ rest hstep habove hout hlong bytes stamp hfile hrest =>
    cases hshort with
    | skip hskip _ => exact absurd hskip hstep
    | keep hshort =>
      obtain rfl := List.isEmpty_iff.1 hrest
      cases hshort
      rw [walk, if_neg hstep, if_neg habove, if_neg (by simp), if_neg hlong, hfile]
      exact hwalk
  | case11 _ _ _ _ _ _ _ _ _ _ hentry => cases hentry.2
  | case13 _ _ _ hstep habove hout hlong target hlink hentry =>
    rename_i ih
    cases hshort with
    | skip hskip _ => exact absurd hskip hstep
    | keep hshort =>
      rw [walk, if_neg hstep, if_neg habove, if_neg (by simp), if_neg hlong, hlink]
      exact (if_neg (by simp)).trans
        (ih (hshort.append_left (target.splitOn '/')) hwalk)
  | case6 => cases (Location.mk.inj (Except.ok.inj hwalk)).2
  | case4 | case5 | case7 | case10 | case12 => cases hwalk

theorem shortens_filter (cs : List Text) :
    Shortens cs (cs.filter fun c => !c.isEmpty && c != ['.']) := by
  induction cs with
  | nil => exact .nil
  | cons c cs ih =>
    by_cases hskip : c = [] ∨ c = ['.']
    · rw [List.filter_cons_of_neg]
      · exact .skip hskip ih
      · rcases hskip with rfl | rfl <;> decide
    · rw [List.filter_cons_of_pos]
      · exact .keep ih
      · rw [not_or] at hskip
        simp [hskip]

theorem null_notMem_of_nodeAt {p : Text} {n : Node} (hn : h.nodeAt purpose p = .ok n) :
    '\x00' ∉ p := by
  intro hnull
  rw [nodeAt_of_null h purpose hnull] at hn
  cases hn

theorem walk_splitOn_ofNames {front : Text} {names : List Text} (hfront : IsFront front)
    (hnames : ∀ n ∈ names, IsName n) (tree : Node) (links : Nat) (place : List Text) :
    walk tree purpose links place ((ofNames front names).splitOn '/') =
      walk tree purpose links place names := by
  cases names with
  | nil =>
    rw [ofNames_nil, walk]
    rcases hfront with rfl | rfl
    · change walk tree purpose links place [[], []] = _
      rw [walk_nil_cons, walk_nil_cons, walk]
    · change walk tree purpose links place [[], [], []] = _
      rw [walk_nil_cons, walk_nil_cons, walk_nil_cons, walk]
  | cons n names =>
    rw [splitOn_ofNames hfront (List.cons_ne_nil n names) fun m hm => (hnames m hm).no_slash,
      walk_replicate_nil]

/-- What is left of a path without `..` when it is normalized are names. -/
theorem isName_of_mem_components {p : Text} (hp : isAbsolute p = true)
    (habove : ['.', '.'] ∉ components p) (hnull : '\x00' ∉ normalize p) :
    ∀ n ∈ (components p).filter (· != ['.']), IsName n := by
  intro n hn
  obtain ⟨hc, hhere⟩ := List.mem_filter.1 hn
  obtain ⟨hsplit, hne⟩ := List.mem_filter.1 hc
  exact
    { ne_nil := by simpa using hne
      ne_here := by simpa using hhere
      ne_above := fun h => habove (h ▸ hc)
      no_slash := Text.not_mem_of_mem_splitOn hsplit
      no_null := by
        intro hmem
        rw [normalize_eq_ofNames hp habove] at hnull
        exact hnull (List.mem_append_right _ (Text.mem_intercalate_of_mem '/' hn hmem)) }

/-- A path without `..` leads to the same file when it is normalized. -/
theorem isFile_normalize {p : Text} (hp : isAbsolute p = true) (habove : ['.', '.'] ∉ components p)
    (hfile : h.isFile p = true) : h.isFile (normalize p) = true := by
  obtain ⟨bytes, stamp, hn⟩ := isFile_iff.1 hfile
  have hnull := null_notMem_of_nodeAt hn
  have hsub := normalize_sublist hp habove
  have hnull' : '\x00' ∉ normalize p := fun hmem => hnull (hsub.subset hmem)
  have hnames := isName_of_mem_components hp habove hnull'
  obtain ⟨hshort, found, hwalk⟩ := (nodeAt_eq_ok_iff hp hnull).1 hn
  have hsteps : Shortens (p.splitOn '/') ((components p).filter (· != ['.'])) := by
    have hfilter := shortens_filter (p.splitOn '/')
    rw [components, List.filter_filter]
    simpa only [Bool.and_comm] using hfilter
  refine isFile_iff.2 ⟨bytes, stamp, (nodeAt_eq_ok_iff ?_ hnull').2 ⟨?_, found, ?_⟩⟩
  · rw [normalize_eq_ofNames hp habove]
    exact isAbsolute_ofNames (isFront_rootOf hp) _
  · exact Nat.lt_of_le_of_lt (Utf8.byteLength_le_of_sublist hsub) hshort
  · rw [normalize_eq_ofNames hp habove, walk_splitOn_ofNames (isFront_rootOf hp) hnames]
    exact walk_of_shortens hsteps hwalk

end Host

end Bindery

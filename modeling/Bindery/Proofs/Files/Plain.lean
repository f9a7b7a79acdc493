import Bindery.Files.Host
import Bindery.Proofs.Files.Tree
import Bindery.Proofs.Path.Names
import Bindery.Proofs.Text.Utf8
import Mathlib.Data.List.Induction

/-!
# File trees without links

In a tree without symbolic links a path leads to the place that its names say, if neither the path
nor a name in it is too long.

* `Node.isPlain`: no links, and every entry has a proper name.
* `Host.nodeAt_ofNames`, `Host.nodeAt_ofNames_slash`: what is at the path of a list of names, and
  at the same path with a slash at its end.
* `Host.IsPlain.node_of_append`: every directory on the way to a node is found, and lists the next
  name.
-/

namespace Bindery

/-! ## Trees -/

namespace Node

mutual

/-- Whether a tree has no links and proper names for all entries. -/
def isPlain : Node → Bool
  | .file _ _ => true
  | .link _ => false
  | .directory es => arePlain es

/-- Whether entries have proper names and trees without links. -/
def arePlain : List (Text × Node) → Bool
  | [] => true
  | (name, n) :: r => decide (Path.IsName name) && (n.isPlain && arePlain r)

end

theorem arePlain_iff {es : List (Text × Node)} :
    arePlain es = true ↔ ∀ e ∈ es, Path.IsName e.1 ∧ e.2.isPlain = true := by
  induction es with
  | nil => simp [arePlain]
  | cons e r ih =>
    obtain ⟨name, n⟩ := e
    rw [arePlain, Bool.and_eq_true, Bool.and_eq_true, decide_eq_true_eq, ih, List.forall_mem_cons,
      and_assoc]

/-- Everything in a plain tree is plain. -/
theorem isPlain_of_get? {n m : Node} {place : List Text} (hn : n.isPlain = true)
    (h : n.get? place = some m) : m.isPlain = true := by
  induction place generalizing n with
  | nil =>
    obtain rfl := Option.some.inj h
    exact hn
  | cons name place ih =>
    obtain ⟨es, rfl, -⟩ := exists_directory_of_get?_cons h
    rw [get?_cons, Option.bind_eq_some_iff] at h
    obtain ⟨child, hchild, h⟩ := h
    have hes := arePlain_iff.1 hn
    exact ih (hes _ (Entries.mem_of_get?_eq_some hchild)).2 h

end Node

/-! ## Lengths -/

namespace Path

/-- A path is no longer than one that goes on below it, even with a slash at its end. -/
theorem byteLength_ofNames_le {front : Text} {names more : List Text} (hmore : more ≠ []) :
    Utf8.byteLength (ofNames front (names ++ [[]])) ≤
      Utf8.byteLength (ofNames front (names ++ more)) := by
  rw [← ofNames_append_intercalate hmore, ofNames_concat (List.intercalate ['/'] more),
    Utf8.byteLength_append]
  exact Nat.le_add_right _ _

theorem byteLength_ofNames_le_slash (front : Text) (names : List Text) :
    Utf8.byteLength (ofNames front names) ≤ Utf8.byteLength (ofNames front (names ++ [[]])) := by
  cases names with
  | nil => simp
  | cons n names =>
    rw [ofNames_append (by simp) (by simp), Utf8.byteLength_append]
    exact Nat.le_add_right _ _

/-- A path has no more names than bytes. -/
theorem length_le_byteLength_ofNames (front : Text) {names : List Text}
    (hnames : ∀ n ∈ names, IsName n) : names.length ≤ Utf8.byteLength (ofNames front names) := by
  induction names using List.reverseRecOn with
  | nil => exact Nat.zero_le _
  | append_singleton names n ih =>
    have hinit := ih fun m hm => hnames m (List.mem_append_left _ hm)
    have hn : n ≠ [] := (hnames n (by simp)).ne_nil
    have hpos : 0 < n.length := List.length_pos_iff.2 hn
    have hbytes := Utf8.length_le_byteLength n
    have hslash := byteLength_ofNames_le_slash front names
    rw [ofNames_concat, Utf8.byteLength_append, List.length_append, List.length_singleton]
    omega

end Path

/-! ## Looking up paths -/

namespace Host

open Bindery.Path

/-- The tree of a host has no links, and proper names for all entries. -/
structure IsPlain (h : Host) : Prop where
  isDirectory : h.tree.isDirectory = true
  isPlain : h.tree.isPlain = true

variable {h : Host} {front : Text} {names : List Text} {purpose : Purpose}

/-- A path leads to a file if the node that it leads to is one. -/
theorem isFile_iff {path : Text} :
    h.isFile path = true ↔ ∃ bytes stamp, h.node path = .ok (.file bytes stamp) := by
  rw [isFile]
  constructor
  · intro hfile
    cases hn : h.node path with
    | error e =>
      rw [hn] at hfile
      cases hfile
    | ok n =>
      rw [hn] at hfile
      cases n with
      | file bytes stamp => exact ⟨bytes, stamp, rfl⟩
      | link _ => cases hfile
      | directory _ => cases hfile
  · rintro ⟨bytes, stamp, hn⟩
    rw [hn]
    rfl

theorem walk_nil_cons (tree : Node) (purpose : Purpose) (links : Nat) (place rest : List Text) :
    walk tree purpose links place ([] :: rest) = walk tree purpose links place rest := by
  rw [walk, if_pos (Or.inl rfl)]

theorem walk_replicate_nil (tree : Node) (purpose : Purpose) (links : Nat) (place : List Text)
    (s : Text) (rest : List Text) :
    walk tree purpose links place (s.map (fun _ => []) ++ rest) =
      walk tree purpose links place rest := by
  induction s with
  | nil => rfl
  | cons c s ih => rw [List.map_cons, List.cons_append, walk_nil_cons, ih]

/-- The node that a walk ends at, if it ends at one. -/
def Ends (found : Except FileError Location) (n : Node) : Prop :=
  ∃ place, found = .ok ⟨place, some n⟩

theorem ends_ok_iff {place : List Text} {found : Option Node} {n : Node} :
    Ends (.ok ⟨place, found⟩) n ↔ found = some n := by
  constructor
  · rintro ⟨place', h⟩
    exact (Location.mk.inj (Except.ok.inj h)).2
  · rintro rfl
    exact ⟨place, rfl⟩

theorem not_ends_error {e : FileError} {n : Node} : ¬ Ends (.error e) n :=
  fun ⟨_, h⟩ => absurd h nofun

/-- A walk in a plain tree goes on below a directory, and ends at a file that nothing follows. -/
theorem ends_walk_cons_iff {tree : Node} (htree : tree.isPlain = true)
    (hpurpose : purpose ≠ .output) (links : Nat) {place rest : List Text} {name : Text}
    (hname : IsName name) {n : Node} :
    Ends (walk tree purpose links place (name :: rest)) n ↔
      Utf8.byteLength name ≤ maxNameBytes ∧
        ((∃ es, tree.get? (place ++ [name]) = some (.directory es) ∧
            Ends (walk tree purpose links (place ++ [name]) rest) n) ∨
          ∃ bytes stamp, tree.get? (place ++ [name]) = some (.file bytes stamp) ∧ rest = [] ∧
            n = .file bytes stamp) := by
  rw [walk, if_neg (by simp [hname.ne_nil, hname.ne_here]), if_neg hname.ne_above,
    if_neg (fun hout => hpurpose hout.1)]
  by_cases hlong : maxNameBytes < Utf8.byteLength name
  · rw [if_pos hlong]
    exact ⟨fun h => absurd h not_ends_error, fun h => absurd h.1 (Nat.not_le_of_lt hlong)⟩
  rw [if_neg hlong, and_iff_right (Nat.le_of_not_lt hlong)]
  split
  · next hnone =>
    rw [hnone]
    constructor
    · intro h
      split at h
      · cases ends_ok_iff.1 h
      · exact absurd h not_ends_error
    · rintro (⟨_, h, -⟩ | ⟨_, _, h, -⟩) <;> cases h
  · next es hdir =>
    rw [hdir]
    refine ⟨fun h => Or.inl ⟨es, rfl, h⟩, ?_⟩
    rintro (⟨_, -, h⟩ | ⟨_, _, h, -⟩)
    · exact h
    · cases h
  · next bytes stamp hfile =>
    rw [hfile]
    constructor
    · intro h
      split at h
      · next hrest =>
        exact Or.inr ⟨bytes, stamp, rfl, List.isEmpty_iff.1 hrest,
          (Option.some.inj (ends_ok_iff.1 h)).symm⟩
      · exact absurd h not_ends_error
    · rintro (⟨_, h, -⟩ | ⟨_, _, h, rfl, rfl⟩)
      · cases h
      · exact ends_ok_iff.2 h
  · next target hlink => cases Node.isPlain_of_get? htree hlink

/-- A walk in a plain tree ends at the place that the names say; with a slash at the end of the
path only if that is a directory. -/
theorem ends_walk_iff {tree : Node} (htree : tree.isPlain = true) (hpurpose : purpose ≠ .output)
    (links : Nat) {place : List Text} {slash : List Text} (hslash : slash = [] ∨ slash = [[]])
    (hnames : ∀ n ∈ names, IsName n) {n : Node} :
    Ends (walk tree purpose links place (names ++ slash)) n ↔
      (∀ name ∈ names, Utf8.byteLength name ≤ maxNameBytes) ∧
        tree.get? (place ++ names) = some n ∧
        (names = [] ∨ slash = [] ∨ n.isDirectory = true) := by
  induction names generalizing place with
  | nil =>
    have hwalk : walk tree purpose links place slash = .ok ⟨place, tree.get? place⟩ := by
      rcases hslash with rfl | rfl
      · rw [walk]
      · rw [walk_nil_cons, walk]
    rw [List.nil_append, hwalk, List.append_nil, ends_ok_iff]
    exact ⟨fun h => ⟨List.forall_mem_nil _, h, Or.inl rfl⟩, fun h => h.2.1⟩
  | cons name names ih =>
    rw [List.forall_mem_cons] at hnames
    have hplace : place ++ name :: names = place ++ [name] ++ names := by simp
    rw [List.cons_append, ends_walk_cons_iff htree hpurpose links hnames.1, ih hnames.2,
      List.forall_mem_cons, hplace, Node.get?_append tree (place ++ [name]) names]
    constructor
    · rintro ⟨hshort, ⟨es, hdir, hbytes, hn, hend⟩ | ⟨bytes, stamp, hfile, hrest, rfl⟩⟩
      · refine ⟨⟨hshort, hbytes⟩, hn, Or.inr ?_⟩
        rcases hend with rfl | hend
        · rw [hdir] at hn
          obtain rfl := Option.some.inj hn
          exact Or.inr rfl
        · exact hend
      · obtain ⟨rfl, rfl⟩ := List.append_eq_nil_iff.1 hrest
        rw [hfile]
        exact ⟨⟨hshort, List.forall_mem_nil _⟩, rfl, Or.inr (Or.inl rfl)⟩
    · rintro ⟨⟨hshort, hbytes⟩, hn, hend⟩
      obtain ⟨m, hm, hbelow⟩ := Option.bind_eq_some_iff.1 hn
      have hslashed := hend.resolve_left (List.cons_ne_nil name names)
      refine ⟨hshort, ?_⟩
      cases m with
      | directory es => exact Or.inl ⟨es, hm, hbytes, hn, Or.inr hslashed⟩
      | file bytes stamp =>
        -- Nothing lies below a file, so it is the last name, and no slash follows it.
        cases names with
        | nil =>
          obtain rfl := Option.some.inj hbelow
          have hnone : slash = [] := hslashed.resolve_right Bool.false_ne_true
          exact Or.inr ⟨bytes, stamp, hm, hnone, rfl⟩
        | cons m names => cases hbelow
      | link target => cases Node.isPlain_of_get? htree hm

theorem nodeAt_eq_ok_iff {p : Text} (habs : isAbsolute p = true) (hnull : '\x00' ∉ p) {n : Node} :
    h.nodeAt purpose p = .ok n ↔ Utf8.byteLength p < maxPathBytes ∧
      Ends (walk h.tree purpose maxLinks [] (p.splitOn '/')) n := by
  have hne : p ≠ [] := by
    rintro rfl
    exact absurd habs nofun
  have hlocate : h.locate purpose p =
      if maxPathBytes ≤ Utf8.byteLength p then .error (.file .nameTooLong)
      else (walk h.tree purpose maxLinks [] (p.splitOn '/')).mapError .file := by
    rw [locate, if_neg (by simpa using hnull), if_neg (by simpa using hne)]
    simp only [habs, if_true]
  rw [nodeAt, hlocate]
  by_cases hlong : maxPathBytes ≤ Utf8.byteLength p
  · rw [if_pos hlong]
    constructor
    · exact nofun
    · rintro ⟨hshort, -⟩
      omega
  rw [if_neg hlong]
  cases hwalk : walk h.tree purpose maxLinks [] (p.splitOn '/') with
  | error e =>
    constructor
    · exact nofun
    · rintro ⟨-, place, h⟩
      exact absurd h nofun
  | ok found =>
    obtain ⟨place, _ | m⟩ := found
    · constructor
      · exact nofun
      · rintro ⟨-, place', h⟩
        exact absurd (Location.mk.inj (Except.ok.inj h)).2 nofun
    · constructor
      · intro h
        obtain rfl := Except.ok.inj h
        exact ⟨Nat.lt_of_not_le hlong, place, rfl⟩
      · rintro ⟨-, place', h⟩
        obtain ⟨-, hm⟩ := Location.mk.inj (Except.ok.inj h)
        exact congrArg Except.ok (Option.some.inj hm)

/-- A path with a null character leads nowhere. -/
theorem nodeAt_of_null (h : Host) (purpose : Purpose) {p : Text} (hnull : '\x00' ∈ p) :
    h.nodeAt purpose p = .error .nullCharacter := by
  rw [nodeAt, locate, if_pos (by simpa using hnull)]

/-- A path without null characters leads to a node, or the file system says why it does not. -/
theorem exists_fileError {p : Text} (hnull : '\x00' ∉ p) {e : Fault}
    (herr : h.nodeAt purpose p = .error e) : ∃ cause, e = .file cause := by
  have hlocate : ∀ e, h.locate purpose p = .error e → ∃ cause, e = .file cause := by
    intro e he
    rw [locate, if_neg (by simpa using hnull)] at he
    split at he
    · exact ⟨_, (Except.error.inj he).symm⟩
    · split at he
      · exact ⟨_, (Except.error.inj he).symm⟩
      · dsimp only at he
        generalize (if isAbsolute p then walk h.tree purpose maxLinks [] (p.splitOn '/')
          else h.walkHere purpose (p.splitOn '/')) = found at he
        cases found with
        | error cause => exact ⟨cause, (Except.error.inj he).symm⟩
        | ok _ => exact absurd he nofun
  rw [nodeAt] at herr
  split at herr
  · next e' he' =>
    obtain rfl := Except.error.inj herr
    exact hlocate _ he'
  · exact absurd herr nofun
  · exact ⟨_, (Except.error.inj herr).symm⟩

namespace IsPlain

/-- What is at the path of a list of names. -/
theorem nodeAt_ofNames (hplain : h.IsPlain) (hpurpose : purpose ≠ .output) (hfront : IsFront front)
    (hnames : ∀ n ∈ names, IsName n) {n : Node} :
    h.nodeAt purpose (ofNames front names) = .ok n ↔
      Utf8.byteLength (ofNames front names) < maxPathBytes ∧
        (∀ name ∈ names, Utf8.byteLength name ≤ maxNameBytes) ∧ h.tree.get? names = some n := by
  have hsplit : ∃ slash, (slash = [] ∨ slash = [[]]) ∧ (names = [] ∨ slash = []) ∧
      (ofNames front names).splitOn '/' = front.map (fun _ => []) ++ (names ++ slash) := by
    cases names with
    | nil =>
      refine ⟨[[]], Or.inr rfl, Or.inl rfl, ?_⟩
      rcases hfront with rfl | rfl <;> rfl
    | cons name names =>
      refine ⟨[], Or.inl rfl, Or.inr rfl, ?_⟩
      rw [splitOn_ofNames hfront (by simp) fun m hm => (hnames m hm).no_slash, List.append_nil]
  obtain ⟨slash, hslash, hend, hsplit⟩ := hsplit
  rw [nodeAt_eq_ok_iff (isAbsolute_ofNames hfront names)
    (null_notMem_ofNames hfront fun m hm => (hnames m hm).no_null), hsplit, walk_replicate_nil,
    ends_walk_iff hplain.isPlain hpurpose maxLinks hslash hnames, List.nil_append]
  refine and_congr_right fun _ => and_congr_right fun _ => and_iff_left ?_
  rcases hend with hend | hend
  · exact Or.inl hend
  · exact Or.inr (Or.inl hend)

/-- What is at the path of a list of names with a slash at its end. -/
theorem nodeAt_ofNames_slash (hplain : h.IsPlain) (hpurpose : purpose ≠ .output)
    (hfront : IsFront front) (hnames : ∀ n ∈ names, IsName n) {n : Node} :
    h.nodeAt purpose (ofNames front (names ++ [[]])) = .ok n ↔
      Utf8.byteLength (ofNames front (names ++ [[]])) < maxPathBytes ∧
        (∀ name ∈ names, Utf8.byteLength name ≤ maxNameBytes) ∧
        h.tree.get? names = some n ∧ n.isDirectory = true := by
  have hslash : ∀ m ∈ names ++ [[]], '/' ∉ m := by
    intro m hm
    rcases List.mem_append.1 hm with hm | hm
    · exact (hnames m hm).no_slash
    · exact List.mem_singleton.1 hm ▸ List.not_mem_nil
  have hnull : ∀ m ∈ names ++ [[]], '\x00' ∉ m := by
    intro m hm
    rcases List.mem_append.1 hm with hm | hm
    · exact (hnames m hm).no_null
    · exact List.mem_singleton.1 hm ▸ List.not_mem_nil
  rw [nodeAt_eq_ok_iff (isAbsolute_ofNames hfront _) (null_notMem_ofNames hfront hnull),
    splitOn_ofNames hfront (by simp) hslash, walk_replicate_nil,
    ends_walk_iff hplain.isPlain hpurpose maxLinks (Or.inr rfl) hnames, List.nil_append]
  refine and_congr_right fun _ => and_congr_right fun _ => and_congr_right fun hn => ?_
  constructor
  · rintro (rfl | hnil | hdir)
    · obtain rfl := Option.some.inj hn
      exact hplain.isDirectory
    · exact absurd hnil (List.cons_ne_nil _ _)
    · exact hdir
  · exact fun hdir => Or.inr (Or.inr hdir)

theorem node_ofNames (hplain : h.IsPlain) (hfront : IsFront front) (hnames : ∀ n ∈ names, IsName n)
    {n : Node} :
    h.node (ofNames front names) = .ok n ↔
      Utf8.byteLength (ofNames front names) < maxPathBytes ∧
        (∀ name ∈ names, Utf8.byteLength name ≤ maxNameBytes) ∧ h.tree.get? names = some n :=
  hplain.nodeAt_ofNames (show Purpose.target ≠ .output from nofun) hfront hnames

theorem node_ofNames_slash (hplain : h.IsPlain) (hfront : IsFront front)
    (hnames : ∀ n ∈ names, IsName n) {n : Node} :
    h.node (ofNames front (names ++ [[]])) = .ok n ↔
      Utf8.byteLength (ofNames front (names ++ [[]])) < maxPathBytes ∧
        (∀ name ∈ names, Utf8.byteLength name ≤ maxNameBytes) ∧
        h.tree.get? names = some n ∧ n.isDirectory = true :=
  hplain.nodeAt_ofNames_slash (show Purpose.target ≠ .output from nofun) hfront hnames

/-- What is at a path with a slash at its end is a directory, and is there under either
spelling. -/
theorem node_of_slash (hplain : h.IsPlain) (hfront : IsFront front) (hnames : ∀ n ∈ names, IsName n)
    {n : Node} (hn : h.node (ofNames front (names ++ [[]])) = .ok n) :
    n.isDirectory = true ∧ ∀ d, Spells front names d → h.node d = .ok n := by
  obtain ⟨hbytes, hshort, hplace, hdir⟩ := (hplain.node_ofNames_slash hfront hnames).1 hn
  refine ⟨hdir, ?_⟩
  rintro d (rfl | rfl)
  · exact (hplain.node_ofNames hfront hnames).2
      ⟨Nat.lt_of_le_of_lt (byteLength_ofNames_le_slash front names) hbytes, hshort, hplace⟩
  · exact hn

/-- A directory lists proper names only. -/
theorem isName_of_mem (hplain : h.IsPlain) (hfront : IsFront front) (hnames : ∀ n ∈ names, IsName n)
    {d : Text} (hd : Spells front names d) {es : List (Text × Node)}
    (hes : h.node d = .ok (.directory es)) : ∀ n ∈ es.map Prod.fst, IsName n := by
  have hplace : h.tree.get? names = some (.directory es) := by
    rcases hd with rfl | rfl
    · exact ((hplain.node_ofNames hfront hnames).1 hes).2.2
    · exact ((hplain.node_ofNames_slash hfront hnames).1 hes).2.2.1
  have hentries := Node.arePlain_iff.1 (Node.isPlain_of_get? hplain.isPlain hplace)
  intro n hn
  obtain ⟨e, he, rfl⟩ := List.mem_map.1 hn
  exact (hentries e he).1

/-- Without links, an entry is there exactly when its path leads to something. -/
theorem hasEntry_ofNames (hplain : h.IsPlain) (hfront : IsFront front)
    (hnames : ∀ n ∈ names, IsName n) :
    h.hasEntry (ofNames front names) = true ↔ ∃ n, h.node (ofNames front names) = .ok n := by
  have hsame : ∀ n, h.linkNode (ofNames front names) = .ok n ↔
      h.node (ofNames front names) = .ok n := by
    intro n
    rw [hplain.node_ofNames hfront hnames]
    exact hplain.nodeAt_ofNames (show Purpose.entry ≠ .output from nofun) hfront hnames
  simp only [← hsame]
  rw [hasEntry]
  cases h.linkNode (ofNames front names) with
  | error e => simp
  | ok n => simp

/-- A path with a slash at its end leads to no file. -/
theorem isFile_ofNames_slash (hplain : h.IsPlain) (hfront : IsFront front)
    (hnames : ∀ n ∈ names, IsName n) : h.isFile (ofNames front (names ++ [[]])) = false := by
  rw [Bool.eq_false_iff]
  intro hfile
  obtain ⟨bytes, stamp, hn⟩ := isFile_iff.1 hfile
  obtain ⟨-, -, -, hdir⟩ := (hplain.node_ofNames_slash hfront hnames).1 hn
  cases hdir

/-- Every directory on the way to a node is found under either spelling, and lists the next
name. -/
theorem node_of_append (hplain : h.IsPlain) (hfront : IsFront front) {name : Text}
    {more : List Text} (hnames : ∀ n ∈ names ++ name :: more, IsName n) {n : Node}
    (hn : h.node (ofNames front (names ++ name :: more)) = .ok n) :
    ∃ es, name ∈ es.map Prod.fst ∧
      ∀ d, Spells front names d → h.node d = .ok (.directory es) := by
  have hinit : ∀ n ∈ names, IsName n := fun n hn => hnames n (List.mem_append_left _ hn)
  obtain ⟨hbytes, hshort, hplace⟩ := (hplain.node_ofNames hfront hnames).1 hn
  rw [Node.get?_append, Option.bind_eq_some_iff] at hplace
  obtain ⟨dir, hdir, hbelow⟩ := hplace
  obtain ⟨es, rfl, hname⟩ := Node.exists_directory_of_get?_cons hbelow
  have hinitShort : ∀ n ∈ names, Utf8.byteLength n ≤ maxNameBytes :=
    fun n hn => hshort n (List.mem_append_left _ hn)
  have hslash : Utf8.byteLength (ofNames front (names ++ [[]])) < maxPathBytes :=
    Nat.lt_of_le_of_lt (byteLength_ofNames_le (List.cons_ne_nil name more)) hbytes
  refine ⟨es, hname, ?_⟩
  rintro d (rfl | rfl)
  · exact (hplain.node_ofNames hfront hinit).2
      ⟨Nat.lt_of_le_of_lt (byteLength_ofNames_le_slash front names) hslash, hinitShort, hdir⟩
  · exact (hplain.node_ofNames_slash hfront hinit).2 ⟨hslash, hinitShort, hdir, rfl⟩

end IsPlain

end Host

end Bindery

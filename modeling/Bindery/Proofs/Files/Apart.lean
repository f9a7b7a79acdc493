import Bindery.Proofs.Files.Written
import Bindery.Proofs.Running

/-!
# Changes elsewhere

What a path leads to does not change when a file is written or a directory is made at another
place.  Nothing or a file was where something is made, so no path led on from there.  Only the
working directory has to be one: a path that leads out of anything else would make a directory of
it.

* `Host.ChangedAt`: one place of a tree is changed.
* `Host.ChangedAt.locate`, `Host.ChangedAt.readBytes`: the frame of such a change.
* `Host.Finds.of_makeDirectory`, `Host.Finds.of_writeFile`: what is read by a path afterwards.
* `HostChange.makeDirectories_induction`: what is kept where several directories are made.
-/

namespace Bindery

namespace Host

variable {h next : Host} {place found : List Text} {new n : Node} {p : Text} {purpose : Purpose}
  {location : Location}

/-- The working directory, or what is left of it, is a directory. -/
def HasDirectory (h : Host) : Prop :=
  ∃ es, h.tree.get? h.directory = some (.directory es)

/-- Of two hosts the second has something new at one place: a file where nothing or a file was, or
anything where nothing was. -/
structure ChangedAt (h next : Host) (place : List Text) (new : Node) : Prop where
  isFree : IsFree h.tree place
  new_isFile : new.isFile = true ∨ h.tree.get? place = none
  tree_eq : next.tree = h.tree.set new place
  directory_eq : next.directory = h.directory
  lost_eq : next.lost = h.lost

/-! ## Places that are looked up -/

theorem walk_of_locate (hlocate : h.locate purpose p = .ok location) :
    (∃ start links names, walk h.tree purpose links start names = .ok location ∧
      (start = [] ∨ start = h.directory)) ∨ location = ⟨h.directory, some .emptyDirectory⟩ := by
  rw [locate] at hlocate
  split at hlocate
  · cases hlocate
  split at hlocate
  · cases hlocate
  split at hlocate
  · cases hlocate
  have hfound := eq_ok_of_mapError hlocate
  split at hfound
  · exact Or.inl ⟨_, _, _, hfound, Or.inl rfl⟩
  · rw [walkHere] at hfound
    split at hfound
    · cases hfound
    · exact Or.inl ⟨_, _, _, hfound, Or.inr rfl⟩
    · exact Or.inr (Except.ok.inj hfound).symm

theorem get?_of_locate (hlocate : h.locate purpose p = .ok location)
    (hnode : ∀ es, location.node ≠ some (.directory es)) :
    h.tree.get? location.place = location.node := by
  obtain ⟨_, _, _, hwalk, -⟩ | rfl := walk_of_locate hlocate
  · exact get?_of_walk hwalk
  · exact absurd rfl (hnode [])

/-- Where nothing or a file is found, or no link is followed and nothing is found, something can be
made. -/
theorem isFree_of_locate (hwork : h.HasDirectory) (hlocate : h.locate purpose p = .ok location)
    (hpurpose : purpose = .entry → location.node = none)
    (hnode : ∀ es, location.node ≠ some (.directory es)) : IsFree h.tree location.place := by
  obtain ⟨es, hes⟩ := hwork
  obtain ⟨start, _, _, hwalk, hstart⟩ | rfl := walk_of_locate hlocate
  · refine isFree_of_walk hpurpose hwalk ?_ hnode
    rcases hstart with rfl | rfl
    · exact Node.exists_directory_of_isPrefix List.nil_prefix hes
    · exact ⟨es, hes⟩
  · exact absurd rfl (hnode [])

theorem exists_locate_of_node (hnode : h.node p = .ok n) :
    ∃ found, h.locate .target p = .ok ⟨found, some n⟩ := by
  rw [node, nodeAt] at hnode
  split at hnode
  · cases hnode
  · next found m hlocate => exact ⟨found, Except.ok.inj hnode ▸ hlocate⟩
  · cases hnode

theorem ne_of_none (hnone : h.tree.get? place = none) (hn : h.tree.get? found = some n) :
    found ≠ place := by
  rintro rfl
  exact absurd (hn.symm.trans hnone) (Option.some_ne_none n)

theorem exists_of_isDirectory (hn : n.isDirectory = true) : ∃ es, n = .directory es := by
  cases n with
  | directory es => exact ⟨es, rfl⟩
  | file _ _ => cases hn
  | link _ => cases hn

/-- A file that is put where nothing was. -/
theorem changedAt_put {directory : List Text} {es : List (Text × Node)} {name : Text}
    (hes : h.tree.get? directory = some (.directory es))
    (hnone : h.tree.get? (directory ++ [name]) = none) (bytes : List UInt8) :
    h.ChangedAt (h.put (directory ++ [name]) bytes) (directory ++ [name])
      (.file bytes (.fresh h.clock)) where
  isFree := ⟨directory, name, es, rfl, hes, fun _ hn => absurd rfl (ne_of_none hnone hn)⟩
  new_isFile := Or.inl rfl
  tree_eq := rfl
  directory_eq := rfl
  lost_eq := rfl

namespace ChangedAt

theorem not_directory (hchange : h.ChangedAt next place new) (es : List (Text × Node)) :
    h.tree.get? place ≠ some (.directory es) := by
  obtain ⟨_, _, _, _, _, hfile⟩ := hchange.isFree
  exact fun hes => absurd (hfile _ hes) nofun

theorem hasDirectory (hchange : h.ChangedAt next place new) (hwork : h.HasDirectory) :
    next.HasDirectory := by
  obtain ⟨es, hes⟩ := hwork
  rw [HasDirectory, hchange.tree_eq, hchange.directory_eq]
  exact Node.exists_directory_get?_set_kept hes hchange.not_directory new

/-- What is no directory stays at any other place. -/
theorem get?_kept (hchange : h.ChangedAt next place new) (hn : h.tree.get? found = some n)
    (hdirectory : n.isDirectory = false) (hne : found ≠ place) :
    next.tree.get? found = some n := by
  obtain ⟨directory, name, es, rfl, hes, -⟩ := hchange.isFree
  rw [hchange.tree_eq]
  exact Node.get?_set_kept hes hchange.not_directory new hn hdirectory hne

theorem walk_target (hchange : h.ChangedAt next place new) {links : Nat} {start names : List Text}
    (hwalk : walk h.tree .target links start names = .ok ⟨found, some n⟩) :
    walk next.tree .target links start names = .ok ⟨found, next.tree.get? found⟩ := by
  obtain ⟨directory, name, es, rfl, hes, hfile⟩ := hchange.isFree
  rw [hchange.tree_eq]
  exact walk_target_set hes hfile hchange.new_isFile hwalk

/-- **Frame.** A path leads to the same place as before, and if that is what is left of a removed
working directory to the same node. -/
theorem locate (hchange : h.ChangedAt next place new)
    (hlocate : h.locate .target p = .ok ⟨found, some n⟩) :
    (h.tree.get? found = some n ∧ next.locate .target p = .ok ⟨found, next.tree.get? found⟩) ∨
      n.isDirectory = true ∧ next.locate .target p = .ok ⟨found, some n⟩ := by
  rw [Host.locate] at hlocate ⊢
  split at hlocate
  · cases hlocate
  next hnull =>
  split at hlocate
  · cases hlocate
  next hempty =>
  split at hlocate
  · cases hlocate
  next hshort =>
  rw [if_neg hnull, if_neg hempty, if_neg hshort]
  have hfound := eq_ok_of_mapError hlocate
  dsimp only
  split at hfound
  · next habs =>
    rw [if_pos habs, hchange.walk_target hfound]
    exact Or.inl ⟨get?_of_walk hfound, rfl⟩
  · next habs =>
    rw [if_neg habs, walkHere, hchange.lost_eq, hchange.directory_eq]
    rw [walkHere] at hfound
    split at hfound
    · cases hfound
    · rw [hchange.walk_target hfound]
      exact Or.inl ⟨get?_of_walk hfound, rfl⟩
    · obtain ⟨rfl, hn⟩ := Location.mk.inj (Except.ok.inj hfound)
      obtain rfl := Option.some.inj hn
      exact Or.inr ⟨rfl, rfl⟩

/-- What is no directory is found as before at any other place. -/
theorem locate_of_ne (hchange : h.ChangedAt next place new)
    (hlocate : h.locate .target p = .ok ⟨found, some n⟩) (hn : n.isDirectory = false)
    (hne : h.tree.get? found = some n → found ≠ place) :
    next.locate .target p = .ok ⟨found, some n⟩ := by
  obtain ⟨hnode, heq⟩ | ⟨-, heq⟩ := hchange.locate hlocate
  · rw [heq, hchange.get?_kept hnode hn (hne hnode)]
  · exact heq

/-- Where nothing was there is nothing that a path leads to. -/
theorem node_of_none (hchange : h.ChangedAt next place new) (hnone : h.tree.get? place = none)
    (hnode : h.node p = .ok n) (hn : n.isDirectory = false) : next.node p = .ok n := by
  obtain ⟨found, hlocate⟩ := exists_locate_of_node hnode
  rw [node, nodeAt, hchange.locate_of_ne hlocate hn (ne_of_none hnone)]

/-- There is something at a path still. -/
theorem exists_locate (hchange : h.ChangedAt next place new)
    (hlocate : h.locate .target p = .ok ⟨found, some n⟩) :
    ∃ m, next.locate .target p = .ok ⟨found, some m⟩ := by
  obtain ⟨hnode, heq⟩ | ⟨-, heq⟩ := hchange.locate hlocate
  · rw [heq]
    by_cases hplace : found = place
    · rw [hplace, hchange.tree_eq, Node.get?_set]
      exact ⟨new, rfl⟩
    · cases hn : n.isDirectory with
      | false => exact ⟨n, by rw [hchange.get?_kept hnode hn hplace]⟩
      | true =>
        obtain ⟨es, rfl⟩ := exists_of_isDirectory hn
        obtain ⟨fs, hfs⟩ := Node.exists_directory_get?_set_kept hnode hchange.not_directory new
        exact ⟨.directory fs, by rw [hchange.tree_eq, hfs]⟩
  · exact ⟨n, heq⟩

/-- **Frame.** What is at a path elsewhere is read as before. -/
theorem readBytes (hchange : h.ChangedAt next place new)
    (hlocate : h.locate .target p = .ok ⟨found, some n⟩)
    (hne : h.tree.get? found = some n → found ≠ place) : next.readBytes p = h.readBytes p := by
  have hread : ∀ m, next.locate .target p = .ok ⟨found, some m⟩ →
      (m = n ∨ m.isDirectory = true ∧ n.isDirectory = true) → next.readBytes p = h.readBytes p := by
    intro m hm hsame
    rw [Host.readBytes, Host.readBytes, node, node, nodeAt, nodeAt, hm, hlocate]
    rcases hsame with rfl | ⟨hm', hn'⟩
    · rfl
    · obtain ⟨_, rfl⟩ := exists_of_isDirectory hm'
      obtain ⟨_, rfl⟩ := exists_of_isDirectory hn'
      rfl
  obtain ⟨hnode, heq⟩ | ⟨-, heq⟩ := hchange.locate hlocate
  · cases hn : n.isDirectory with
    | false =>
      rw [hchange.get?_kept hnode hn (hne hnode)] at heq
      exact hread n heq (Or.inl rfl)
    | true =>
      obtain ⟨es, rfl⟩ := exists_of_isDirectory hn
      obtain ⟨fs, hfs⟩ := Node.exists_directory_get?_set_kept hnode hchange.not_directory new
      rw [← hchange.tree_eq] at hfs
      rw [hfs] at heq
      exact hread _ heq (Or.inr ⟨rfl, rfl⟩)
  · exact hread n heq (Or.inl rfl)

end ChangedAt

/-! ## Files that are written and directories that are made -/

/-- A file that is written changes the place that its path leads to afterwards. -/
theorem exists_changedAt_of_writeFile (hwork : h.HasDirectory) {bytes : List UInt8}
    (hwrite : h.writeFile p bytes = .ok next) :
    ∃ place n, h.ChangedAt next place n ∧ next.locate .target p = .ok ⟨place, some n⟩ := by
  rw [writeFile, writeStamped] at hwrite
  split at hwrite
  · cases hwrite
  next place m hlocate =>
  split at hwrite
  · cases hwrite
  next hnode =>
  have hdirectory : ∀ es, m ≠ some (.directory es) := by
    rintro es rfl
    exact hnode rfl
  have hput : h.put place bytes = next := Except.ok.inj hwrite
  refine ⟨place, .file bytes (.fresh h.clock), ?_, ?_⟩
  · rw [← hput]
    have hout : Purpose.output = .entry → m = none := by rintro ⟨⟩
    exact ⟨isFree_of_locate hwork hlocate hout hdirectory, Or.inl rfl, rfl, rfl, rfl⟩
  · rw [← hput]
    exact locate_put hlocate hdirectory bytes

/-- A directory is made where nothing was. -/
theorem exists_changedAt_of_makeDirectory (hwork : h.HasDirectory)
    (hmake : h.makeDirectory p = .ok next) :
    ∃ place, h.tree.get? place = none ∧ h.ChangedAt next place .emptyDirectory := by
  rw [makeDirectory] at hmake
  split at hmake
  · cases hmake
  · cases hmake
  next place hlocate =>
  have hnone : h.tree.get? place = none := get?_of_locate hlocate nofun
  obtain rfl := Except.ok.inj hmake
  exact ⟨place, hnone, isFree_of_locate hwork hlocate (fun _ => rfl) nofun, Or.inr hnone, rfl, rfl,
    rfl⟩

/-! ## What is found by a path -/

/-- In a working directory a path leads to something at a place, and this is read there. -/
structure Finds (h : Host) (p : Text) (found : List Text)
    (content : Except Fault (List UInt8)) : Prop where
  hasDirectory : h.HasDirectory
  exists_locate : ∃ n, h.locate .target p = .ok ⟨found, some n⟩
  readBytes_eq : h.readBytes p = content

/-- Two paths lead to something at one place. -/
def SamePlace (h : Host) (p q : Text) : Prop :=
  ∃ place m n, h.locate .target p = .ok ⟨place, some m⟩ ∧ h.locate .target q = .ok ⟨place, some n⟩

namespace Finds

variable {content : Except Fault (List UInt8)}

theorem of_changedAt (hfinds : h.Finds p found content) (hchange : h.ChangedAt next place new)
    (hne : found ≠ place) : next.Finds p found content := by
  obtain ⟨n, hn⟩ := hfinds.exists_locate
  exact {
    hasDirectory := hchange.hasDirectory hfinds.hasDirectory
    exists_locate := hchange.exists_locate hn
    readBytes_eq := (hchange.readBytes hn fun _ => hne).trans hfinds.readBytes_eq }

theorem get?_ne_none (hfinds : h.Finds p found content) : h.tree.get? found ≠ none := by
  obtain ⟨n, hn⟩ := hfinds.exists_locate
  obtain ⟨_, _, _, hwalk, -⟩ | hlost := walk_of_locate hn
  · exact fun hnone => ne_of_none hnone (get?_of_walk hwalk) rfl
  · obtain ⟨es, hes⟩ := hfinds.hasDirectory
    obtain ⟨rfl, -⟩ := Location.mk.inj hlost
    exact fun hnone => ne_of_none hnone hes rfl

theorem of_makeDirectory {q : Text} (hfinds : h.Finds p found content)
    (hmake : h.makeDirectory q = .ok next) : next.Finds p found content := by
  obtain ⟨place, hnone, hchange⟩ := exists_changedAt_of_makeDirectory hfinds.hasDirectory hmake
  refine hfinds.of_changedAt hchange ?_
  rintro rfl
  exact hfinds.get?_ne_none hnone

/-- After a file was written the same is read by another path, or the two lead to one place. -/
theorem of_writeFile {q : Text} {bytes : List UInt8} (hfinds : h.Finds p found content)
    (hwrite : h.writeFile q bytes = .ok next) :
    next.Finds p found content ∨ next.SamePlace q p := by
  obtain ⟨place, m, hchange, hlocate⟩ := exists_changedAt_of_writeFile hfinds.hasDirectory hwrite
  by_cases hplace : found = place
  · obtain ⟨_, hn⟩ := hfinds.exists_locate
    obtain ⟨n, hn⟩ := hchange.exists_locate hn
    exact Or.inr ⟨place, m, n, hlocate, hplace ▸ hn⟩
  · exact Or.inl (hfinds.of_changedAt hchange hplace)

end Finds

end Host

/-! ## Several directories -/

namespace HostChange

variable {motive : Host → Prop}

theorem makeDirectory_induction
    (hmake : ∀ {h next : Host} {q : Text}, motive h → h.makeDirectory q = .ok next → motive next)
    (path : Path.Parsed) {h : Host} (hh : motive h) :
    motive ((makeDirectory path).run.run h).2 := by
  rw [makeDirectory, run_bind_of_ok (run_get h)]
  split
  · next next hnext => exact hmake hh hnext
  · rw [run_bind, run_liftM]
    cases h.satisfies Node.isDirectory path.toText with
    | error e => exact hh
    | ok isThere => cases isThere <;> exact hh
  · exact hh

/-- What every directory keeps that is made is kept when several are made. -/
theorem makeDirectories_induction
    (hmake : ∀ {h next : Host} {q : Text}, motive h → h.makeDirectory q = .ok next → motive next)
    (path : Path.Parsed) {h : Host} (hh : motive h) :
    motive ((makeDirectories path).run.run h).2 := by
  rw [makeDirectories]
  generalize path.names.length = depth
  induction depth generalizing path h with
  | zero => exact makeDirectory_induction hmake path hh
  | succ depth ih =>
    rw [makeDirectoriesUpTo, run_bind_of_ok (run_get h)]
    split
    · have habove := ih path.parent hh
      rw [run_bind]
      split
      · next hrun =>
        rw [hrun] at habove
        exact makeDirectory_induction hmake path habove
      · next hrun => rwa [hrun] at habove
    · exact makeDirectory_induction hmake path hh

end HostChange

end Bindery

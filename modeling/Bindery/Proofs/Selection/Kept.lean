import Bindery.Proofs.Files.Reached
import Bindery.Proofs.Running
import Bindery.Proofs.Selection.Stored
import Bindery.Settings.Basic

/-!
# A stored selection stays

A selection that was stored is loaded again if the path of its directory still leads to one.  That
is not a matter of course: the file takes the place of whatever had its name before, and the path of
the directory may have led through that.

* `SelectionStore.load_of_save`: what is loaded after a selection was stored, and that loading
  changes nothing.
-/

namespace Bindery

open Bindery.Path (Parsed)

/-! ## Directories that are there -/

namespace Host

variable {h : Host} {p : Parsed}

/-- A path that leads to a directory is no place for a new one. -/
theorem makeDirectory_of_isDirectory (hp : p.IsProper) (hdir : h.isDirectory p.toText = true) :
    h.makeDirectory p.toText = .error (.file .alreadyExists) := by
  rw [isDirectory, node] at hdir
  split at hdir
  · next n hn =>
    obtain ⟨hfits, place, hfollow⟩ := (nodeAt_eq_ok_iff_follow hp).1 hn
    obtain ⟨entry, hentry, hsome⟩ := exists_follow_entry_of_follow_target hfollow rfl
    obtain ⟨m, hm⟩ := Option.isSome_iff_exists.1 hsome
    obtain ⟨place', node'⟩ := entry
    obtain rfl : node' = some m := hm
    rw [makeDirectory, (locate_eq_ok_iff hp).2 ⟨hfits, hentry⟩]
  · cases hdir

end Host

namespace HostChange

variable {h : Host} {p : Parsed}

theorem run_makeDirectory_of_isDirectory (hp : p.IsProper) (hdir : h.isDirectory p.toText = true) :
    (makeDirectory p).run.run h = (.ok (), h) := by
  have hsatisfies : h.satisfies Node.isDirectory p.toText = .ok true := by
    rw [Host.isDirectory] at hdir
    rw [Host.satisfies]
    cases hn : h.node p.toText with
    | error e =>
      rw [hn] at hdir
      cases hdir
    | ok n =>
      rw [hn] at hdir
      exact congrArg Except.ok hdir
  rw [makeDirectory, run_bind_of_ok (run_get h)]
  simp only [Host.makeDirectory_of_isDirectory hp hdir, hsatisfies]
  rw [run_bind_of_ok (run_liftM _ h)]
  rfl

/-- A directory that is there need not be made. -/
theorem run_makeDirectories_of_isDirectory (hp : p.IsProper)
    (hdir : h.isDirectory p.toText = true) : (makeDirectories p).run.run h = (.ok (), h) := by
  have hmake := run_makeDirectory_of_isDirectory hp hdir
  rw [makeDirectories]
  cases p.names.length with
  | zero =>
    rw [makeDirectoriesUpTo]
    exact hmake
  | succ depth =>
    rw [makeDirectoriesUpTo, run_bind_of_ok (run_get h)]
    simp only [Host.makeDirectory_of_isDirectory hp hdir]
    exact hmake

end HostChange

namespace SelectionStore

variable {store : SelectionStore} {directory : Parsed} {name lock : Text}

/-- The file and the lock file of a store are two names in a directory. -/
structure IsIn (store : SelectionStore) (directory : Parsed) (name lock : Text) : Prop where
  isProper : directory.IsProper
  path_eq : store.path = directory.child name
  lockPath_eq : store.lockPath = directory.child lock
  isName_name : Path.IsName name
  isName_lock : Path.IsName lock
  isLookedUp_name : Host.IsLookedUp name
  isLookedUp_lock : Host.IsLookedUp lock
  ne : lock ≠ name

namespace IsIn

theorem isProper_name (hin : store.IsIn directory name lock) : (directory.child name).IsProper :=
  hin.isProper.child ⟨hin.isName_name.ne_nil, hin.isName_name.no_slash⟩

theorem isProper_lock (hin : store.IsIn directory name lock) : (directory.child lock).IsProper :=
  hin.isProper.child ⟨hin.isName_lock.ne_nil, hin.isName_lock.no_slash⟩

theorem parent_eq (hin : store.IsIn directory name lock) : store.path.parent = directory := by
  rw [hin.path_eq, Parsed.parent, Parsed.child, List.dropLast_concat]

end IsIn

/-- The steps of storing a selection. -/
theorem run_save_iff {s : Selection} {h₀ h₁ : Host} :
    (store.save s).run.run h₀ = (.ok (), h₁) ↔
      ∃ made locked : Host,
        (HostChange.makeDirectories store.path.parent).run.run h₀ = (.ok (), made) ∧
          made.ensureFile store.lockPath.toText = .ok locked ∧
            locked.replaceFile store.path (Utf8.encode (encode s)) = .ok h₁ := by
  rw [save]
  constructor
  · intro hsave
    obtain ⟨_, locked, hacquire, hreplace⟩ := exists_of_run_bind hsave
    rw [acquire] at hacquire
    obtain ⟨_, made, hmade, hensure⟩ := exists_of_run_bind hacquire
    exact ⟨made, locked, hmade, HostChange.run_step_iff.1 hensure,
      HostChange.run_step_iff.1 hreplace⟩
  · rintro ⟨made, locked, hmade, hensure, hreplace⟩
    have hacquire : store.acquire.run.run h₀ = (.ok (), locked) := by
      rw [acquire, run_bind_of_ok hmade]
      exact HostChange.run_step_iff.2 hensure
    rw [run_bind_of_ok hacquire]
    exact HostChange.run_step_iff.2 hreplace

/-- What is loaded from a file that taking the lock leaves as it is. -/
theorem load_of_acquire {h locked : Host} {bytes : List UInt8} {stamp : Stamp}
    (hnode : h.node store.path.toText = .ok (.file bytes stamp))
    (hacquire : store.acquire.run.run h = (.ok (), locked))
    (hkept : locked.node store.path.toText = .ok (.file bytes stamp)) :
    store.load.run.run h = (decode bytes, locked) := by
  rw [load, run_bind_of_ok (run_get _), Host.satisfies, hnode, run_bind_of_ok (run_liftM _ _),
    if_neg (by decide), run_bind_of_ok hacquire, run_bind_of_ok (run_get _), Host.readBytes, hkept]
  exact run_liftM _ _

/-- **A stored selection is loaded again**, and loading it changes nothing, if the path of the
directory of its file leads to a directory afterwards. -/
theorem load_of_save (hin : store.IsIn directory name lock) {s : Selection} (hs : s.Canonical)
    {h₀ h₁ : Host} (hsave : (store.save s).run.run h₀ = (.ok (), h₁))
    (hdirectory : h₁.isDirectory directory.toText = true) :
    store.load.run.run h₁ = (.ok s, h₁) := by
  obtain ⟨made, locked, -, hensure, hreplace⟩ := run_save_iff.1 hsave
  rw [hin.lockPath_eq] at hensure
  rw [hin.path_eq] at hreplace
  obtain ⟨hlockFits, place, hmade, hlocked, lockBytes, stamp, hlockFile⟩ :=
    Host.exists_of_ensureFile hin.isProper_lock hin.isLookedUp_lock hensure
  obtain ⟨hfits, found, hfound, hput⟩ :=
    Host.exists_of_replaceFile hin.isProper_name hin.isLookedUp_name hreplace
  -- The path of the directory led to one place throughout.
  obtain rfl : found = place := by
    rcases hlocked with rfl | ⟨-, rfl⟩
    · exact hfound.unique hmade
    · exact hmade.eq_of_put hfound
  have hthere : h₁.LeadsTo directory found := by
    have hstart : (h₁.start? directory).isSome = true := by
      obtain ⟨start, hstart, -⟩ := hfound
      rw [hput, Host.start?_put, hstart]
      rfl
    obtain ⟨after, hafter⟩ := Host.exists_leadsTo_of_isDirectory hin.isProper hdirectory hstart
    rw [hput] at hafter ⊢
    exact hfound.eq_of_put hafter ▸ hafter
  have hnode : h₁.node store.path.toText =
      .ok (.file (Utf8.encode (encode s)) (.fresh locked.clock)) := by
    rw [hin.path_eq]
    refine Host.node_child_of_leadsTo hin.isProper_name hin.isLookedUp_name hfits hthere ?_
    rw [hput, Host.get?_tree_put]
  have hlock : h₁.ensureFile store.lockPath.toText = .ok h₁ := by
    have hkept : h₁.tree.get? (found ++ [lock]) = some (.file lockBytes stamp) := by
      rw [hput]
      exact (Node.get?_set_sibling _ _ found hin.ne).trans hlockFile
    rw [hin.lockPath_eq]
    exact Host.ensureFile_of_leadsTo hin.isProper_lock hin.isLookedUp_lock hlockFits hthere hkept
  have hacquire : store.acquire.run.run h₁ = (.ok (), h₁) := by
    rw [acquire, hin.parent_eq, run_bind_of_ok
      (HostChange.run_makeDirectories_of_isDirectory hin.isProper hdirectory)]
    exact HostChange.run_step_iff.2 hlock
  rw [load_of_acquire hnode hacquire hnode, decode_encode hs]

/-- The files of the program's store are in the state directory. -/
theorem isIn_stateDirectory (settings : Settings) :
    IsIn ⟨settings.selectionPath⟩ (.ofText settings.stateDirectory) "selection.json".toList
      "selection.json.lock".toList := by
  have hname : Parsed.ofText "selection.json".toList = ⟨[], ["selection.json".toList]⟩ := by decide
  have hpath : settings.selectionPath =
      (Parsed.ofText settings.stateDirectory).child "selection.json".toList := by
    rw [Settings.selectionPath, hname]
    rfl
  exact {
    isProper := Parsed.isProper_ofText _
    path_eq := hpath
    lockPath_eq := by
      have hlock : Parsed.nameWithSuffix "selection.json".toList ".json.lock".toList =
          "selection.json.lock".toList := by decide
      rw [lockPath, hpath, Parsed.withSuffix, Parsed.name, Parsed.child, List.dropLast_concat,
        List.getLastD_concat, hlock]
      rfl
    isName_name := by decide
    isName_lock := by decide
    isLookedUp_name := ⟨by decide, by decide, by decide, by decide⟩
    isLookedUp_lock := ⟨by decide, by decide, by decide, by decide⟩
    ne := by decide }

end SelectionStore

end Bindery

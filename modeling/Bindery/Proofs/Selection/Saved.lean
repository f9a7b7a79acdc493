import Bindery.Proofs.Files.Apart
import Bindery.Proofs.Selection.Kept
import Bindery.Proofs.Text.Coding
import Mathlib

/-!
# Runs of a store

While nothing else writes its file, a store gives back what was stored last, whatever was stored
before and whatever the file held in the beginning.  A file that was there before any selection was
stored stands for the selection of the value that its text is, or for none if it is no text of a
value.

* `SelectionStore.IsUsable`: the lock can be taken and the file can be written.
* `SelectionStore.Run`: selections are stored one after the other.
* `SelectionStore.load_of_run`: what is loaded in the end.
-/

namespace Bindery

open Bindery.Path (Parsed)

/-- The bytes of a file are the text of a value. -/
def Json.IsText (bytes : List UInt8) (v : Json) : Prop :=
  ∃ text, bytes = Utf8.encode text ∧ Json.read (Text.unifyNewlines text) = .ok v

namespace SelectionStore

variable {store : SelectionStore} {directory : Parsed} {name lock : Text} {h h' h₀ locked : Host}
  {bytes : List UInt8} {stamp : Stamp}

/-- The text of a value stands for the selection of the value. -/
theorem decode_of_isText {v : Json} (hv : Json.IsText bytes v) : decode bytes = .ok (.ofJson v) := by
  obtain ⟨text, rfl, hread⟩ := hv
  rw [decode, Utf8.decode_encode]
  dsimp only
  rw [hread]

/-- Bytes that are no text of a value stand for no selection, unless they nest too deep to tell. -/
theorem decode_of_not_isText (hnone : ∀ v, ¬ Json.IsText bytes v)
    (hdepth : ∀ text, bytes = Utf8.encode text →
      Json.read (Text.unifyNewlines text) ≠ .error .tooDeep) : decode bytes = .ok .none := by
  rw [decode]
  cases hdecode : Utf8.decode bytes with
  | error e => rfl
  | ok text =>
    have hbytes := Utf8.decode_eq_ok_iff.1 hdecode
    dsimp only
    cases hread : Json.read (Text.unifyNewlines text) with
    | ok v => exact absurd ⟨text, hbytes, hread⟩ (hnone v)
    | error flaw =>
      cases flaw with
      | tooDeep => exact absurd hread (hdepth text hbytes)
      | malformed => rfl
      | tooManyDigits => rfl

/-! ## The files of a store -/

theorem nameWithSuffix_ne (name : Text) :
    Parsed.nameWithSuffix name ".json.lock".toList ≠ name := by
  have hstem : ∀ s : Text, Text.uptoLast '.' (s ++ ".json.lock".toList) =
      s ++ ".json.".toList := by
    intro s
    simp [Text.uptoLast]
  rw [Parsed.nameWithSuffix]
  split
  · intro h
    have hlength := congrArg List.length h
    simp at hlength
  · -- The name would have the extension `lock`, and so twice the rest of the suffix before it.
    intro h
    have hlength := congrArg (fun n => (Text.uptoLast '.' n).dropLast.length) h
    simp only [hstem] at hlength
    simp at hlength

/-- The name of the lock file is a name too. -/
theorem isName_nameWithSuffix (hname : Path.IsName name) :
    Path.IsName (Parsed.nameWithSuffix name ".json.lock".toList) := by
  have hsuffix : ∀ s : Text, s.Sublist name → Path.IsName (s ++ ".json.lock".toList) := by
    intro s hs
    have hlength : ∀ t : Text, t.length < 10 → s ++ ".json.lock".toList ≠ t := by
      rintro t ht rfl
      rw [List.length_append] at ht
      exact absurd ht (Nat.not_lt_of_le (Nat.le_add_left 10 _))
    exact {
      ne_nil := hlength _ (by decide)
      ne_here := hlength _ (by decide)
      ne_above := hlength _ (by decide)
      no_slash := fun hmem => (List.mem_append.1 hmem).elim
        (fun hmem => hname.no_slash (hs.subset hmem)) (by decide)
      no_null := fun hmem => (List.mem_append.1 hmem).elim
        (fun hmem => hname.no_null (hs.subset hmem)) (by decide) }
  rw [Parsed.nameWithSuffix]
  split
  · exact hsuffix name (List.Sublist.refl name)
  · refine hsuffix _ ((List.dropLast_sublist _).trans ?_)
    conv_rhs => rw [← Text.uptoLast_append_afterLast '.' name]
    exact List.sublist_append_left _ _

/-- The path of a store ends in the name of a file. -/
structure HasName (store : SelectionStore) : Prop where
  isProper : store.path.IsProper
  isName : Path.IsName store.path.name

theorem hasName_ofText {text : Text} (hname : Path.IsName (ofText text).path.name) :
    (ofText text).HasName :=
  ⟨Parsed.isProper_ofText text, hname⟩

/-- A path and its last name are short enough to be looked up. -/
structure IsShort (p : Parsed) : Prop where
  name : Utf8.byteLength p.name ≤ Host.maxNameBytes
  fits : Host.Fits p

/-- The directory of a store is at a place, and its file can be written there: what has its name is
no directory and no link to one, and what has the name of the file that is written first is no other
node than a file. -/
structure CanWrite (store : SelectionStore) (h : Host) (place : List Text) : Prop where
  leadsTo : h.LeadsTo store.path.parent place
  noDirectory : ∀ found, ¬ Host.Leads h.tree Host.maxLinks place [store.path.name] found
  draft : ∀ n, h.tree.get? (place ++ [(Host.draftPath store.path).name]) = some n →
    n.isFile = true

/-- A store can be used: its directory is there or can be made, the lock can be taken, and then the
file can be written. -/
structure IsUsable (store : SelectionStore) (h : Host) : Prop where
  path : IsShort store.path
  draft : IsShort (Host.draftPath store.path)
  exists_locked : ∃ locked place, store.acquire.run.run h = (.ok (), locked) ∧
    store.CanWrite locked place

/-! ## Taking the lock -/

/-- The lock is a file in the directory of the store. -/
theorem exists_of_acquire (hin : store.IsIn directory name lock)
    (hacquire : store.acquire.run.run h = (.ok (), locked)) :
    Host.Fits (directory.child lock) ∧ ∃ made place,
      (HostChange.makeDirectories directory).run.run h = (.ok (), made) ∧
        made.LeadsTo directory place ∧
          (locked = made ∨ made.tree.get? (place ++ [lock]) = none ∧
            locked = made.put (place ++ [lock]) []) ∧
            ∃ bytes stamp, locked.tree.get? (place ++ [lock]) = some (.file bytes stamp) := by
  rw [acquire, hin.parent_eq, hin.lockPath_eq] at hacquire
  obtain ⟨_, made, hmade, hstep⟩ := exists_of_run_bind hacquire
  obtain ⟨hfits, place, hplace, hlocked, hfile⟩ := Host.exists_of_ensureFile hin.isProper_lock
    hin.isLookedUp_lock (HostChange.run_step_iff.1 hstep)
  exact ⟨hfits, made, place, hmade, hplace, hlocked, hfile⟩

/-- A file that is there is there when the lock is taken. -/
theorem node_of_acquire (hin : store.IsIn directory name lock)
    (hnode : h.node store.path.toText = .ok (.file bytes stamp))
    (hacquire : store.acquire.run.run h = (.ok (), locked)) :
    locked.node store.path.toText = .ok (.file bytes stamp) := by
  obtain ⟨-, made, place, hmade, hplace, hlocked, -⟩ := exists_of_acquire hin hacquire
  have hfile := hnode
  rw [hin.path_eq] at hfile
  obtain ⟨hfits, found, es, hfound, hes⟩ :=
    Host.exists_leadsTo_of_node_child hin.isProper_name hin.isLookedUp_name hfile
  -- The directory of the file is there, so none was made.
  have hthere := HostChange.run_makeDirectories_of_isDirectory hin.isProper
    (hfound.isDirectory hin.isProper hfits.of_child hes)
  obtain rfl := (Prod.mk.inj (hmade.symm.trans hthere)).2
  obtain rfl := hplace.unique hfound
  rcases hlocked with rfl | ⟨hnone, rfl⟩
  · exact hnode
  · exact (Host.changedAt_put hes hnone []).node_of_none hnone hnode rfl

/-- Where the directory is there and has the lock file, taking the lock changes nothing. -/
theorem acquire_of_leadsTo (hin : store.IsIn directory name lock) {place : List Text}
    (hplace : h.LeadsTo directory place) (hfits : Host.Fits (directory.child lock))
    (hlock : h.tree.get? (place ++ [lock]) = some (.file bytes stamp)) :
    store.acquire.run.run h = (.ok (), h) := by
  obtain ⟨es, hes⟩ := Node.exists_directory_of_get?_append (List.cons_ne_nil lock []) hlock
  have hdirectory := hplace.isDirectory hin.isProper hfits.of_child hes
  rw [acquire, hin.parent_eq, hin.lockPath_eq,
    run_bind_of_ok (HostChange.run_makeDirectories_of_isDirectory hin.isProper hdirectory)]
  exact HostChange.run_step_iff.2
    (Host.ensureFile_of_leadsTo hin.isProper_lock hin.isLookedUp_lock hfits hplace hlock)

/-! ## The file that is written first -/

theorem name_draftPath (store : SelectionStore) : (Host.draftPath store.path).name =
    store.path.name ++ ".tmp.00000.0000000000000".toList :=
  List.getLastD_concat ..

theorem draftPath_eq (store : SelectionStore) : Host.draftPath store.path =
    store.path.parent.child (Host.draftPath store.path).name := by
  rw [name_draftPath]
  rfl

theorem lt_length_name_draftPath (store : SelectionStore) :
    store.path.name.length + 3 < (Host.draftPath store.path).name.length := by
  rw [name_draftPath, List.length_append]
  exact Nat.add_lt_add_left (by decide) _

theorem isLookedUp_draft (hdraft : IsShort (Host.draftPath store.path)) :
    Host.IsLookedUp (Host.draftPath store.path).name := by
  have hlong := lt_length_name_draftPath store
  have hne : ∀ t : Text, t.length ≤ 2 → (Host.draftPath store.path).name ≠ t := by
    intro t ht heq
    rw [heq] at hlong
    omega
  exact ⟨hne _ (by decide), hne _ (by decide), hne _ (by decide), hdraft.name⟩

namespace HasName

variable (hstore : store.HasName)

include hstore

theorem path_eq : store.path = store.path.parent.child store.path.name := by
  have hne : store.path.names ≠ [] := by
    intro hnil
    exact hstore.isName.ne_nil (by rw [Parsed.name, hnil]; rfl)
  have hlast : store.path.name = store.path.names.getLast hne := by
    rw [Parsed.name, List.getLastD_eq_getLast?, List.getLast?_eq_some_getLast hne]
    rfl
  rw [Parsed.parent, Parsed.child, hlast, List.dropLast_append_getLast]

/-- The files of a store are in its directory, if its lock can be taken. -/
theorem isIn (hshort : Utf8.byteLength store.path.name ≤ Host.maxNameBytes)
    (hacquire : store.acquire.run.run h = (.ok (), locked)) :
    store.IsIn store.path.parent store.path.name
      (Parsed.nameWithSuffix store.path.name ".json.lock".toList) := by
  have hlock := isName_nameWithSuffix hstore.isName
  have hparent : store.path.parent.IsProper :=
    ⟨hstore.isProper.root, fun n hn => hstore.isProper.names n (List.dropLast_subset _ hn)⟩
  have hlockShort : Utf8.byteLength
      (Parsed.nameWithSuffix store.path.name ".json.lock".toList) ≤ Host.maxNameBytes := by
    obtain ⟨_, made, -, hstep⟩ := exists_of_run_bind hacquire
    have hensure := HostChange.run_step_iff.1 hstep
    rw [Host.ensureFile] at hensure
    cases hlocate : made.locate .entry store.lockPath.toText with
    | error e =>
      rw [hlocate] at hensure
      cases hensure
    | ok location =>
      exact Host.short_of_locate_entry (hparent.child ⟨hlock.ne_nil, hlock.no_slash⟩)
        (not_or.2 ⟨hlock.ne_nil, hlock.ne_here⟩) hlock.ne_above hlocate
  exact {
    isProper := hparent
    path_eq := hstore.path_eq
    lockPath_eq := rfl
    isName_name := hstore.isName
    isName_lock := hlock
    isLookedUp_name :=
      ⟨hstore.isName.ne_nil, hstore.isName.ne_here, hstore.isName.ne_above, hshort⟩
    isLookedUp_lock := ⟨hlock.ne_nil, hlock.ne_here, hlock.ne_above, hlockShort⟩
    ne := nameWithSuffix_ne _ }

/-- **What a file stands for is loaded**, if the lock can be taken. -/
theorem load_of_node (hnode : h.node store.path.toText = .ok (.file bytes stamp))
    (hacquire : store.acquire.run.run h = (.ok (), locked)) :
    store.load.run.run h = (decode bytes, locked) := by
  have hshort : Utf8.byteLength store.path.name ≤ Host.maxNameBytes := by
    have hproper := hstore.isProper
    rw [hstore.path_eq] at hnode hproper
    exact Host.short_of_node hproper (not_or.2 ⟨hstore.isName.ne_nil, hstore.isName.ne_here⟩)
      hstore.isName.ne_above hnode
  exact load_of_acquire hnode hacquire (node_of_acquire (hstore.isIn hshort hacquire) hnode hacquire)

end HasName

/-! ## Storing -/

namespace CanWrite

variable {place : List Text}

/-- A file that can be written is put in its place. -/
theorem replaceFile_eq (hwrite : store.CanWrite h place)
    (hin : store.IsIn store.path.parent store.path.name lock) (hpath : IsShort store.path)
    (hdraft : IsShort (Host.draftPath store.path)) (bytes : List UInt8) :
    h.replaceFile store.path bytes = .ok (h.put (place ++ [store.path.name]) bytes) := by
  have hdirectory : ∀ es, h.tree.get? (place ++ [store.path.name]) ≠ some (.directory es) :=
    fun es hes => hwrite.noDirectory _ (.enter hin.isLookedUp_name hes (.nil _ _))
  have hdraftName : (Host.draftPath store.path).name ≠ [] ∧
      '/' ∉ (Host.draftPath store.path).name := by
    rw [name_draftPath]
    exact ⟨by simp, fun hmem => (List.mem_append.1 hmem).elim hin.isName_name.no_slash (by decide)⟩
  have houtput : ∃ location, h.locate .output (Host.draftPath store.path).toText = .ok location := by
    have hfits := hdraft.fits
    rw [draftPath_eq] at hfits ⊢
    exact hwrite.leadsTo.locate_output (hin.isProper.child hdraftName) (isLookedUp_draft hdraft)
      hfits hwrite.draft
  have hfits := hpath.fits
  rw [hin.path_eq] at hfits houtput
  have hput : h.replaceFile (store.path.parent.child store.path.name) bytes = _ :=
    Host.replaceFile_of_leadsTo hwrite.leadsTo hin.isProper_name hin.isLookedUp_name hfits
      hdirectory houtput
  rwa [← hin.path_eq] at hput

/-- A file that was written can be written again. -/
theorem put (hwrite : store.CanWrite h place)
    (hin : store.IsIn store.path.parent store.path.name lock) {es : List (Text × Node)}
    (hes : h.tree.get? place = some (.directory es)) (bytes : List UInt8) :
    store.CanWrite (h.put (place ++ [store.path.name]) bytes) place where
  leadsTo := hwrite.leadsTo.put hin.isLookedUp_name hes hwrite.noDirectory bytes
  noDirectory found := by
    refine Host.not_leads_of_isFile hin.isLookedUp_name fun n hn => ?_
    obtain rfl := Option.some.inj ((h.get?_tree_put _ bytes).symm.trans hn)
    rfl
  draft n hn := by
    have hne : (Host.draftPath store.path).name ≠ store.path.name := by
      intro heq
      have hlong := lt_length_name_draftPath store
      rw [heq] at hlong
      omega
    exact hwrite.draft n ((Node.get?_set_sibling _ _ place hne).symm.trans hn)

end CanWrite

/-- **A store that can be used stores a selection**: its file is put in its place, and the store can
be used again. -/
theorem IsUsable.exists_save (husable : store.IsUsable h) (hstore : store.HasName)
    (s : Selection) :
    ∃ h', (store.save s).run.run h = (.ok (), h') ∧ store.IsUsable h' ∧
      ∃ stamp, h'.node store.path.toText = .ok (.file (Utf8.encode (encode s)) stamp) := by
  obtain ⟨hpath, hdraft, locked, place, hacquire, hwrite⟩ := husable
  have hin := hstore.isIn hpath.name hacquire
  obtain ⟨hlockFits, made, found, hmade, hfound, hlocked, lockBytes, lockStamp, hlock⟩ :=
    exists_of_acquire hin hacquire
  obtain rfl : place = found := by
    rcases hlocked with rfl | ⟨-, rfl⟩
    · exact hwrite.leadsTo.unique hfound
    · exact hfound.eq_of_put hwrite.leadsTo
  obtain ⟨es, hes⟩ := Node.exists_directory_of_get?_append (List.cons_ne_nil _ []) hlock
  have hagain := hwrite.put hin hes (Utf8.encode (encode s))
  have hfits := hpath.fits
  rw [hin.path_eq] at hfits
  refine ⟨locked.put (place ++ [store.path.name]) (Utf8.encode (encode s)), ?_,
    ⟨hpath, hdraft, _, place, ?_, hagain⟩, .fresh locked.clock, ?_⟩
  · rw [save, run_bind_of_ok hacquire]
    exact HostChange.run_step_iff.2 (hwrite.replaceFile_eq hin hpath hdraft _)
  · -- The lock is beside the file.
    exact acquire_of_leadsTo hin hagain.leadsTo hlockFits
      ((Node.get?_set_sibling _ _ place hin.ne).trans hlock)
  · have hnode := Host.node_child_of_leadsTo hin.isProper_name hin.isLookedUp_name hfits
      hagain.leadsTo (Host.get?_tree_put locked _ _)
    rwa [← hin.path_eq] at hnode

/-! ## Runs -/

/-- Selections are stored in a store one after the other, and meanwhile others may change what they
like but the file.  The selection is the last one that was stored. -/
inductive Run (store : SelectionStore) (h₀ : Host) : Option Selection → Host → Prop
  | start : Run store h₀ none h₀
  | save {last : Option Selection} {h h' : Host} {s : Selection} (hrun : Run store h₀ last h)
      (husable : store.IsUsable h) (hs : s.IsMade) (hsave : (store.save s).run.run h = (.ok (), h')) :
      Run store h₀ (some s) h'
  | clear {last : Option Selection} {h h' : Host} (hrun : Run store h₀ last h)
      (husable : store.IsUsable h) (hclear : store.clear.run.run h = (.ok (), h')) :
      Run store h₀ (some .none) h'
  | elsewhere {last : Option Selection} {h h' : Host} (hrun : Run store h₀ last h)
      (hkept : h'.node store.path.toText = h.node store.path.toText) : Run store h₀ last h'

/-- After a selection was stored its file is there. -/
theorem Run.node_eq (hstore : store.HasName) {s : Selection} (hrun : store.Run h₀ (some s) h) :
    s.Canonical ∧
      ∃ stamp, h.node store.path.toText = .ok (.file (Utf8.encode (encode s)) stamp) := by
  generalize hlast : some s = last at hrun
  induction hrun with
  | start => cases hlast
  | save _ husable hs hsave _ =>
    obtain rfl := Option.some.inj hlast
    obtain ⟨after, hafter, -, hnode⟩ := husable.exists_save hstore s
    obtain rfl := (Prod.mk.inj (hsave.symm.trans hafter)).2
    exact ⟨hs.canonical, hnode⟩
  | clear _ husable hclear _ =>
    obtain rfl := Option.some.inj hlast
    obtain ⟨after, hafter, -, hnode⟩ := husable.exists_save hstore .none
    obtain rfl := (Prod.mk.inj (hclear.symm.trans hafter)).2
    exact ⟨trivial, hnode⟩
  | elsewhere _ hkept ih =>
    obtain ⟨hs, stamp, hnode⟩ := ih hlast
    exact ⟨hs, stamp, hkept.trans hnode⟩

/-- What is loaded is canonical. -/
theorem canonical_of_load {s : Selection} (hload : store.load.run.run h = (.ok s, h')) :
    s.Canonical := by
  rw [load, run_bind_of_ok (run_get h)] at hload
  obtain ⟨isThere, middle, -, hload⟩ := exists_of_run_bind hload
  split at hload
  · obtain rfl := Except.ok.inj (Prod.mk.inj hload).1
    exact trivial
  obtain ⟨_, locked, -, hload⟩ := exists_of_run_bind hload
  rw [run_bind_of_ok (run_get locked)] at hload
  split at hload
  · obtain rfl := Except.ok.inj (Prod.mk.inj hload).1
    exact trivial
  · next bytes _ =>
    rw [run_liftM] at hload
    have hdecode := (Prod.mk.inj hload).1
    rw [decode] at hdecode
    split at hdecode
    · obtain rfl := Except.ok.inj hdecode
      exact trivial
    split at hdecode
    · cases hdecode
    · obtain rfl := Except.ok.inj hdecode
      exact trivial
    · obtain rfl := Except.ok.inj hdecode
      exact Selection.canonical_ofJson _

/-- **A store gives back what was stored last.**  After any run the selection that was stored last
is loaded, if the lock can be taken; a store that can be used stores every selection and can be used
again.  Whatever a file holds, the selection of the value whose text it is is loaded, and none if it
is no text of a value, as long as it does not nest too deep.  All selections that are made or loaded
have clean names, and are selections of profiles exactly if they have any. -/
theorem load_of_run {text : Text} (hname : Path.IsName (ofText text).path.name) :
    (∀ {h₀ h locked : Host} {s : Selection}, (ofText text).Run h₀ (some s) h →
      (ofText text).acquire.run.run h = (.ok (), locked) →
        (ofText text).load.run.run h = (.ok s, locked)) ∧
    (∀ {h : Host}, (ofText text).IsUsable h →
      (∃ locked, (ofText text).acquire.run.run h = (.ok (), locked)) ∧
        ∀ s, ∃ h', ((ofText text).save s).run.run h = (.ok (), h') ∧ (ofText text).IsUsable h') ∧
    (∀ {h locked : Host} {bytes : List UInt8} {stamp : Stamp},
      h.node (ofText text).path.toText = .ok (.file bytes stamp) →
      (ofText text).acquire.run.run h = (.ok (), locked) →
        (∀ v, Json.IsText bytes v →
          (ofText text).load.run.run h = (.ok (.ofJson v), locked)) ∧
        ((∀ v, ¬ Json.IsText bytes v) → (∀ text, bytes = Utf8.encode text →
            Json.read (Text.unifyNewlines text) ≠ .error .tooDeep) →
          (ofText text).load.run.run h = (.ok .none, locked))) ∧
    ∀ s : Selection, (s.IsMade ∨ ∃ h h', (ofText text).load.run.run h = (.ok s, h')) →
      Selection.Clean s.names ∧ (s.mode = "profiles".toList ↔ s.names ≠ []) := by
  have hstore := hasName_ofText hname
  refine ⟨fun hrun hacquire => ?_, fun husable => ⟨?_, fun s => ?_⟩, fun hnode hacquire =>
    ⟨fun v hv => ?_, fun hnone hdepth => ?_⟩, fun s hs => Selection.canonical_iff.1 ?_⟩
  · obtain ⟨hs, stamp, hnode⟩ := hrun.node_eq hstore
    rw [hstore.load_of_node hnode hacquire, decode_encode hs]
  · obtain ⟨locked, -, hacquire, -⟩ := husable.exists_locked
    exact ⟨locked, hacquire⟩
  · obtain ⟨h', hsave, hagain, -⟩ := husable.exists_save hstore s
    exact ⟨h', hsave, hagain⟩
  · rw [hstore.load_of_node hnode hacquire, decode_of_isText hv]
  · rw [hstore.load_of_node hnode hacquire, decode_of_not_isText hnone hdepth]
  · rcases hs with hs | ⟨h, h', hload⟩
    · exact hs.canonical
    · exact canonical_of_load hload

/-- A store whose directory is not there yet. -/
def newStore : SelectionStore := ofText "/s/sel".toList

/-- A host with these entries in its root. -/
def rootHost (entries : List (Text × Node)) (clock : Nat) : Host :=
  ⟨.directory entries, [], 0, ['/'], [], clock⟩

theorem acquire_newStore : newStore.acquire.run.run (rootHost [] 0) =
    (.ok (), rootHost [(['s'], .directory [("sel.json.lock".toList, .file [] (.fresh 0))])] 1) := by
  cbv

theorem isUsable_newStore : newStore.IsUsable (rootHost [] 0) where
  path := ⟨by decide, by decide, by decide⟩
  draft := ⟨by decide, by decide, by decide⟩
  exists_locked := by
    refine ⟨_, [['s']], acquire_newStore, ⟨_, rfl, ?_⟩, fun found => ?_, ?_⟩
    · exact .enter ⟨by decide, by decide, by decide, by decide⟩ rfl (.nil _ _)
    · exact Host.not_leads_of_isFile ⟨by decide, by decide, by decide, by decide⟩ (by decide)
    · decide

/-- The store is used on a host without files: what it stored is loaded, until that is cleared.  On
a host whose file is no text of a value, nothing is loaded. -/
theorem load_of_run_newStore :
    Path.IsName newStore.path.name ∧
      (∃ stored locked, (newStore.save (.ofNames [" b".toList, "a".toList, "b ".toList])).run.run
          (rootHost [] 0) = (.ok (), stored) ∧
        newStore.load.run.run stored = (.ok (.profiles [['b'], ['a']]), locked) ∧
        ∃ cleared locked, newStore.clear.run.run stored = (.ok (), cleared) ∧
          newStore.load.run.run cleared = (.ok .none, locked)) ∧
      ∃ locked, newStore.load.run.run
        (rootHost [(['s'], .directory [("sel".toList, .file (Utf8.encode ['{']) (.given 0))])] 0) =
          (.ok .none, locked) := by
  have hname : Path.IsName newStore.path.name := by decide
  obtain ⟨hrun, hcalls, hfile, -⟩ := load_of_run hname
  obtain ⟨-, hsaves⟩ := hcalls isUsable_newStore
  obtain ⟨stored, hstored, husable⟩ := hsaves (.ofNames [" b".toList, "a".toList, "b ".toList])
  obtain ⟨⟨locked, hlocked⟩, hsaves⟩ := hcalls husable
  obtain ⟨cleared, hcleared, hagain⟩ := hsaves .none
  obtain ⟨⟨locked', hlocked'⟩, -⟩ := hcalls hagain
  have hfirst : newStore.Run (rootHost [] 0) _ stored :=
    .save .start isUsable_newStore (.ofNames _) hstored
  refine ⟨hname, ⟨stored, locked, hstored, hrun hfirst hlocked, cleared, locked', hcleared,
    hrun (.clear hfirst husable hcleared) hlocked'⟩, ?_⟩
  have hlocked : newStore.acquire.run.run
      (rootHost [(['s'], .directory [("sel".toList, .file (Utf8.encode ['{']) (.given 0))])] 0) =
      (.ok (), rootHost [(['s'], .directory [("sel".toList, .file (Utf8.encode ['{']) (.given 0)),
        ("sel.json.lock".toList, .file [] (.fresh 0))])] 1) := by
    cbv
  have hread : Json.read (Text.unifyNewlines ['{']) = .error .malformed := by cbv
  have htext : ∀ text, Utf8.encode ['{'] = Utf8.encode text → text = ['{'] := fun text heq =>
    Except.ok.inj ((Utf8.decode_encode text).symm.trans (heq ▸ Utf8.decode_encode ['{']))
  refine ⟨_, (hfile (by cbv) hlocked).2 ?_ ?_⟩
  · rintro v ⟨text, heq, hv⟩
    rw [htext text heq, hread] at hv
    cases hv
  · intro text heq
    rw [htext text heq, hread]
    rintro ⟨⟩

end SelectionStore

end Bindery

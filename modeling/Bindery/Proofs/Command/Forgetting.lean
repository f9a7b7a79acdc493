import Bindery.Proofs.Command.Limit
import Bindery.Proofs.Selection.Saved

/-!
# What stays selected

`files` and `render` without a choice drop the names of the stored selection that have no profile.
A root whose profile file cannot be read has no profiles in a run, so its names are dropped like
others.  The stored selection stays as it is if all its names have profiles, unless the rendered
text is written to its file; names without a profile are gone afterwards.

* `SelectionStore.readBytes_of_load`: loading changes nothing but the lock file.
* `Command.Writes`: what `files` and `render` do to the host once they have a selection.
* `CommandLine.stored_selection_kept`
-/

namespace Bindery

open Console

/-! ## Loading -/

namespace SelectionStore

variable {store : SelectionStore} {directory : Path.Parsed} {name lock : Text} {h : Host} {n : Node}

/-- If something is stored, taking the lock does nothing, or makes a file where nothing was. -/
theorem changedAt_of_acquire (hin : store.IsIn directory name lock)
    (hnode : h.node store.path.toText = .ok n) :
    (store.acquire.run.run h).2 = h ∨ ∃ place new, h.tree.get? place = none ∧
      h.ChangedAt (store.acquire.run.run h).2 place new := by
  rw [hin.path_eq] at hnode
  obtain ⟨hfits, place, es, hplace, hes⟩ :=
    Host.exists_leadsTo_of_node_child hin.isProper_name hin.isLookedUp_name hnode
  have hthere := HostChange.run_makeDirectories_of_isDirectory hin.isProper
    (hplace.isDirectory hin.isProper hfits.of_child hes)
  rw [acquire, hin.parent_eq, hin.lockPath_eq, run_bind_of_ok hthere, HostChange.run_step]
  cases hensure : h.ensureFile (directory.child lock).toText with
  | error e => exact Or.inl rfl
  | ok locked =>
    obtain ⟨-, found, hfound, rfl | ⟨hnone, rfl⟩, -⟩ :=
      Host.exists_of_ensureFile hin.isProper_lock hin.isLookedUp_lock hensure
    · exact Or.inl rfl
    · obtain rfl := hfound.unique hplace
      exact Or.inr ⟨_, _, hnone, Host.changedAt_put hes hnone []⟩

/-- Loading takes the lock at most, and that only if something is stored. -/
theorem host_load (store : SelectionStore) (h : Host) :
    ((store.load.run.run h).2 = h ∧ ∀ s, (store.load.run.run h).1 = .ok s → s = .none) ∨
      (∃ n, h.node store.path.toText = .ok n) ∧
        (store.load.run.run h).2 = (store.acquire.run.run h).2 := by
  rw [load, run_bind_of_ok (run_get h), Host.satisfies]
  cases h.node store.path.toText with
  | error e =>
    left
    dsimp only
    split
    · exact ⟨rfl, fun s hs => (Except.ok.inj hs).symm⟩
    · exact ⟨rfl, fun s hs => by cases hs⟩
  | ok n =>
    refine Or.inr ⟨⟨n, rfl⟩, ?_⟩
    rw [run_bind_of_ok (run_liftM _ h), if_neg (by decide), run_bind]
    obtain ⟨result, locked⟩ := store.acquire.run.run h
    cases result with
    | error e => rfl
    | ok _ =>
      dsimp only
      rw [run_bind_of_ok (run_get locked)]
      split
      · rfl
      · rw [run_liftM]

/-- **Loading leaves what is stored as it is.** -/
theorem readBytes_of_load (hin : store.IsIn directory name lock) (h : Host) :
    (store.load.run.run h).2.readBytes store.path.toText = h.readBytes store.path.toText := by
  obtain ⟨heq, -⟩ | ⟨⟨n, hn⟩, heq⟩ := store.host_load h
  · rw [heq]
  · rw [heq]
    obtain hlocked | ⟨place, new, hnone, hchange⟩ := changedAt_of_acquire hin hn
    · rw [hlocked]
    · obtain ⟨found, hlocate⟩ := Host.exists_locate_of_node hn
      exact hchange.readBytes hlocate (Host.ne_of_none hnone)

/-- If a selection is loaded that is not empty, its file is found by its path afterwards. -/
theorem exists_finds_of_load (hin : store.IsIn directory name lock) (hwork : h.HasDirectory)
    {s : Selection} (hload : (store.load.run.run h).1 = .ok s) (hs : s ≠ .none) :
    ∃ found, (store.load.run.run h).2.Finds store.path.toText found
      (h.readBytes store.path.toText) := by
  obtain ⟨-, hnone⟩ | ⟨⟨n, hn⟩, heq⟩ := store.host_load h
  · exact absurd (hnone s hload) hs
  · obtain ⟨found, hlocate⟩ := Host.exists_locate_of_node hn
    have hread := readBytes_of_load hin h
    rw [heq] at hread ⊢
    obtain hlocked | ⟨_, _, -, hchange⟩ := changedAt_of_acquire hin hn
    · rw [hlocked]
      exact ⟨found, hwork, ⟨n, hlocate⟩, rfl⟩
    · exact ⟨found, hchange.hasDirectory hwork, hchange.exists_locate hlocate, hread⟩

end SelectionStore

/-! ## After a selection -/

namespace Command

/-- A command that takes the stored selection, and the path of a file that it may write to. -/
inductive TakesStored : Command → Option Text → Prop
  | files : TakesStored (.files .saved) none
  | render (yes : Bool) (output : Option Text) (maxBytes : Option Int) :
      TakesStored (.render .saved yes output maxBytes) output

/-- A text that is rendered from the selected files is written to a file, or nothing is done. -/
def Writes (s : Setup) (output : Option Text) (selection : Selection) (h next : Host) : Prop :=
  next = h ∨ selection.isEmpty = false ∧ ∃ path content, output = some path ∧ path ≠ [] ∧
    next = ((outputChange s path content).run.run h).2

variable {s : Setup} {command : Command} {output : Option Text} {c : Console}

theorem Writes.eq {selection : Selection} {h next : Host}
    (hwrites : Writes s output selection h next) (houtput : output.getD [] = []) : next = h := by
  obtain heq | ⟨-, path, content, rfl, hpath, -⟩ := hwrites
  · exact heq
  · exact absurd houtput hpath

theorem moves_writeOutput {selection : Selection} {path content : Text} (hpath : path ≠ [])
    (hselection : selection.isEmpty = false) :
    Moves (Writes s (some path) selection) (writeOutput s path content) := by
  intro c
  obtain ⟨after, hafter, -, hwrite⟩ := exists_run_writeOutput s path content c
  rw [hwrite]
  exact Or.inr ⟨hselection, path, content, rfl, hpath, hafter⟩

/-- A command that takes the stored selection may write to a file once it has that. -/
theorem TakesStored.exists_run (htakes : TakesStored command output) (s : Setup) :
    ∃ act : Selection → Action Nat,
      (∀ selection, Moves (Writes s output selection) (act selection)) ∧
        Command.run s command = selectionOf s .saved >>= act := by
  cases htakes with
  | files =>
    obtain ⟨act, hkeeps, hact⟩ := exists_runFiles s
    have hrefl : ∀ selection h, Writes s none selection h h := fun _ _ => Or.inl rfl
    exact ⟨act, fun selection => .of_keepsHost (hrefl selection) (hkeeps selection), hact .saved⟩
  | render yes _ maxBytes =>
    obtain ⟨act, hmoves, hact⟩ := exists_runRender_moves s yes output maxBytes
    refine ⟨act, hmoves (Writes s output) (fun _ _ => Or.inl rfl) ?_, hact .saved⟩
    rintro selection path content rfl hpath hselection
    exact moves_writeOutput hpath hselection

/-- After a text was written to a file the same is read by another path, or that leads to the
file. -/
theorem finds_of_outputChange {h : Host} {p : Text} {found : List Text}
    {stored : Except Fault (List UInt8)} (hfinds : h.Finds p found stored) (s : Setup)
    (path content : Text) :
    ((outputChange s path content).run.run h).2.Finds p found stored ∨
      ((outputChange s path content).run.run h).2.SamePlace (outputPath s path).toText p := by
  have hmade := HostChange.makeDirectories_induction (motive := fun h => h.Finds p found stored)
    (fun hfinds hmake => hfinds.of_makeDirectory hmake) (outputPath s path).parent hfinds
  rw [outputChange, run_bind]
  split
  · next made hrun =>
    rw [hrun] at hmade
    rw [HostChange.run_step]
    cases hwrite : made.writeFile (outputPath s path).toText (Utf8.encode content) with
    | error e => exact Or.inl hmade
    | ok next => exact hmade.of_writeFile hwrite
  · next hrun =>
    rw [hrun] at hmade
    exact Or.inl hmade

variable {directory : Path.Parsed} {name lock : Text}

/-- If nothing of what is loaded is dropped, its file is as before, unless the command writes to
it. -/
theorem TakesStored.readBytes_eq_or (htakes : TakesStored command output)
    (hin : s.store.IsIn directory name lock)
    (hprune : ∀ saved, (s.store.load.run.run c.host).1 = .ok saved → s.engine.prune saved = saved)
    (hwork : output.getD [] ≠ [] → c.host.HasDirectory) :
    ((Command.run s command).run.run c).2.host.readBytes s.store.path.toText =
        c.host.readBytes s.store.path.toText ∨
      ∃ path, output = some path ∧ path ≠ [] ∧
        ((Command.run s command).run.run c).2.host.SamePlace (outputPath s path).toText
          s.store.path.toText := by
  have hread := SelectionStore.readBytes_of_load hin c.host
  obtain ⟨act, hmoves, hrun⟩ := htakes.exists_run s
  rw [hrun, run_bind, run_selectionOf_kept c hprune]
  split
  · next saved loaded hselected =>
    obtain ⟨hload, rfl⟩ := Prod.mk.inj hselected
    obtain heq | ⟨hselection, path, content, rfl, hpath, heq⟩ :=
      hmoves saved { c with host := (s.store.load.run.run c.host).2 }
    · rw [heq]
      exact Or.inl hread
    · have hne : saved ≠ .none := by
        rintro rfl
        cases hselection
      obtain ⟨found, hfinds⟩ := SelectionStore.exists_finds_of_load hin (hwork hpath) hload hne
      rw [heq]
      obtain hfinds | hsame := finds_of_outputChange hfinds s path content
      · exact Or.inl hfinds.readBytes_eq
      · exact Or.inr ⟨path, rfl, hpath, hsame⟩
  · next e loaded hselected =>
    obtain ⟨-, rfl⟩ := Prod.mk.inj hselected
    exact Or.inl hread

/-- If names are dropped and the rest can be stored, the rest is what is loaded afterwards. -/
theorem TakesStored.load_of_pruned (htakes : TakesStored command output)
    (hin : s.store.IsIn directory name lock) (houtput : output.getD [] = []) {saved : Selection}
    {loaded stored : Host} (hload : s.store.load.run.run c.host = (.ok saved, loaded))
    (hprune : s.engine.prune saved ≠ saved)
    (hsave : (s.store.save (s.engine.prune saved)).run.run loaded = (.ok (), stored))
    (hdirectory : stored.isDirectory s.store.path.parent.toText = true) :
    s.store.load.run.run ((Command.run s command).run.run c).2.host =
      (.ok (s.engine.prune saved), ((Command.run s command).run.run c).2.host) := by
  have hcanonical := s.engine.canonical_prune (SelectionStore.canonical_of_load hload)
  obtain ⟨act, hmoves, hrun⟩ := htakes.exists_run s
  have hhost : ((Command.run s command).run.run c).2.host = stored := by
    rw [hrun, run_bind_of_ok (run_selectionOf_pruned hload hprune hsave)]
    exact (hmoves _ _).eq houtput
  rw [hin.parent_eq] at hdirectory
  rw [hhost]
  exact SelectionStore.load_of_save hin hcanonical hsave hdirectory

end Command

namespace CommandLine

open Command

variable {line : CommandLine} {context : Option Text} {defaults : Settings}
  {environment : Entries Text}

/-- A run that finds no settings or no roots leaves the host as it is. -/
theorem exists_prepare_or_host_eq (command : Command) (c : Console) :
    (∃ setup, line.prepare context defaults environment c.host = .ok (.ok setup)) ∨
      (line.outcome context defaults environment command c).2.host = c.host := by
  rw [outcome, run_eq]
  split
  · next setup hsetup => exact Or.inl ⟨setup, hsetup⟩
  · exact Or.inr rfl
  · next e _ =>
    right
    cases e <;> rfl

/-- **When the stored selection stays.**  A run of `files` or `render` without a choice does nothing
to the host if it finds no settings or no roots.  Otherwise it leaves the bytes of the stored
selection as they are if all names of that have profiles, whatever could not be read of the roots,
unless the text is written to the very file.  If a name has no profile, and what is left of the
selection can be stored, then what is left is all that is loaded after the run. -/
theorem stored_selection_kept (line : CommandLine) (context : Option Text) (defaults : Settings)
    (environment : Entries Text) (before : Console) {command : Command} {output : Option Text}
    (htakes : TakesStored command output) :
    let after := (line.outcome context defaults environment command before).2.host
    ((∃ setup, line.prepare context defaults environment before.host = .ok (.ok setup)) ∨
        after = before.host) ∧
      ∀ setup, line.prepare context defaults environment before.host = .ok (.ok setup) →
        ((∀ saved, (setup.store.load.run.run before.host).1 = .ok saved →
            ∀ n ∈ saved.names, n ∈ setup.engine.registry.names) →
          (output.getD [] ≠ [] → before.host.HasDirectory) →
            after.readBytes setup.store.path.toText =
                before.host.readBytes setup.store.path.toText ∨
              ∃ path, output = some path ∧ path ≠ [] ∧
                after.SamePlace (outputPath setup path).toText setup.store.path.toText) ∧
        ∀ saved loaded stored, output.getD [] = [] →
          setup.store.load.run.run before.host = (.ok saved, loaded) →
          (∃ n ∈ saved.names, n ∉ setup.engine.registry.names) →
          (setup.store.save (setup.engine.prune saved)).run.run loaded = (.ok (), stored) →
          stored.isDirectory setup.store.path.parent.toText = true →
            setup.engine.prune saved ≠ saved ∧
              setup.store.load.run.run after = (.ok (setup.engine.prune saved), after) := by
  intro after
  refine ⟨exists_prepare_or_host_eq command before, fun setup hsetup => ?_⟩
  have hafter : after = ((Command.run setup command).run.run before).2.host := by
    rw [← outcome_of_prepare hsetup]
  obtain ⟨-, settings, -, hstore⟩ := exists_of_prepare hsetup
  have hin := SelectionStore.isIn_stateDirectory settings
  rw [← hstore] at hin
  rw [hafter]
  constructor
  · intro hknown hwork
    refine htakes.readBytes_eq_or hin (fun saved hload => ?_) hwork
    have hcanonical := SelectionStore.canonical_of_load (Prod.ext hload rfl)
    exact (Engine.prune_eq_self_iff hcanonical).2 (hknown saved hload)
  · rintro saved loaded stored houtput hload ⟨n, hn, hmissing⟩ hsave hdirectory
    have hcanonical := SelectionStore.canonical_of_load hload
    have hprune : setup.engine.prune saved ≠ saved := fun heq =>
      hmissing ((Engine.prune_eq_self_iff hcanonical).1 heq n hn)
    exact ⟨hprune, htakes.load_of_pruned hin houtput hload hprune hsave hdirectory⟩

/-! ## A project with a torn file -/

/-- A shelf with a stored selection and a profile file. -/
def tornShelf (profiles stored : List UInt8) (clock : Nat) : List (Text × Node) :=
  storedShelf stored clock ++ [(".conplug".toList, .file profiles (.given 0))]

/-- A host with that shelf. -/
def tornHost (profiles stored : List UInt8) (clock : Nat) : Host :=
  shelfHost (tornShelf profiles stored clock) (clock + 1)

/-- A profile file that can be decoded, and one that cannot. -/
def wholeFile : List UInt8 := Utf8.encode "w\x7bb\x7d".toList

def tornFile : List UInt8 := [0xff]

/-- The project and the shelf. -/
def tornRoots : List Text := ["/p".toList, "/s".toList]

def tornLine : CommandLine := ⟨tornRoots.map some, none, false, .doctor⟩

def tornEngine : Engine := { (shelfSetup "/s".toList).engine with roots := tornRoots }

def tornStore : SelectionStore := (shelfSetup "/s".toList).store

/-- What is found when the profile file on the shelf cannot be decoded. -/
def tornSetup (report : Diagnostic) : Setup where
  context := "/p".toList
  engine := tornEngine
  store := tornStore
  diagnostics := [report]

section

variable (profiles stored : List UInt8) (clock : Nat)

theorem setUp_torn : ∃ f, setUp (tornHost tornFile stored clock) "/p".toList
    (shelfSettings "/s".toList) tornLine.roots =
      .ok (tornSetup (Engine.parseFailure "/s/.conplug".toList f)) := by
  let unloaded : Engine := ⟨shelfSettings "/s".toList, .empty, tornRoots, []⟩
  have hnormal : normalizeRoots (tornHost tornFile stored clock) "/p".toList tornLine.roots =
      .ok tornRoots := by
    cbv
  have hroots : Engine.ofRoots (shelfSettings "/s".toList) (tornHost tornFile stored clock)
      tornRoots = .ok unloaded := by
    cbv
  have hbytes : (tornHost tornFile stored clock).readBytes (Path.Parsed.ofText
      (Roots.configPath "/s".toList tornEngine.settings.configFileName)).toText =
        .ok tornFile := by
    cbv
  obtain ⟨f, hfind⟩ : ∃ f, Config.find tornEngine.settings (tornHost tornFile stored clock)
      "/s".toList = .unreadable f :=
    Config.find_of_undecodable (by cbv) hbytes (by cbv)
  have hproject : unloaded.loadRoot (tornHost tornFile stored clock) "/p".toList =
      (tornEngine, .ok true) := by
    cbv
  have hshelf : tornEngine.loadRoot (tornHost tornFile stored clock) "/s".toList =
      (tornEngine, ⟨⟨[Engine.parseFailure "/s/.conplug".toList f], []⟩, .ok false⟩) := by
    have hroot : Roots.normalize (tornHost tornFile stored clock) "/s".toList =
        .ok "/s".toList := by
      cbv
    rw [Engine.loadRoot, hroot]
    dsimp only
    rw [Engine.addNormal_of_mem (by decide), Engine.loadNormal_eq, if_neg (by decide), hfind]
    rfl
  have hload : unloaded.loadAll (tornHost tornFile stored clock) =
      Engine.loadEach (tornHost tornFile stored clock) ["/p".toList, "/s".toList] unloaded false :=
    Engine.loadAll_of_fixed
      (List.forall_mem_cons.2 ⟨by cbv, List.forall_mem_singleton.2 (by cbv)⟩)
  refine ⟨f, ?_⟩
  rw [setUp, hnormal]
  dsimp only
  rw [hroots]
  dsimp only
  rw [hload, Engine.loadEach, hproject, Engine.andThen_ok, Engine.loadEach, hshelf]
  rfl

theorem prepare_whole : ∃ setup, tornLine.prepare none shelfDefaults
    (shelfEnvironment "/s".toList) (tornHost wholeFile stored clock) = .ok (.ok setup) ∧
      ['w'] ∈ setup.engine.registry.names :=
  ⟨_, prepare_of_setUp _ _ _ (by cbv), by decide⟩

theorem isDirectory_torn :
    (tornHost profiles stored clock).isDirectory tornStore.path.parent.toText = true := by
  cbv

theorem acquire_torn : tornStore.acquire.run.run (tornHost profiles stored clock) =
    (.ok (), tornHost profiles stored clock) := by
  have hin := SelectionStore.isIn_stateDirectory (shelfSettings "/s".toList)
  have hensure : (tornHost profiles stored clock).ensureFile tornStore.lockPath.toText =
      .ok (tornHost profiles stored clock) := by
    cbv
  have hproper : tornStore.path.parent.IsProper := hin.parent_eq ▸ hin.isProper
  rw [SelectionStore.acquire, run_bind_of_ok
    (HostChange.run_makeDirectories_of_isDirectory hproper (isDirectory_torn _ _ _))]
  exact HostChange.run_step_iff.2 hensure

theorem save_torn (selection : Selection) :
    (tornStore.save selection).run.run (tornHost profiles stored clock) =
      (.ok (), tornHost profiles (Utf8.encode (SelectionStore.encode selection)) (clock + 1)) := by
  have hreplace : ∀ bytes, (tornHost profiles stored clock).replaceFile tornStore.path bytes =
      .ok (tornHost profiles bytes (clock + 1)) := by
    intro bytes
    cbv
  rw [SelectionStore.save, run_bind_of_ok (acquire_torn _ _ _)]
  exact HostChange.run_step_iff.2 (hreplace _)

end

/-- The host with the torn file, where a profile is selected. -/
def tornBefore (name : Text) : Host :=
  tornHost tornFile (Utf8.encode (SelectionStore.encode (.ofNames [name]))) 0

/-- The profile file on the shelf is reported, and the project is found all the same. -/
theorem prepare_torn (name : Text) : ∃ report, report.kind = .configParseFailure ∧
    tornLine.prepare none shelfDefaults (shelfEnvironment "/s".toList) (tornBefore name) =
      .ok (.ok (tornSetup report)) := by
  obtain ⟨f, hf⟩ := setUp_torn (Utf8.encode (SelectionStore.encode (.ofNames [name]))) 0
  exact ⟨_, rfl, prepare_of_setUp _ _ _ hf⟩

theorem load_torn (name : Text) :
    tornStore.load.run.run (tornBefore name) = (.ok (.ofNames [name]), tornBefore name) := by
  have hnode : ∀ bytes, (tornHost tornFile bytes 0).node tornStore.path.toText =
      .ok (.file bytes (.fresh 0)) := by
    intro bytes
    cbv
  rw [tornBefore, SelectionStore.load_of_acquire (hnode _) (acquire_torn _ _ _) (hnode _),
    SelectionStore.decode_encode (Selection.canonical_ofNames _)]

/-- That host after a run. -/
def tornAfter (command : Command) (name : Text) : Host :=
  (tornLine.outcome none shelfDefaults (shelfEnvironment "/s".toList) command
    (freshConsole (tornBefore name))).2.host

/-- While the file on the shelf is torn, a selected profile of the project stays selected, also when
its files are rendered to a file, unless that is the one of the selection.  A profile of the shelf
does not. -/
theorem stored_selection_kept_torn :
    (∃ report, report.kind = .configParseFailure ∧
        tornLine.prepare none shelfDefaults (shelfEnvironment "/s".toList) (tornBefore ['p']) =
          .ok (.ok (tornSetup report))) ∧
      (tornAfter (.files .saved) ['p']).readBytes tornStore.path.toText =
        (tornBefore ['p']).readBytes tornStore.path.toText ∧
      ((tornAfter (.render .saved true (some ['o']) none) ['p']).readBytes tornStore.path.toText =
          (tornBefore ['p']).readBytes tornStore.path.toText ∨
        (tornAfter (.render .saved true (some ['o']) none) ['p']).SamePlace "/p/o".toList
          tornStore.path.toText) ∧
      tornStore.load.run.run (tornAfter (.files .saved) ['w']) =
        (.ok .none, tornAfter (.files .saved) ['w']) := by
  have hknown : ∀ saved, (tornStore.load.run.run (tornBefore ['p'])).1 = .ok saved →
      ∀ n ∈ saved.names, n ∈ tornEngine.registry.names := by
    rw [load_torn]
    rintro _ ⟨⟩
    decide
  have hwork : (tornBefore ['p']).HasDirectory := ⟨_, rfl⟩
  have hmissing : ['w'] ∉ tornEngine.registry.names := by decide
  have hpruned : tornEngine.prune (.ofNames [['w']]) = .none := by cbv
  obtain ⟨-, hfiles⟩ := stored_selection_kept tornLine none shelfDefaults
    (shelfEnvironment "/s".toList) (freshConsole (tornBefore ['p'])) .files
  obtain ⟨-, hrender⟩ := stored_selection_kept tornLine none shelfDefaults
    (shelfEnvironment "/s".toList) (freshConsole (tornBefore ['p']))
    (.render true (some ['o']) none)
  obtain ⟨-, hdropped⟩ := stored_selection_kept tornLine none shelfDefaults
    (shelfEnvironment "/s".toList) (freshConsole (tornBefore ['w'])) .files
  obtain ⟨report, hkind, hsetup⟩ := prepare_torn ['p']
  obtain ⟨report', -, hsetup'⟩ := prepare_torn ['w']
  refine ⟨⟨report, hkind, hsetup⟩, ?_, ?_, ?_⟩
  · obtain hread | ⟨path, hpath, -⟩ := (hfiles _ hsetup).1 hknown fun hne => absurd rfl hne
    · exact hread
    · cases hpath
  · obtain hread | ⟨path, hpath, -, hsame⟩ := (hrender _ hsetup).1 hknown fun _ => hwork
    · exact Or.inl hread
    · obtain rfl := Option.some.inj hpath
      exact Or.inr hsame
  · have hload : tornStore.load.run.run (tornAfter (.files .saved) ['w']) =
        (.ok (tornEngine.prune (.ofNames [['w']])), tornAfter (.files .saved) ['w']) :=
      ((hdropped _ hsetup').2 _ _ _ rfl (load_torn ['w']) ⟨['w'], by decide, hmissing⟩
        (save_torn _ _ _ _) (isDirectory_torn _ _ _)).2
    rwa [hpruned] at hload

/-- **A torn file makes the selection of its profiles forgotten.**  A profile is selected, and the
file that declares it cannot be decoded for once: that is reported, and `files` without a choice
stores that nothing is selected. -/
theorem stored_selection_forgotten :
    (∃ setup, tornLine.prepare none shelfDefaults (shelfEnvironment "/s".toList)
        (tornHost wholeFile (Utf8.encode (SelectionStore.encode (.ofNames [['w']]))) 0) =
          .ok (.ok setup) ∧ ['w'] ∈ setup.engine.registry.names) ∧
      (∃ setup, tornLine.prepare none shelfDefaults (shelfEnvironment "/s".toList)
          (tornBefore ['w']) = .ok (.ok setup) ∧
        (∃ report ∈ setup.diagnostics, report.kind = .configParseFailure) ∧
        setup.store = tornStore) ∧
      tornStore.load.run.run (tornBefore ['w']) = (.ok (.profiles [['w']]), tornBefore ['w']) ∧
      tornStore.load.run.run (tornAfter (.files .saved) ['w']) =
        (.ok .none, tornAfter (.files .saved) ['w']) := by
  obtain ⟨report, hkind, hsetup⟩ := prepare_torn ['w']
  have hin : (tornSetup report).store.IsIn _ _ _ :=
    SelectionStore.isIn_stateDirectory (shelfSettings "/s".toList)
  have hpruned : (tornSetup report).engine.prune (.ofNames [['w']]) = .none := by cbv
  have hload := TakesStored.files.load_of_pruned (c := freshConsole (tornBefore ['w'])) hin rfl
    (load_torn ['w']) (by rw [hpruned]; decide) (save_torn _ _ _ _) (isDirectory_torn _ _ _)
  refine ⟨prepare_whole _ 0, ⟨_, hsetup, ⟨report, List.mem_singleton_self report, hkind⟩, rfl⟩,
    load_torn ['w'], ?_⟩
  rw [hpruned] at hload
  rw [tornAfter, outcome_freshConsole hsetup]
  exact hload

end CommandLine

end Bindery

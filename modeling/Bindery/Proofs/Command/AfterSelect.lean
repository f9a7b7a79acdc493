import Bindery.Proofs.Command.Selecting

/-!
# Running on what was selected

After `select` has stored a choice, `files` and `render` do without a choice what they do with that
choice.  The project has to be found as it was, and the path of the state directory still has to
lead to a directory: the file of the selection takes the place of whatever had its name, and a link
of that name may have been on the way to the state directory or to a root.

* `CommandLine.chosen_after_select`
-/

namespace Bindery

open Console

namespace CommandLine

/-- What a command line with some command comes to: the code of the run or a fault, and the
console. -/
def outcome (line : CommandLine) (context : Option Text) (defaults : Settings)
    (environment : Entries Text) (command : Command) (c : Console) : Except Fault Nat × Console :=
  ({ line with command }.run context defaults environment).run.run c

variable {line : CommandLine} {context : Option Text} {defaults : Settings}
  {environment : Entries Text}

theorem outcome_of_prepare {c : Console} {setup : Command.Setup}
    (hsetup : line.prepare context defaults environment c.host = .ok (.ok setup))
    (command : Command) :
    line.outcome context defaults environment command c =
      (Command.run setup command).run.run c := by
  have hline : { line with command }.prepare context defaults environment c.host =
      .ok (.ok setup) := hsetup
  rw [outcome, run_eq, hline]

/-- A run that ends with the code of success has found its settings and its roots. -/
theorem exists_prepare_of_outcome {command : Command} {c c' : Console}
    (hrun : line.outcome context defaults environment command c = (.ok 0, c')) :
    ∃ setup, line.prepare context defaults environment c.host = .ok (.ok setup) := by
  rw [outcome, run_eq] at hrun
  split at hrun
  · next setup hsetup => exact ⟨setup, hsetup⟩
  · cases hrun
  · next e _ =>
    have hrefuse : ((refuse e).run.run c).1 ≠ .ok 0 := by
      cases e <;> exact nofun
    rw [hrun] at hrefuse
    exact absurd rfl hrefuse

/-- **After `select`, no choice is the choice.**  If `select` with a choice ends well, the project is
found as before, and the path of the state directory leads to a directory, then `files` without a
choice ends like `files` with that choice, in code, output and messages, and leaves the stored
selection and everything else on the host as it was.  The same is true of `render`, where it does
not write to a file. -/
theorem chosen_after_select {choice : Choice} (hchoice : choice ≠ .saved) {before after : Console}
    (hselect : line.outcome context defaults environment (.select choice false) before =
      (.ok 0, after))
    (hproject : line.prepare context defaults environment after.host =
      line.prepare context defaults environment before.host)
    (hstate : ∀ settings,
      Settings.load after.host defaults environment line.settings line.givenSettings = .ok settings →
        after.host.isDirectory (Path.Parsed.ofText settings.stateDirectory).toText = true)
    {c : Console} (hc : c.host = after.host) :
    (line.outcome context defaults environment (.files .saved) c =
        line.outcome context defaults environment (.files choice) c ∧
      (line.outcome context defaults environment (.files .saved) c).2.host = after.host) ∧
    ∀ yes output maxBytes,
      line.outcome context defaults environment (.render .saved yes output maxBytes) c =
          line.outcome context defaults environment (.render choice yes output maxBytes) c ∧
        (output.getD [] = [] →
          (line.outcome context defaults environment (.render .saved yes output maxBytes) c).2.host =
            after.host) := by
  obtain ⟨setup, hsetup⟩ := exists_prepare_of_outcome hselect
  rw [outcome_of_prepare hsetup] at hselect
  have hfound : line.prepare context defaults environment c.host = .ok (.ok setup) := by
    rw [hc, hproject, hsetup]
  obtain ⟨hdeclared, settings, hsettings, hstore⟩ := exists_of_prepare hfound
  -- What is stored is loaded again, and nothing of it is left out.
  obtain ⟨hcanonical, hprune, hsave⟩ := Command.exists_of_runSelect hdeclared hchoice hselect
  have hload : setup.store.load.run.run c.host = (.ok (Command.chosen choice), c.host) := by
    have hin := SelectionStore.isIn_stateDirectory settings
    rw [← hstore] at hin
    rw [hc] at hsettings ⊢
    exact SelectionStore.load_of_save hin hcanonical hsave (hstate settings hsettings)
  have hsaved := Command.run_selectionOf_saved hload hprune
  have hgiven := Command.run_selectionOf_of_ne setup hchoice c
  constructor
  · obtain ⟨act, hkeeps, hact⟩ := Command.exists_runFiles setup
    rw [outcome_of_prepare hfound, outcome_of_prepare hfound]
    show (Command.runFiles setup .saved).run.run c = (Command.runFiles setup choice).run.run c ∧
      ((Command.runFiles setup .saved).run.run c).2.host = after.host
    rw [hact, hact, run_bind_of_ok hsaved, run_bind_of_ok hgiven, ← hc]
    exact ⟨rfl, hkeeps _ c⟩
  · intro yes output maxBytes
    obtain ⟨act, hkeeps, hact⟩ := Command.exists_runRender setup yes output maxBytes
    rw [outcome_of_prepare hfound, outcome_of_prepare hfound]
    show (Command.runRender setup .saved yes output maxBytes).run.run c =
        (Command.runRender setup choice yes output maxBytes).run.run c ∧
      (output.getD [] = [] →
        ((Command.runRender setup .saved yes output maxBytes).run.run c).2.host = after.host)
    rw [hact, hact, run_bind_of_ok hsaved, run_bind_of_ok hgiven, ← hc]
    exact ⟨rfl, fun houtput => hkeeps houtput _ c⟩

/-! ## A project with a shelf for its state -/

/-- A host with a project of one profile and one file, an empty directory, and a directory for the
state of the program. -/
def shelfHost (shelf : List (Text × Node)) (clock : Nat) : Host where
  tree := .directory [
    (['p'], .directory [(".conplug".toList, .file (Utf8.encode "p\x7ba\x7d".toList) (.given 0)),
      (['a'], .file [] (.given 0))]),
    (['d'], .emptyDirectory),
    (['s'], .directory shelf)]
  directory := [['p']]
  lost := 0
  home := ['/']
  users := []
  clock := clock

/-- A command line that gives neither roots nor settings. -/
def shelfLine : CommandLine := ⟨[], none, false, .doctor⟩

def shelfChoice : Choice := .profiles [some ['p']]

def shelfDefaults : Settings := .default ['/']

/-- The environment that names the state directory. -/
def shelfEnvironment (directory : Text) : Entries Text :=
  [("CONPLUG_STATE_DIR".toList, directory)]

def shelfSettings (directory : Text) : Settings :=
  { shelfDefaults with stateDirectory := directory }

/-- What is found of the project, whatever is on the shelf. -/
def shelfSetup (directory : Text) : Command.Setup where
  context := "/p".toList
  engine :=
    { settings := shelfSettings directory
      registry := ⟨[("/p".toList, [(['p'], ⟨['p'], "/p".toList, [], [['a']], []⟩)])]⟩
      roots := ["/p".toList]
      loaded := ["/p".toList] }
  store := ⟨(shelfSettings directory).selectionPath⟩
  diagnostics := []

/-- A console at the beginning of a run. -/
def freshConsole (h : Host) : Console := ⟨h, .empty, [], [], []⟩

theorem outcome_freshConsole {h : Host} {setup : Command.Setup}
    (hsetup : line.prepare context defaults environment h = .ok (.ok setup)) (command : Command) :
    line.outcome context defaults environment command (freshConsole h) =
      (Command.run setup command).run.run (freshConsole h) :=
  outcome_of_prepare hsetup command

variable (directory : Text) (shelf : List (Text × Node)) (clock : Nat)

theorem load_shelf :
    Settings.load (shelfHost shelf clock) shelfDefaults (shelfEnvironment directory) none [] =
      .ok (shelfSettings directory) := by
  cbv

/-- A command line without settings finds what its roots are set up to. -/
theorem prepare_of_setUp {roots : List (Option Text)} {setup : Command.Setup}
    (hsetUp : setUp (shelfHost shelf clock) "/p".toList (shelfSettings directory) roots =
      .ok setup) :
    prepare ⟨roots, none, false, .doctor⟩ none shelfDefaults (shelfEnvironment directory)
      (shelfHost shelf clock) = .ok (.ok setup) := by
  have hcontext : contextIn (shelfHost shelf clock) none = .ok "/p".toList := by cbv
  have hgiven : givenSettings ⟨roots, none, false, .doctor⟩ = [] := rfl
  rw [prepare, hgiven, load_shelf, hcontext]
  exact congrArg Except.ok hsetUp

theorem prepare_shelf :
    shelfLine.prepare none shelfDefaults (shelfEnvironment directory) (shelfHost shelf clock) =
      .ok (.ok (shelfSetup directory)) :=
  prepare_of_setUp _ _ _ (by cbv)

variable {directory shelf clock}

/-- A selection can be stored on a shelf if its two files can, whatever bytes that takes. -/
theorem exists_save_shelf {locked : Host} {after : List UInt8 → Host} (selection : Selection)
    (hthere : (shelfHost shelf clock).isDirectory (Path.Parsed.ofText directory).toText = true)
    (hensure : (shelfHost shelf clock).ensureFile
      (shelfSetup directory).store.lockPath.toText = .ok locked)
    (hreplace : ∀ bytes,
      locked.replaceFile (shelfSetup directory).store.path bytes = .ok (after bytes)) :
    ∃ bytes, ((shelfSetup directory).store.save selection).run.run (shelfHost shelf clock) =
      (.ok (), after bytes) := by
  have hin := SelectionStore.isIn_stateDirectory (shelfSettings directory)
  refine ⟨_, SelectionStore.run_save_iff.2 ⟨shelfHost shelf clock, locked, ?_, hensure, hreplace _⟩⟩
  rw [show (shelfSetup directory).store.path.parent = _ from hin.parent_eq]
  exact HostChange.run_makeDirectories_of_isDirectory hin.isProper hthere

/-- A command line that finds the project can select its profile if the selection can be stored. -/
theorem exists_select_shelf {line : CommandLine} {after : Host}
    (hline : line.prepare none shelfDefaults (shelfEnvironment directory) (shelfHost shelf clock) =
      .ok (.ok (shelfSetup directory)))
    (hsave : ((shelfSetup directory).store.save (.ofNames [['p']])).run.run
      (shelfHost shelf clock) = (.ok (), after)) :
    ∃ c : Console, c.host = after ∧
      line.outcome none shelfDefaults (shelfEnvironment directory) (.select shelfChoice false)
        (freshConsole (shelfHost shelf clock)) = (.ok 0, c) := by
  have hgiven : [some ['p']].mapM Command.required = .ok [['p']] := rfl
  have hselect : ∃ c : Console, c.host = _ ∧ (Command.runSelect (shelfSetup directory) shelfChoice
      false).run.run (freshConsole (shelfHost shelf clock)) = (.ok 0, c) :=
    Command.exists_runSelect hgiven (by cbv) hsave
  obtain ⟨c, hc, hrun⟩ := hselect
  refine ⟨c, hc, ?_⟩
  rw [outcome_freshConsole hline]
  exact hrun

/-- The project has a file to show, whatever is on the shelf. -/
theorem outcome_files_shelf (directory : Text) (shelf : List (Text × Node)) (clock : Nat) :
    (shelfLine.outcome none shelfDefaults (shelfEnvironment directory) (.files shelfChoice)
      (freshConsole (shelfHost shelf clock))).1 = .ok 0 := by
  have hfiles : ((Command.runFiles (shelfSetup directory) shelfChoice).run.run
      (freshConsole (shelfHost shelf clock))).1 = .ok 0 := by cbv
  rw [outcome_freshConsole (prepare_shelf directory shelf clock)]
  exact hfiles

/-- The names of the files of a selection. -/
def shelfName : Text := "selection.json".toList

def shelfLock : Text := "selection.json.lock".toList

theorem isDirectory_shelf (shelf : List (Text × Node)) (clock : Nat) :
    (shelfHost shelf clock).isDirectory (Path.Parsed.ofText "/s".toList).toText = true := by
  cbv

theorem ensureFile_shelf :
    (shelfHost [] 0).ensureFile (shelfSetup "/s".toList).store.lockPath.toText =
      .ok (shelfHost [(shelfLock, .file [] (.fresh 0))] 1) := by
  cbv

theorem replaceFile_shelf (bytes : List UInt8) :
    (shelfHost [(shelfLock, .file [] (.fresh 0))] 1).replaceFile
        (shelfSetup "/s".toList).store.path bytes =
      .ok (shelfHost [(shelfLock, .file [] (.fresh 0)), (shelfName, .file bytes (.fresh 1))]
        2) := by
  cbv

/-- What is selected on an empty shelf is what `files` and `render` take afterwards. -/
theorem chosen_after_select_shelf : ∃ after : Console,
    shelfChoice ≠ .saved ∧
    shelfLine.outcome none shelfDefaults (shelfEnvironment "/s".toList)
      (.select shelfChoice false) (freshConsole (shelfHost [] 0)) = (.ok 0, after) ∧
    shelfLine.prepare none shelfDefaults (shelfEnvironment "/s".toList) after.host =
      shelfLine.prepare none shelfDefaults (shelfEnvironment "/s".toList) (shelfHost [] 0) ∧
    (∀ settings, Settings.load after.host shelfDefaults (shelfEnvironment "/s".toList)
        shelfLine.settings shelfLine.givenSettings = .ok settings →
      after.host.isDirectory (Path.Parsed.ofText settings.stateDirectory).toText = true) ∧
    (shelfLine.outcome none shelfDefaults (shelfEnvironment "/s".toList) (.files .saved)
      (freshConsole after.host)).1 = .ok 0 ∧
    shelfLine.outcome none shelfDefaults (shelfEnvironment "/s".toList) (.files .saved)
        (freshConsole after.host) =
      shelfLine.outcome none shelfDefaults (shelfEnvironment "/s".toList) (.files shelfChoice)
        (freshConsole after.host) ∧
    (shelfLine.outcome none shelfDefaults (shelfEnvironment "/s".toList) (.files .saved)
      (freshConsole after.host)).2.host = after.host ∧
    shelfLine.outcome none shelfDefaults (shelfEnvironment "/s".toList)
        (.render .saved true none none) (freshConsole after.host) =
      shelfLine.outcome none shelfDefaults (shelfEnvironment "/s".toList)
        (.render shelfChoice true none none) (freshConsole after.host) := by
  obtain ⟨bytes, hsave⟩ :=
    exists_save_shelf _ (isDirectory_shelf [] 0) ensureFile_shelf replaceFile_shelf
  obtain ⟨after, hhost, hselect⟩ := exists_select_shelf (prepare_shelf _ _ _) hsave
  have hproject : shelfLine.prepare none shelfDefaults (shelfEnvironment "/s".toList) after.host =
      shelfLine.prepare none shelfDefaults (shelfEnvironment "/s".toList) (shelfHost [] 0) := by
    rw [hhost, prepare_shelf, prepare_shelf]
  have hstate : ∀ settings, Settings.load after.host shelfDefaults
      (shelfEnvironment "/s".toList) shelfLine.settings shelfLine.givenSettings = .ok settings →
        after.host.isDirectory (Path.Parsed.ofText settings.stateDirectory).toText = true := by
    intro settings hsettings
    rw [hhost] at hsettings ⊢
    obtain rfl := Except.ok.inj ((load_shelf _ _ _).symm.trans hsettings)
    exact isDirectory_shelf _ 2
  have hchosen : shelfChoice ≠ .saved := by decide
  obtain ⟨⟨hfiles, hkept⟩, hrender⟩ := chosen_after_select hchosen hselect hproject hstate
    (c := freshConsole after.host) rfl
  refine ⟨after, hchosen, hselect, hproject, hstate, ?_, hfiles, hkept, (hrender true none none).1⟩
  rw [hfiles, hhost]
  exact outcome_files_shelf _ _ 2

/-! ## Links that have the name of the selection -/

/-- What a run shows: its code or a fault, its output and its messages. -/
def shown (run : Except Fault Nat × Console) : Except Fault Nat × Text × Text :=
  (run.1, run.2.output, run.2.errors)

/-- A shelf with a link that has the name of the selection. -/
def linkedShelf (target : Text) : List (Text × Node) := [(shelfName, .link target)]

/-- That shelf with the lock file. -/
def lockedShelf (target : Text) : List (Text × Node) :=
  linkedShelf target ++ [(shelfLock, .file [] (.fresh 0))]

/-- A shelf with a stored selection in the place of the link. -/
def storedShelf (bytes : List UInt8) (clock : Nat) : List (Text × Node) :=
  [(shelfName, .file bytes (.fresh clock)), (shelfLock, .file [] (.fresh 0))]

/-- The state directory by a path that leads through the name of the selection. -/
def detour : Text := "/s/selection.json/../s".toList

/-- The shelf whose link is on that way. -/
def detourHost : Host := shelfHost (linkedShelf "/d".toList) 0

theorem locate_detour : detourHost.locate .target detour =
    .ok ⟨[['s']], some (.directory (linkedShelf "/d".toList))⟩ := by
  cbv

theorem isDirectory_detour :
    detourHost.isDirectory (Path.Parsed.ofText detour).toText = true := by
  cbv

theorem ensureFile_detour :
    detourHost.ensureFile (shelfSetup detour).store.lockPath.toText =
      .ok (shelfHost (lockedShelf "/d".toList) 1) := by
  cbv

theorem replaceFile_detour (bytes : List UInt8) :
    (shelfHost (lockedShelf "/d".toList) 1).replaceFile (shelfSetup detour).store.path bytes =
      .ok (shelfHost (storedShelf bytes 1) 2) := by
  cbv

theorem runFiles_detour (bytes : List UInt8) :
    ((Command.runFiles (shelfSetup detour) .saved).run.run
      (freshConsole (shelfHost (storedShelf bytes 1) 2))).1 = .ok 1 := by
  cbv

/-- A command line whose only root is the name of the selection. -/
def linkedLine : CommandLine := ⟨[some "/s/selection.json".toList], none, false, .doctor⟩

/-- The shelf whose link leads to the project. -/
def linkedHost : Host := shelfHost (linkedShelf "/p".toList) 0

/-- What that command line finds when the name is that of a file. -/
def lostSetup : Command.Setup where
  context := "/p".toList
  engine :=
    { settings := shelfSettings "/s".toList
      registry := ⟨[]⟩
      roots := ["/s/selection.json".toList]
      loaded := [] }
  store := ⟨(shelfSettings "/s".toList).selectionPath⟩
  diagnostics := []

theorem prepare_linked :
    linkedLine.prepare none shelfDefaults (shelfEnvironment "/s".toList) linkedHost =
      .ok (.ok (shelfSetup "/s".toList)) :=
  prepare_of_setUp _ _ _ (by cbv)

theorem prepare_lost (bytes : List UInt8) :
    linkedLine.prepare none shelfDefaults (shelfEnvironment "/s".toList)
      (shelfHost (storedShelf bytes 1) 2) = .ok (.ok lostSetup) :=
  prepare_of_setUp _ _ _ (by cbv)

theorem ensureFile_linked :
    linkedHost.ensureFile (shelfSetup "/s".toList).store.lockPath.toText =
      .ok (shelfHost (lockedShelf "/p".toList) 1) := by
  cbv

theorem replaceFile_linked (bytes : List UInt8) :
    (shelfHost (lockedShelf "/p".toList) 1).replaceFile (shelfSetup "/s".toList).store.path bytes =
      .ok (shelfHost (storedShelf bytes 1) 2) := by
  cbv

theorem ensureFile_stored (bytes : List UInt8) :
    (shelfHost (storedShelf bytes 1) 2).ensureFile
      (shelfSetup "/s".toList).store.lockPath.toText = .ok (shelfHost (storedShelf bytes 1) 2) := by
  cbv

theorem replaceFile_stored (bytes other : List UInt8) :
    (shelfHost (storedShelf bytes 1) 2).replaceFile (shelfSetup "/s".toList).store.path other =
      .ok (shelfHost (storedShelf other 2) 3) := by
  cbv

theorem errors_lost (bytes : List UInt8) :
    ((Command.runFiles lostSetup shelfChoice).run.run
      (freshConsole (shelfHost (storedShelf bytes 1) 2))).2.errors =
        "[conplug] ".toList ++ (Engine.unknownProfile ['p']).toText ++ ['\n'] := by
  have hchosen : Command.chosen shelfChoice = .profiles [['p']] := by decide
  have hselection := Command.run_selectionOf_of_ne lostSetup (by decide : shelfChoice ≠ .saved)
    (freshConsole (shelfHost (storedShelf bytes 1) 2))
  rw [Command.runFiles, run_bind_of_ok hselection, hchosen, if_neg (by decide), run_bind,
    run_resolveSelection]
  have hfound : lostSetup.engine.resolveSelection (shelfHost (storedShelf bytes 1) 2) .empty
      (.profiles [['p']]) = ⟨⟨[Engine.unknownProfile ['p']], []⟩, .ok []⟩ := rfl
  have hsorted : Text.sortedSet [] = [] := by cbv
  rw [freshConsole, hfound]
  dsimp only [Except.map]
  rw [hsorted]
  rfl

/-- Where the only root is a file, the stored name is left out, and nothing is selected. -/
theorem errors_lost_saved {bytes : List UInt8}
    (hsave : ((shelfSetup "/s".toList).store.save (.ofNames [['p']])).run.run linkedHost =
      (.ok (), shelfHost (storedShelf bytes 1) 2)) :
    ((Command.runFiles lostSetup .saved).run.run
      (freshConsole (shelfHost (storedShelf bytes 1) 2))).2.errors =
        "[conplug] ".toList ++ Command.nothingSelected ++ ['\n'] := by
  have hload : lostSetup.store.load.run.run (shelfHost (storedShelf bytes 1) 2) =
      (.ok (.ofNames [['p']]), shelfHost (storedShelf bytes 1) 2) :=
    SelectionStore.load_of_save (SelectionStore.isIn_stateDirectory (shelfSettings "/s".toList))
      (Selection.canonical_ofNames _) hsave (isDirectory_shelf _ _)
  have hnone : lostSetup.engine.prune (.ofNames [['p']]) = .none := by cbv
  obtain ⟨other, hempty⟩ := exists_save_shelf .none
    (isDirectory_shelf _ _) (ensureFile_stored bytes) (replaceFile_stored bytes)
  have hpruned : lostSetup.engine.prune (.ofNames [['p']]) ≠ .ofNames [['p']] := by
    rw [hnone]
    decide
  have hselection := Command.run_selectionOf_pruned
    (c := freshConsole (shelfHost (storedShelf bytes 1) 2)) hload hpruned (hnone ▸ hempty)
  rw [Command.runFiles, run_bind_of_ok hselection, hnone]
  rfl

/-- **A selection may be lost.**  Storing it puts a file in the place of a link that has its name.
If the path of the state directory leads through that link, to a directory outside the only root,
the project is found as before, but the state directory is not found any more: `files` with the
choice shows a file, and `files` without one says that nothing is selected.  If the only root is
given as that link, the state directory stays where it is and the project stays as it is, but the
root is another one: `files` with the choice reports an unknown profile, and `files` without one
says that nothing is selected. -/
theorem saved_lost_through_link :
    (∃ before after : Console,
      (∃ setup, shelfLine.prepare none shelfDefaults (shelfEnvironment detour) before.host =
          .ok (.ok setup) ∧ setup.engine.roots = ["/p".toList]) ∧
      (∃ n, before.host.locate .target detour = .ok ⟨[['s']], some n⟩) ∧
      shelfLine.outcome none shelfDefaults (shelfEnvironment detour) (.select shelfChoice false)
        before = (.ok 0, after) ∧
      shelfLine.prepare none shelfDefaults (shelfEnvironment detour) after.host =
        shelfLine.prepare none shelfDefaults (shelfEnvironment detour) before.host ∧
      shown (shelfLine.outcome none shelfDefaults (shelfEnvironment detour) (.files .saved)
        (freshConsole after.host)) ≠
      shown (shelfLine.outcome none shelfDefaults (shelfEnvironment detour) (.files shelfChoice)
        (freshConsole after.host))) ∧
    ∃ before after : Console,
      (∃ setup, linkedLine.prepare none shelfDefaults (shelfEnvironment "/s".toList) before.host =
          .ok (.ok setup) ∧ setup.engine.roots = ["/p".toList]) ∧
      linkedLine.outcome none shelfDefaults (shelfEnvironment "/s".toList)
        (.select shelfChoice false) before = (.ok 0, after) ∧
      after.host.isDirectory "/s".toList = true ∧
      after.host.tree.get? [['p']] = before.host.tree.get? [['p']] ∧
      shown (linkedLine.outcome none shelfDefaults (shelfEnvironment "/s".toList) (.files .saved)
        (freshConsole after.host)) ≠
      shown (linkedLine.outcome none shelfDefaults (shelfEnvironment "/s".toList)
        (.files shelfChoice) (freshConsole after.host)) := by
  constructor
  · obtain ⟨bytes, hsave⟩ :=
      exists_save_shelf _ isDirectory_detour ensureFile_detour replaceFile_detour
    obtain ⟨after, hhost, hselect⟩ := exists_select_shelf (prepare_shelf _ _ _) hsave
    refine ⟨_, after, ⟨shelfSetup detour, prepare_shelf _ _ _, rfl⟩, ⟨_, locate_detour⟩, hselect,
      ?_, fun hshown => ?_⟩
    · rw [hhost, prepare_shelf]
      exact (prepare_shelf _ _ _).symm
    · rw [hhost] at hshown
      have hcode : Except.ok 1 = (Except.ok 0 : Except Fault Nat) := by
        rw [← runFiles_detour bytes, ← outcome_files_shelf detour (storedShelf bytes 1) 2]
        rw [outcome_freshConsole (prepare_shelf _ _ _)] at hshown
        exact (Prod.mk.inj hshown).1
      cases hcode
  · obtain ⟨bytes, hsave⟩ := exists_save_shelf _
      (isDirectory_shelf _ 0) ensureFile_linked replaceFile_linked
    obtain ⟨after, hhost, hselect⟩ := exists_select_shelf prepare_linked hsave
    refine ⟨_, after, ⟨_, prepare_linked, rfl⟩, hselect, ?_, ?_, fun hshown => ?_⟩
    · rw [hhost]
      exact isDirectory_shelf _ _
    · rw [hhost]
      rfl
    · rw [hhost, outcome_freshConsole (prepare_lost bytes),
        outcome_freshConsole (prepare_lost bytes)] at hshown
      have herrors := (errors_lost_saved hsave).symm.trans
        ((congrArg (·.2.2) hshown).trans (errors_lost bytes))
      exact absurd herrors (by decide)

end CommandLine

end Bindery

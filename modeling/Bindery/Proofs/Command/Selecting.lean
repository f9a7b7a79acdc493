import Bindery.Proofs.Command.Quiet
import Bindery.Proofs.Engine.Pruning
import Bindery.Proofs.Selection.Kept

/-!
# The stored selection and the given one

`select` stores what the other commands would take for the selection if they were given the same
choice.  When they are run without a choice, they load it, leave out names without a profile, and go
on as with the choice.

* `CommandLine.prepare`: what a command line finds on a host before its command begins.
* `Command.exists_of_runSelect`: what `select` has stored when it ends well.
-/

namespace Bindery

open Console

/-! ## Before the command -/

namespace CommandLine

/-- What a command line finds on a host before its command begins. -/
def prepare (line : CommandLine) (context : Option Text) (defaults : Settings)
    (environment : Entries Text) (h : Host) : Except SettingsFault (Except Fault Command.Setup) :=
  (Settings.load h defaults environment line.settings line.givenSettings).map fun settings =>
    (contextIn h context).bind fun directory => setUp h directory settings line.roots

/-- Settings that are not loaded end a run. -/
def refuse : SettingsFault → Action Nat
  | .unknownHome => throw .unknownHome
  | .tooDeep => throw .tooDeep
  | e => do
    printError e.message
    return 2

variable {line : CommandLine} {context : Option Text} {defaults : Settings}
  {environment : Entries Text}

/-- A run is the command on what was found. -/
theorem run_eq (line : CommandLine) (context : Option Text) (defaults : Settings)
    (environment : Entries Text) (c : Console) :
    (line.run context defaults environment).run.run c =
      match line.prepare context defaults environment c.host with
      | .ok (.ok setup) => (Command.run setup line.command).run.run c
      | .ok (.error e) => (.error e, c)
      | .error e => (refuse e).run.run c := by
  have hhost : Console.getHost.run.run c = (.ok c.host, c) := rfl
  rw [run, run_bind_of_ok hhost, prepare]
  cases Settings.load c.host defaults environment line.settings line.givenSettings with
  | error e => cases e <;> rfl
  | ok settings =>
    dsimp only
    rw [run_bind_of_ok hhost, run_bind, run_liftM]
    dsimp only [Except.map]
    cases contextIn c.host context with
    | error e => rfl
    | ok directory =>
      dsimp only [Except.bind]
      rw [run_bind_of_ok hhost, run_bind, run_liftM]
      cases setUp c.host directory settings line.roots <;> rfl

/-- What was found comes from loading roots whose files declare the profiles. -/
theorem exists_of_prepare {h : Host} {setup : Command.Setup}
    (hsetup : line.prepare context defaults environment h = .ok (.ok setup)) :
    setup.engine.registry.Declared ∧ ∃ settings : Settings,
      Settings.load h defaults environment line.settings line.givenSettings = .ok settings ∧
        setup.store = ⟨settings.selectionPath⟩ := by
  obtain ⟨settings, hsettings, hfound⟩ := map_eq_ok_iff.1 hsetup
  obtain ⟨directory, -, hsetUp⟩ := bind_eq_ok_iff.1 hfound
  rw [setUp] at hsetUp
  split at hsetUp
  · cases hsetUp
  · split at hsetUp
    · cases hsetUp
    · next engine hengine =>
      dsimp only at hsetUp
      obtain ⟨_, -, rfl⟩ := map_eq_ok_iff.1 hsetUp
      have hdeclared := (Engine.Kept.declared h).addRoots .empty hengine
      exact ⟨(Engine.Kept.declared h).loadFrom hdeclared _ 0 false, settings, hsettings, rfl⟩

end CommandLine

/-! ## Choices -/

namespace Command

/-- A change of the host, as an action. -/
theorem run_change {α : Type} (x : HostChange α) (c : Console) :
    (change x).run.run c =
      ((x.run.run c.host).1, { c with host := (x.run.run c.host).2 }) := by
  have hhost : getHost.run.run c = (.ok c.host, c) := rfl
  rw [change, run_bind_of_ok hhost]
  obtain ⟨result, h⟩ := x.run.run c.host
  cases result <;> rfl

/-- The selection that a choice stands for, if it is not the stored one. -/
def chosen : Choice → Selection
  | .saved => .none
  | .profiles names => .ofNames (names.filterMap id)
  | .all => .allFiles

variable {s : Setup} {choice : Choice}

theorem run_selectionOf_of_ne (s : Setup) (hchoice : choice ≠ .saved) (c : Console) :
    (selectionOf s choice).run.run c = (.ok (chosen choice), c) := by
  cases choice with
  | saved => exact absurd rfl hchoice
  | profiles names => rfl
  | all => rfl

/-- Without a choice, what is loaded is taken as it is if names without a profile are not among
it. -/
theorem run_selectionOf_kept (c : Console)
    (hprune : ∀ saved, (s.store.load.run.run c.host).1 = .ok saved → s.engine.prune saved = saved) :
    (selectionOf s .saved).run.run c =
      ((s.store.load.run.run c.host).1, { c with host := (s.store.load.run.run c.host).2 }) := by
  rw [selectionOf, run_bind, run_change]
  generalize s.store.load.run.run c.host = loading at hprune ⊢
  obtain ⟨result, h⟩ := loading
  cases result with
  | error e => rfl
  | ok saved =>
    dsimp only
    rw [hprune saved rfl, if_neg (by simp)]
    rfl

/-- Without a choice, a selection that is loaded as it is and has profiles for all names is taken. -/
theorem run_selectionOf_saved {selection : Selection} {c : Console}
    (hload : s.store.load.run.run c.host = (.ok selection, c.host))
    (hprune : s.engine.prune selection = selection) :
    (selectionOf s .saved).run.run c = (.ok selection, c) := by
  have hkept : ∀ saved, (s.store.load.run.run c.host).1 = .ok saved →
      s.engine.prune saved = saved := by
    rw [hload]
    rintro _ ⟨⟩
    exact hprune
  rw [run_selectionOf_kept c hkept, hload]

/-- Without a choice, names of the stored selection that have no profile are dropped for good. -/
theorem run_selectionOf_pruned {selection : Selection} {c : Console} {loaded stored : Host}
    (hload : s.store.load.run.run c.host = (.ok selection, loaded))
    (hprune : s.engine.prune selection ≠ selection)
    (hsave : (s.store.save (s.engine.prune selection)).run.run loaded = (.ok (), stored)) :
    (selectionOf s .saved).run.run c =
      (.ok (s.engine.prune selection), { c with host := stored }) := by
  have hchange : (change s.store.load).run.run c = (.ok selection, { c with host := loaded }) := by
    rw [run_change, hload]
  have hstore : (change (s.store.save (s.engine.prune selection))).run.run
      { c with host := loaded } = (.ok (), { c with host := stored }) := by
    rw [run_change, hsave]
  rw [selectionOf, run_bind_of_ok hchange]
  dsimp only
  rw [if_pos (by simpa using hprune), run_bind_of_ok hstore]
  rfl

/-- A selection that is stored is printed after that. -/
theorem run_storeSelection (s : Setup) (selection : Selection) (c : Console) :
    ∃ after : Console, after.host = ((s.store.save selection).run.run c.host).2 ∧
      (storeSelection s selection).run.run c =
        (((s.store.save selection).run.run c.host).1.map fun _ => 0, after) := by
  have hprint : ∀ c, ((printJson selection.toJson >>= fun _ => pure 0 : Action Nat).run.run c).1 =
      .ok 0 := fun _ => rfl
  have hkeeps : KeepsHost (printJson selection.toJson >>= fun _ => pure 0 : Action Nat) :=
    (KeepsHost.printJson _).bind fun _ => .pure _
  rw [storeSelection, run_bind, run_change]
  obtain ⟨result, h⟩ := (s.store.save selection).run.run c.host
  cases result with
  | error e => exact ⟨{ c with host := h }, rfl, rfl⟩
  | ok _ => exact ⟨_, hkeeps { c with host := h }, Prod.ext (hprint _) rfl⟩

theorem filterMap_of_mapM_required {given : List (Option Text)} {names : List Text}
    (hgiven : given.mapM required = .ok names) : given.filterMap id = names := by
  have hpairs := mapM_eq_ok_iff.1 hgiven
  clear hgiven
  induction hpairs with
  | nil => rfl
  | @cons name text given names hname _ ih =>
    cases name with
    | none => cases hname
    | some t =>
      obtain rfl := Except.ok.inj hname
      exact congrArg _ ih

/-- A selection of names that all have profiles keeps its names. -/
theorem prune_ofNames {e : Engine} (he : e.registry.Declared) {names : List Text}
    (hnames : ∀ n ∈ names, e.registry.has n = true) :
    e.prune (.ofNames names) = .ofNames names := by
  refine Engine.prune_eq_self (Selection.canonical_ofNames names) fun n hn => ?_
  obtain ⟨m, hm, rfl⟩ := Selection.exists_trim_of_mem_names hn
  -- A name that has a profile is trimmed already.
  obtain ⟨p, hp⟩ := Option.isSome_iff_exists.1 (hnames m hm)
  rw [he.trim_of_get? hp]
  exact hnames m hm

/-- When `select` ends well, it has stored what its choice stands for, and all names of that have
profiles. -/
theorem exists_of_runSelect (hdeclared : s.engine.registry.Declared) (hchoice : choice ≠ .saved)
    {c₀ c₁ : Console} (hrun : (runSelect s choice false).run.run c₀ = (.ok 0, c₁)) :
    (chosen choice).Canonical ∧ s.engine.prune (chosen choice) = chosen choice ∧
      (s.store.save (chosen choice)).run.run c₀.host = (.ok (), c₁.host) := by
  unfold runSelect at hrun
  obtain ⟨_, c, hprinted, hrun⟩ := exists_of_run_bind hrun
  have hhost := (IsSilent.printDiagnostics _).keepsHost.part_eq hprinted
  have hstored : ∀ selection, (storeSelection s selection).run.run c = (.ok 0, c₁) →
      (s.store.save selection).run.run c₀.host = (.ok (), c₁.host) := by
    intro selection hrun
    obtain ⟨after, hafter, hstore⟩ := run_storeSelection s selection c
    rw [hrun] at hstore
    obtain ⟨hresult, rfl⟩ := Prod.mk.inj hstore
    obtain ⟨_, hsaved, -⟩ := map_eq_ok_iff.1 hresult.symm
    rw [hhost] at hsaved hafter
    exact Prod.ext hsaved hafter.symm
  rw [if_neg (by decide)] at hrun
  cases choice with
  | saved => exact absurd rfl hchoice
  | all => exact ⟨trivial, rfl, hstored _ hrun⟩
  | profiles given =>
    dsimp only at hrun
    obtain ⟨names, c', hnames, hrun⟩ := exists_of_run_bind hrun
    rw [run_liftM] at hnames
    obtain ⟨hgiven, rfl⟩ := Prod.mk.inj hnames
    have hchosen : chosen (.profiles given) = .ofNames names := by
      rw [chosen, filterMap_of_mapM_required hgiven]
    rw [hchosen]
    split at hrun
    · next hall =>
      have hknown : ∀ n ∈ names, s.engine.registry.has n = true := by
        intro n hn
        have hnot := List.filter_eq_nil_iff.1 hall n hn
        simpa using hnot
      exact ⟨Selection.canonical_ofNames names, prune_ofNames hdeclared hknown, hstored _ hrun⟩
    · obtain ⟨_, c', -, hcode⟩ := exists_of_run_bind hrun
      cases hcode

/-- `select` ends well if all names have profiles and the selection can be stored. -/
theorem exists_runSelect {given : List (Option Text)} {names : List Text}
    (hgiven : given.mapM required = .ok names)
    (hknown : names.filter (!s.engine.registry.has ·) = []) {c₀ : Console} {h₁ : Host}
    (hsave : (s.store.save (.ofNames names)).run.run c₀.host = (.ok (), h₁)) :
    ∃ c₁ : Console, c₁.host = h₁ ∧
      (runSelect s (.profiles given) false).run.run c₀ = (.ok 0, c₁) := by
  obtain ⟨c, hhost, -, hprinted⟩ := exists_run_printDiagnostics s.diagnostics c₀
  obtain ⟨after, hafter, hstored⟩ := run_storeSelection s (.ofNames names) c
  rw [hhost, hsave] at hafter hstored
  refine ⟨after, hafter, ?_⟩
  unfold runSelect
  rw [run_bind_of_ok hprinted, if_neg (by decide)]
  dsimp only
  rw [hgiven, run_bind_of_ok (run_liftM _ c), hknown]
  exact hstored

end Command

end Bindery

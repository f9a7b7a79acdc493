import Bindery.Command.Run
import Bindery.Proofs.Running

/-!
# Actions that leave the host alone

Printing, asking and resolving a selection change what a command has printed, read and remembered,
and leave the host as it is.  So does everything that `files` and `render` do once they know their
selection, unless the rendered text is written to a file.

* `Console.Keeps`, `Console.KeepsHost`, `Console.IsSilent` and `Console.Moves`, and their closure
  under sequencing.
* `Command.exists_runFiles`, `Command.exists_runRender`: the commands as what follows a choice.
-/

namespace Bindery

namespace Console

/-- Resolving a selection reads files, and changes only what is remembered of them. -/
theorem run_resolveSelection (e : Engine) (s : Selection) (c : Console) :
    (resolveSelection e s).run.run c =
      ((e.resolveSelection c.host c.cache s).result.map fun files =>
          (Text.sortedSet files, (e.resolveSelection c.host c.cache s).notes.diagnostics),
        { c with
          cache := e.refreshed c.host c.cache (e.resolveSelection c.host c.cache s).notes }) := by
  rw [resolveSelection, run_bind_of_ok (run_get c), run_bind_of_ok (run_set c _), run_bind,
    run_liftM]
  cases (e.resolveSelection c.host c.cache s).result <;> rfl

/-- An action after which a part of the console is what it was. -/
def Keeps {α γ : Type} (part : Console → γ) (x : Action α) : Prop :=
  ∀ c, part (x.run.run c).2 = part c

/-- An action after which the host is what it was. -/
abbrev KeepsHost {α : Type} (x : Action α) : Prop := Keeps Console.host x

/-- An action that neither changes the host nor shows anything on the output. -/
abbrev IsSilent {α : Type} (x : Action α) : Prop := Keeps (fun c => (c.host, c.output)) x

variable {α β γ δ : Type} {part : Console → γ} {x : Action α}

namespace Keeps

theorem part_eq (hx : Keeps part x) {c c' : Console} {result : Except Fault α}
    (hrun : x.run.run c = (result, c')) : part c' = part c := by
  have hc := hx c
  rwa [hrun] at hc

theorem comp (hx : Keeps part x) (f : γ → δ) : Keeps (fun c => f (part c)) x :=
  fun c => congrArg f (hx c)

theorem pure (a : α) : Keeps part (Pure.pure a : Action α) := fun _ => rfl

theorem liftM (r : Except Fault α) : Keeps part (liftM r : Action α) := fun c => by
  rw [run_liftM]

theorem set {f : Console → Console} (hf : ∀ c, part (f c) = part c) :
    Keeps part (modify f : Action PUnit) := fun c => hf c

theorem bind {f : α → Action β} (hx : Keeps part x) (hf : ∀ a, Keeps part (f a)) :
    Keeps part (x >>= f) := by
  intro c
  rw [run_bind]
  split
  · next a next hnext => exact (hf a next).trans (hx.part_eq hnext)
  · next e next hnext => exact hx.part_eq hnext

theorem ite {p : Prop} [Decidable p] {y : Action α} (hx : Keeps part x) (hy : Keeps part y) :
    Keeps part (if p then x else y) := by
  split
  · exact hx
  · exact hy

theorem forM {f : β → Action PUnit} (hf : ∀ b, Keeps part (f b)) (bs : List β) :
    Keeps part (bs.forM f) := by
  induction bs with
  | nil => exact .pure _
  | cons b bs ih => exact (hf b).bind fun _ => ih

end Keeps

namespace KeepsHost

theorem print (s : Text) : KeepsHost (Console.print s) := .set fun _ => rfl

theorem printLine (s : Text) : KeepsHost (Console.printLine s) := .print _

theorem printJson (v : Json) : KeepsHost (Console.printJson v) := .printLine _

end KeepsHost

namespace IsSilent

theorem keepsHost (hx : IsSilent x) : KeepsHost x := hx.comp Prod.fst

theorem keepsOutput (hx : IsSilent x) : Keeps Console.output x := hx.comp Prod.snd

theorem printErrorText (s : Text) : IsSilent (Console.printErrorText s) := .set fun _ => rfl

theorem printError (s : Text) : IsSilent (Console.printError s) := .printErrorText _

theorem printDiagnostics (ds : List Diagnostic) : IsSilent (Console.printDiagnostics ds) :=
  .forM (fun _ => printError _) ds

theorem readLine : IsSilent Console.readLine := fun _ => rfl

theorem confirm (question : Text) : IsSilent (Console.confirm question) :=
  (printErrorText _).bind fun _ => readLine.bind fun _ => .pure _

theorem getHost : IsSilent Console.getHost := fun _ => rfl

theorem resolveSelection (e : Engine) (s : Selection) :
    IsSilent (Console.resolveSelection e s) := fun c => by
  rw [run_resolveSelection]

end IsSilent

/-- An action that takes the host to one that is related to it. -/
def Moves {α : Type} (R : Host → Host → Prop) (x : Action α) : Prop :=
  ∀ c, R c.host (x.run.run c).2.host

namespace Moves

variable {R : Host → Host → Prop} {f : α → Action β}

theorem of_keepsHost (hR : ∀ h, R h h) (hx : KeepsHost x) : Moves R x := by
  intro c
  rw [hx c]
  exact hR c.host

theorem after (hR : ∀ h, R h h) (hx : KeepsHost x) (hf : ∀ a, Moves R (f a)) :
    Moves R (x >>= f) := by
  intro c
  rw [run_bind]
  split
  · next a next hnext =>
    rw [← hx.part_eq hnext]
    exact hf a next
  · next e next hnext =>
    rw [hx.part_eq hnext]
    exact hR c.host

theorem before (hx : Moves R x) (hf : ∀ a, KeepsHost (f a)) : Moves R (x >>= f) := by
  intro c
  have hnext := hx c
  rw [run_bind]
  split
  · next a next hrun =>
    rw [hrun] at hnext
    rwa [hf a next]
  · next e next hrun => rwa [hrun] at hnext

end Moves

/-- Reports can always be printed. -/
theorem exists_run_printDiagnostics (ds : List Diagnostic) (c : Console) :
    ∃ after : Console, after.host = c.host ∧ after.output = c.output ∧
      (printDiagnostics ds).run.run c = (.ok (), after) := by
  have hok : ((printDiagnostics ds).run.run c).1 = .ok () := by
    induction ds generalizing c with
    | nil => rfl
    | cons d ds ih => exact ih _
  have hsilent := IsSilent.printDiagnostics ds
  exact ⟨_, hsilent.keepsHost c, hsilent.keepsOutput c, Prod.ext hok rfl⟩

end Console

namespace Command

open Console

/-- `files` is what it does with a selection, after the choice of one. -/
theorem exists_runFiles (s : Setup) :
    ∃ act : Selection → Action Nat, (∀ selection, KeepsHost (act selection)) ∧
      ∀ choice, runFiles s choice = selectionOf s choice >>= act := by
  refine ⟨_, fun selection => ?_, fun choice => rfl⟩
  refine .ite ((IsSilent.printError _).keepsHost.bind fun _ => .pure _) ?_
  refine (IsSilent.resolveSelection _ _).keepsHost.bind fun found => ?_
  refine (IsSilent.printDiagnostics _).keepsHost.bind fun _ => ?_
  exact (Keeps.forM (fun _ => KeepsHost.printLine _) _).bind fun _ => .pure _

theorem isSilent_mayRender (selection : Selection) (yes : Bool) (maxBytes : Int) :
    IsSilent (mayRender selection yes maxBytes) :=
  .ite ((Keeps.liftM _).bind fun _ => IsSilent.confirm _) (.pure _)

theorem isSilent_printSize (result : RenderResult) : IsSilent (printSize result) := by
  refine .ite (IsSilent.printError _) ?_
  cases result.largest with
  | none => exact .pure _
  | some f => exact IsSilent.printError _

/-- `render` is what it does with a selection, after the choice of one; to the host it does only what
writing the text to a file does. -/
theorem exists_runRender_moves (s : Setup) (yes : Bool) (output : Option Text)
    (maxBytes : Option Int) :
    ∃ act : Selection → Action Nat,
      (∀ R : Selection → Host → Host → Prop, (∀ selection h, R selection h h) →
        (∀ selection path content, output = some path → path ≠ [] → selection.isEmpty = false →
          Moves (R selection) (writeOutput s path content)) →
            ∀ selection, Moves (R selection) (act selection)) ∧
        ∀ choice, runRender s choice yes output maxBytes = selectionOf s choice >>= act := by
  refine ⟨_, fun R hrefl hwrite selection => ?_, fun choice => rfl⟩
  dsimp only
  split
  · exact .of_keepsHost (hrefl _) ((IsSilent.printError _).keepsHost.bind fun _ => .pure _)
  next hselection =>
  refine .after (hrefl _) (isSilent_mayRender _ _ _).keepsHost fun may => ?_
  split
  · exact .of_keepsHost (hrefl _) (.pure _)
  refine .after (hrefl _) (IsSilent.resolveSelection _ _).keepsHost fun found => ?_
  split
  · exact .of_keepsHost (hrefl _) ((IsSilent.printDiagnostics _).keepsHost.bind fun _ =>
      (IsSilent.printError _).keepsHost.bind fun _ => .pure _)
  refine .after (hrefl _) IsSilent.getHost.keepsHost fun h => ?_
  refine .after (hrefl _) (Keeps.liftM _) fun result => ?_
  refine .after (hrefl _) (IsSilent.printDiagnostics _).keepsHost fun _ => ?_
  have hend : KeepsHost (do
      printSize result
      Pure.pure 0) := (isSilent_printSize result).keepsHost.bind fun _ => .pure _
  split
  · exact .of_keepsHost (hrefl _) ((KeepsHost.print _).bind fun _ => hend)
  · exact .of_keepsHost (hrefl _) ((KeepsHost.print _).bind fun _ => hend)
  · next path hne =>
    have hpath : path ≠ [] := by
      rintro rfl
      exact hne rfl
    exact (hwrite _ path _ rfl hpath (by simpa using hselection)).before fun _ => hend

/-- `render` leaves the host alone unless it writes to a file. -/
theorem exists_runRender (s : Setup) (yes : Bool) (output : Option Text) (maxBytes : Option Int) :
    ∃ act : Selection → Action Nat,
      (output.getD [] = [] → ∀ selection, KeepsHost (act selection)) ∧
        ∀ choice, runRender s choice yes output maxBytes = selectionOf s choice >>= act := by
  obtain ⟨act, hmoves, hact⟩ := exists_runRender_moves s yes output maxBytes
  refine ⟨act, fun houtput => hmoves (fun _ h next => next = h) (fun _ _ => rfl) ?_, hact⟩
  rintro _ path _ rfl hpath
  exact absurd houtput hpath

end Command

end Bindery

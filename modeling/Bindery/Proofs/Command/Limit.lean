import Bindery.Proofs.Command.AfterSelect
import Bindery.Proofs.Command.Reading
import Bindery.Proofs.Files.Written
import Bindery.Proofs.Render.Limited
import Bindery.Proofs.Render.Obstacles

/-!
# Rendering with a limit

`render` with a limit shows, or writes to a file, what the sorted files are rendered to with that
limit, and that keeps to the limit.  A limit of zero is the exception: it counts as none given, and
the limit of the settings takes its place.

* `Command.Asked`: a run of `render` that has a selection and may render it.
* `Command.Delivered`: how a text comes out of a run.
* `CommandLine.render_keeps_limit`
-/

namespace Bindery

open Console

namespace Command

variable {s : Setup} {choice : Choice} {yes : Bool} {output : Option Text} {limit n : Int}
  {selection : Selection} {before asked : Console} {files : List Text}

/-! ## What comes before rendering -/

/-- A run of `render` has a selection, and nothing or a yes has answered its question. -/
def Asked (s : Setup) (choice : Choice) (yes : Bool) (limit : Int) (before : Console)
    (selection : Selection) (asked : Console) : Prop :=
  ∃ chosen, (selectionOf s choice).run.run before = (.ok selection, chosen) ∧
    (mayRender selection yes limit).run.run chosen = (.ok true, asked)

theorem keepsOutput_change {α : Type} (x : HostChange α) : Keeps Console.output (change x) :=
  fun c => by rw [run_change]

theorem keepsOutput_selectionOf (s : Setup) (choice : Choice) :
    Keeps Console.output (selectionOf s choice) := by
  cases choice with
  | saved =>
    refine (keepsOutput_change _).bind fun saved => ?_
    dsimp only
    split
    · exact (keepsOutput_change _).bind fun _ => .pure _
    · exact .pure _
  | profiles names => exact .pure _
  | all => exact .pure _

theorem Asked.output_eq (h : Asked s choice yes limit before selection asked) :
    asked.output = before.output := by
  obtain ⟨chosen, hchosen, hasked⟩ := h
  rw [(isSilent_mayRender _ _ _).keepsOutput.part_eq hasked,
    (keepsOutput_selectionOf s choice).part_eq hchosen]

theorem isEmpty_eq_false_of_files {e : Engine} {h : Host} {cache : IgnoreCache}
    (hfiles : (e.resolveSelection h cache selection).result = .ok files) (hne : files ≠ []) :
    selection.isEmpty = false := by
  cases selection with
  | none => exact absurd (Except.ok.inj hfiles).symm hne
  | profiles names => rfl
  | allFiles => rfl

/-! ## What comes after rendering -/

/-- The path of the file that a text is written to. -/
def outputPath (s : Setup) (path : Text) : Path.Parsed :=
  (Path.Parsed.ofText s.context).append (.ofText path)

/-- Writes a text to a file, in a directory that is made if it is missing. -/
def outputChange (s : Setup) (path content : Text) : HostChange Unit := do
  HostChange.makeDirectories (outputPath s path).parent
  HostChange.step (·.writeFile (outputPath s path).toText (Utf8.encode content))

/-- What was written to a file is read from it. -/
theorem readBytes_of_outputChange {path content : Text} {h next : Host}
    (hrun : (outputChange s path content).run.run h = (.ok (), next)) :
    next.readBytes (outputPath s path).toText = .ok (Utf8.encode content) := by
  rw [outputChange] at hrun
  obtain ⟨_, made, -, hwrite⟩ := exists_of_run_bind hrun
  exact Host.readBytes_of_writeFile (HostChange.run_step_iff.1 hwrite)

/-- How a text comes out of a run that has come to a console: printed, written to a file, or not at
all if that file is refused. -/
inductive Delivered (s : Setup) (output : Option Text) (content : Text) (asked : Console) :
    Except Fault Nat × Console → Prop
  | printed (houtput : output.getD [] = []) {after : Console} (hhost : after.host = asked.host)
      (hshown : after.output = asked.output ++ content) :
      Delivered s output content asked (.ok 0, after)
  | written {path : Text} (houtput : output = some path) (hpath : path ≠ []) {after : Console}
      (hwrite : (outputChange s path content).run.run asked.host = (.ok (), after.host))
      (hread : after.host.readBytes (outputPath s path).toText = .ok (Utf8.encode content))
      (hshown : after.output = asked.output) :
      Delivered s output content asked (.ok 0, after)
  | refused {path : Text} (houtput : output = some path) (hpath : path ≠ []) {e : Fault}
      {after : Console}
      (hwrite : (outputChange s path content).run.run asked.host = (.error e, after.host))
      (hshown : after.output = asked.output) :
      Delivered s output content asked (.error e, after)

/-- What is done with a result. -/
def deliver (s : Setup) (output : Option Text) (reports : List Diagnostic) (result : RenderResult) :
    Action Nat := do
  printDiagnostics reports
  match output with
  | none | some [] => print result.content
  | some path => writeOutput s path result.content
  printSize result
  return 0

theorem exists_run_printSize (result : RenderResult) (c : Console) :
    ∃ after : Console, after.host = c.host ∧ after.output = c.output ∧
      (printSize result).run.run c = (.ok (), after) := by
  have hok : ((printSize result).run.run c).1 = .ok () := by
    unfold printSize
    split
    · rfl
    · split <;> rfl
  have hsilent := isSilent_printSize result
  exact ⟨_, hsilent.keepsHost c, hsilent.keepsOutput c, Prod.ext hok rfl⟩

/-- One change after the other is the change that does both. -/
theorem run_change_bind {α β : Type} (x : HostChange α) (f : α → HostChange β) (c : Console) :
    (change x >>= fun a => change (f a)).run.run c = (change (x >>= f)).run.run c := by
  rw [run_bind, run_change, run_change, run_bind]
  obtain ⟨result, h⟩ := x.run.run c.host
  cases result with
  | error e => rfl
  | ok a => exact run_change (f a) _

/-- A text is written to a file, or the file is refused. -/
theorem exists_run_writeOutput (s : Setup) (path content : Text) (c : Console) :
    ∃ after : Console, after.host = ((outputChange s path content).run.run c.host).2 ∧
      after.output = c.output ∧ (writeOutput s path content).run.run c =
        (((outputChange s path content).run.run c.host).1, after) := by
  have hwrite : writeOutput s path content =
      (change (HostChange.makeDirectories (outputPath s path).parent) >>= fun _ =>
        change (HostChange.step (·.writeFile (outputPath s path).toText (Utf8.encode content)))) >>=
          fun _ => printError ("Wrote ".toList ++ (outputPath s path).toText) := by
    rw [bind_assoc]
    rfl
  have hchange := run_change_bind (HostChange.makeDirectories (outputPath s path).parent)
    (fun _ => HostChange.step (·.writeFile (outputPath s path).toText (Utf8.encode content))) c
  rw [hwrite, run_bind, hchange, ← outputChange, run_change]
  obtain ⟨result, h⟩ := (outputChange s path content).run.run c.host
  cases result with
  | error e => exact ⟨{ c with host := h }, rfl, rfl, rfl⟩
  | ok _ =>
    have hprinted := IsSilent.printError ("Wrote ".toList ++ (outputPath s path).toText)
      { c with host := h }
    exact ⟨_, (Prod.mk.inj hprinted).1, (Prod.mk.inj hprinted).2, rfl⟩

section

variable {found : Console} (hhost : found.host = asked.host) (hshown : found.output = asked.output)
include hhost hshown

theorem delivered_print (houtput : output.getD [] = []) (result : RenderResult) :
    Delivered s output result.content asked ((do
      print result.content
      printSize result
      return 0 : Action Nat).run.run found) := by
  let printed : Console := { found with output := found.output ++ result.content }
  have hprint : (print result.content).run.run found = (.ok (), printed) := rfl
  obtain ⟨after, hafter, hshownAfter, hsize⟩ := exists_run_printSize result printed
  rw [run_bind_of_ok hprint, run_bind_of_ok hsize]
  refine .printed houtput (hafter.trans hhost) ?_
  rw [hshownAfter, ← hshown]

theorem delivered_writeOutput {path : Text} (hpath : path ≠ []) (result : RenderResult) :
    Delivered s (some path) result.content asked ((do
      writeOutput s path result.content
      printSize result
      return 0 : Action Nat).run.run found) := by
  obtain ⟨next, hnext, hshownNext, hwrite⟩ := exists_run_writeOutput s path result.content found
  rw [hhost] at hnext hwrite
  rw [hshown] at hshownNext
  cases hchange : (outputChange s path result.content).run.run asked.host with
  | mk outcome h =>
    rw [hchange] at hnext hwrite
    cases outcome with
    | error e =>
      rw [run_bind, hwrite]
      exact .refused rfl hpath (hchange.trans (congrArg _ hnext.symm)) hshownNext
    | ok _ =>
      obtain ⟨after, hafter, hshownAfter, hsize⟩ := exists_run_printSize result next
      rw [hnext] at hafter
      rw [run_bind_of_ok hwrite, run_bind_of_ok hsize]
      refine .written rfl hpath (hchange.trans (congrArg _ hafter.symm)) ?_
        (hshownAfter.trans hshownNext)
      rw [hafter]
      exact readBytes_of_outputChange hchange

theorem delivered_deliver (output : Option Text) (reports : List Diagnostic)
    (result : RenderResult) :
    Delivered s output result.content asked ((deliver s output reports result).run.run found) := by
  obtain ⟨c, hhostc, hshownc, hprinted⟩ := exists_run_printDiagnostics reports found
  rw [hhost] at hhostc
  rw [hshown] at hshownc
  rw [deliver, run_bind_of_ok hprinted]
  dsimp only
  split
  · exact delivered_print hhostc hshownc rfl result
  · exact delivered_print hhostc hshownc rfl result
  · next path hne =>
    have hpath : path ≠ [] := by
      rintro rfl
      exact hne rfl
    exact delivered_writeOutput hhostc hshownc hpath result

end

/-- The options of an engine with a limit in the place of that of the settings. -/
def limitedOptions (e : Engine) (limit : Int) : RenderOptions :=
  { e.renderOptions with maxBytes := limit }

theorem renderOptions_of_ne_zero (hn : n ≠ 0) (e : Engine) :
    renderOptions e (some n) = limitedOptions e n := by
  unfold renderOptions
  split
  · next heq => cases heq
  · next heq => exact absurd (Option.some.inj heq) hn
  · next m _ heq =>
    obtain rfl := Option.some.inj heq
    rfl

/-- `render` with a limit other than zero goes on to rendering with it. -/
theorem run_runRender (output : Option Text) (hn : n ≠ 0)
    (hasked : Asked s choice yes n before selection asked)
    (hfiles : (s.engine.resolveSelection asked.host asked.cache selection).result = .ok files)
    (hne : files ≠ []) :
    ∃ found : Console, found.host = asked.host ∧ found.output = asked.output ∧ ∃ reports,
      (runRender s choice yes output (some n)).run.run before =
        (do
          let result ← (Renderer.renderWith (limitedOptions s.engine n) asked.host
            (Text.sortedSet files) : Except Fault RenderResult)
          deliver s output (reports ++ result.diagnostics) result : Action Nat).run.run found := by
  obtain ⟨chosen, hchosen, hasked⟩ := hasked
  have hempty := isEmpty_eq_false_of_files hfiles hne
  have hsorted : (Text.sortedSet files).isEmpty = false := by
    obtain ⟨path, rest, rfl⟩ := List.exists_cons_of_ne_nil hne
    rw [List.isEmpty_eq_false_iff]
    exact List.ne_nil_of_mem (Text.mem_sortedSet.2 List.mem_cons_self)
  have hfound := run_resolveSelection s.engine selection asked
  rw [hfiles] at hfound
  let notes := (s.engine.resolveSelection asked.host asked.cache selection).notes
  rw [runRender, run_bind_of_ok hchosen]
  dsimp only
  have hmay : (mayRender selection yes (limitedOptions s.engine n).maxBytes).run.run chosen =
      (.ok true, asked) := hasked
  rw [hempty, if_neg Bool.false_ne_true, renderOptions_of_ne_zero hn, run_bind_of_ok hmay,
    Bool.not_true, if_neg Bool.false_ne_true, run_bind_of_ok hfound]
  dsimp only
  have hhost : ∀ c : Console, getHost.run.run c = (.ok c.host, c) := fun _ => rfl
  rw [hsorted, if_neg Bool.false_ne_true, run_bind_of_ok (hhost _)]
  exact ⟨{ asked with cache := s.engine.refreshed asked.host asked.cache notes }, rfl, rfl,
    s.diagnostics ++ notes.diagnostics, rfl⟩

end Command

namespace CommandLine

open Command

/-- **Rendering with a limit.**  A limit at the end of a command line that renders files is taken.
With a limit other than zero, a run that has a selection of files and may render it shows or writes
what the sorted files are rendered to with that limit, and that keeps to the limit; it ends with a
fault if there is an obstacle to rendering.  With a limit of zero a run is what it is without one. -/
theorem render_keeps_limit (line : CommandLine) (choice : Choice) (yes : Bool)
    (output : Option Text) (n : Int) :
    (∀ words limit, read words = .ok { line with command := .render choice yes output limit } →
        (Text.ofNat n.natAbs).length ≤ Number.maxDigits →
          read (words ++ Word.limitWords n) =
            .ok { line with command := .render choice yes output (some n) }) ∧
      (n ≠ 0 → ∀ context defaults environment before setup selection asked files,
        line.prepare context defaults environment before.host = .ok (.ok setup) →
        Asked setup choice yes n before selection asked →
        (setup.engine.resolveSelection asked.host asked.cache selection).result = .ok files →
        files ≠ [] →
          let options := limitedOptions setup.engine n
          let paths := Text.sortedSet files
          let run :=
            line.outcome context defaults environment (.render choice yes output (some n)) before
          asked.output = before.output ∧
            ((∃ result, Renderer.renderWith options asked.host paths = .ok result ∧
                Renderer.Limited options asked.host paths result ∧
                Delivered setup output result.content asked run) ∨
              Renderer.Obstacle options asked.host paths ∧
                ∃ e, Renderer.renderWith options asked.host paths = .error e ∧
                  run.1 = .error e)) ∧
      ∀ context defaults environment before,
        line.outcome context defaults environment (.render choice yes output (some 0)) before =
          line.outcome context defaults environment (.render choice yes output none) before := by
  refine ⟨fun words limit hread hdigits => read_append_limit hread rfl hdigits, ?_,
    fun _ _ _ _ => rfl⟩
  intro hn context defaults environment before setup selection asked files hsetup hasked hfiles hne
  dsimp only
  refine ⟨hasked.output_eq, ?_⟩
  rw [outcome_of_prepare hsetup]
  obtain ⟨found, hhost, hshown, reports, hrun⟩ := run_runRender output hn hasked hfiles hne
  have hrun' : (Command.run setup (.render choice yes output (some n))).run.run before = _ := hrun
  rw [hrun', run_bind, run_liftM]
  cases hresult : Renderer.renderWith (limitedOptions setup.engine n) asked.host
      (Text.sortedSet files) with
  | error e => exact Or.inr ⟨Renderer.obstacle_of_renderWith hresult, e, rfl, rfl⟩
  | ok result =>
    exact Or.inl ⟨result, rfl, Renderer.limited_of_renderWith hresult,
      delivered_deliver hhost hshown output _ result⟩

/-! ## A project with one file -/

/-- Words that render the project. -/
def shelfWords : List Text := ["render".toList, "-p".toList, ['p']]

/-- What the file of the project is rendered to. -/
def shelfText : Text := "\n// File: a\n\n\n".toList

theorem read_shelfWords :
    read shelfWords = .ok { shelfLine with command := .render shelfChoice false none none } :=
  rfl

theorem asked_shelf (limit : Int) (c : Console) :
    Asked (shelfSetup "/s".toList) shelfChoice false limit c (.profiles [['p']]) c := by
  have hchosen : chosen shelfChoice = .profiles [['p']] := by cbv
  have hne : shelfChoice ≠ .saved := by rintro ⟨⟩
  have hselected := run_selectionOf_of_ne (shelfSetup "/s".toList) hne c
  rw [hchosen] at hselected
  exact ⟨c, hselected, rfl⟩

theorem resolveSelection_shelf :
    ((shelfSetup "/s".toList).engine.resolveSelection (shelfHost [] 0) .empty
      (.profiles [['p']])).result = .ok ["/p/a".toList] := by
  cbv

theorem renderWith_shelf_whole :
    ∃ result, Renderer.renderWith (limitedOptions (shelfSetup "/s".toList).engine 40)
      (shelfHost [] 0) ["/p/a".toList] = .ok result ∧ result.content = shelfText :=
  ⟨_, by cbv, by cbv⟩

theorem renderWith_shelf_listed :
    ∃ result, Renderer.renderWith (limitedOptions (shelfSetup "/s".toList).engine (-5))
      (shelfHost [] 0) ["/p/a".toList] = .ok result ∧ result.truncated = true :=
  ⟨_, by cbv, by cbv⟩

/-- The file of the project has room in forty bytes and is written to a file as a whole; with a
negative limit the manifest is shown. -/
theorem render_keeps_limit_shelf :
    (∃ result,
      Renderer.renderWith (limitedOptions (shelfSetup "/s".toList).engine 40) (shelfHost [] 0)
          ["/p/a".toList] = .ok result ∧ result.content = shelfText ∧
        Delivered (shelfSetup "/s".toList) (some ['o']) result.content
          (freshConsole (shelfHost [] 0))
          (shelfLine.outcome none shelfDefaults (shelfEnvironment "/s".toList)
            (.render shelfChoice false (some ['o']) (some 40)) (freshConsole (shelfHost [] 0)))) ∧
      read (shelfWords ++ Word.limitWords (-5)) =
        .ok { shelfLine with command := .render shelfChoice false none (some (-5)) } ∧
      ∃ result : RenderResult, Renderer.heading (-5) <+: result.content ∧
        Delivered (shelfSetup "/s".toList) none result.content (freshConsole (shelfHost [] 0))
          (shelfLine.outcome none shelfDefaults (shelfEnvironment "/s".toList)
            (.render shelfChoice false none (some (-5))) (freshConsole (shelfHost [] 0))) := by
  have hsorted : Text.sortedSet ["/p/a".toList] = ["/p/a".toList] := by cbv
  obtain ⟨-, hwhole, -⟩ := render_keeps_limit shelfLine shelfChoice false (some ['o']) 40
  obtain ⟨hread, hlisted, -⟩ := render_keeps_limit shelfLine shelfChoice false none (-5)
  refine ⟨?_, hread shelfWords none read_shelfWords (by decide), ?_⟩
  · obtain ⟨-, hrun⟩ := hwhole (by decide) none shelfDefaults (shelfEnvironment "/s".toList)
      (freshConsole (shelfHost [] 0)) (shelfSetup "/s".toList) (.profiles [['p']])
      (freshConsole (shelfHost [] 0)) ["/p/a".toList] (prepare_shelf "/s".toList [] 0)
      (asked_shelf 40 _) resolveSelection_shelf (List.cons_ne_nil _ _)
    rw [hsorted] at hrun
    obtain ⟨whole, hresult, hcontent⟩ := renderWith_shelf_whole
    obtain ⟨result, hresult', -, hdelivered⟩ | ⟨-, e, herror, -⟩ := hrun
    · obtain rfl := Except.ok.inj (hresult.symm.trans hresult')
      exact ⟨_, hresult, hcontent, hdelivered⟩
    · cases hresult.symm.trans herror
  · obtain ⟨-, hrun⟩ := hlisted (by decide) none shelfDefaults (shelfEnvironment "/s".toList)
      (freshConsole (shelfHost [] 0)) (shelfSetup "/s".toList) (.profiles [['p']])
      (freshConsole (shelfHost [] 0)) ["/p/a".toList] (prepare_shelf "/s".toList [] 0)
      (asked_shelf (-5) _) resolveSelection_shelf (List.cons_ne_nil _ _)
    rw [hsorted] at hrun
    obtain ⟨listed, hresult, htruncated⟩ := renderWith_shelf_listed
    obtain ⟨result, hresult', hlimited, hdelivered⟩ | ⟨-, e, herror, -⟩ := hrun
    · obtain rfl := Except.ok.inj (hresult.symm.trans hresult')
      refine ⟨_, ?_, hdelivered⟩
      cases hlimited with
      | whole hfalse => cases hfalse.symm.trans htruncated
      | unread hfalse => cases hfalse.symm.trans htruncated
      | listed _ _ _ hheading => exact hheading
    · cases hresult.symm.trans herror

/-- A limit of zero is none: the text is shown, although the manifest is what it is rendered to with
that limit. -/
theorem render_limit_zero :
    read (shelfWords ++ Word.limitWords 0) =
        .ok { shelfLine with command := .render shelfChoice false none (some 0) } ∧
      shelfLine.prepare none shelfDefaults (shelfEnvironment "/s".toList) (shelfHost [] 0) =
        .ok (.ok (shelfSetup "/s".toList)) ∧
      Asked (shelfSetup "/s".toList) shelfChoice false 0 (freshConsole (shelfHost [] 0))
        (.profiles [['p']]) (freshConsole (shelfHost [] 0)) ∧
      ((shelfSetup "/s".toList).engine.resolveSelection (shelfHost [] 0) .empty
        (.profiles [['p']])).result = .ok ["/p/a".toList] ∧
      (∃ result, Renderer.renderWith (limitedOptions (shelfSetup "/s".toList).engine 0)
          (shelfHost [] 0) ["/p/a".toList] = .ok result ∧
        Renderer.heading 0 <+: result.content) ∧
      ∃ after : Console,
        shelfLine.outcome none shelfDefaults (shelfEnvironment "/s".toList)
          (.render shelfChoice false none (some 0)) (freshConsole (shelfHost [] 0)) =
            (.ok 0, after) ∧
        after.output = shelfText ∧ ¬ (Utf8.byteLength after.output : Int) ≤ 0 ∧
        ¬ Renderer.heading 0 <+: after.output := by
  have hrun : ∃ after : Console, (Command.run (shelfSetup "/s".toList)
      (.render shelfChoice false none (some 0))).run.run (freshConsole (shelfHost [] 0)) =
        (.ok 0, after) ∧ after.output = shelfText := ⟨_, by cbv, by cbv⟩
  obtain ⟨after, hafter, houtput⟩ := hrun
  refine ⟨rfl, prepare_shelf _ _ _, asked_shelf 0 _, resolveSelection_shelf,
    ⟨_, by cbv, by decide +kernel⟩, after, ?_, houtput, ?_, ?_⟩
  · rw [outcome_freshConsole (prepare_shelf _ _ _), hafter]
  · rw [houtput]
    decide
  · rw [houtput]
    decide

end CommandLine

end Bindery

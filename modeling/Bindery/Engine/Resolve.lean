import Bindery.Engine.Basic
import Bindery.Profile.Inherit
import Bindery.Render.Output
import Bindery.Selection.Basic

/-!
# Files of a selection

A selection stands for the files of its profiles, or for every file below every root.  A name
without a profile and a profile that inherits from itself are reported and contribute nothing.

* `Engine.resolveSelection`
* `Engine.prune` leaves out the names of a selection that have no profile.
* `Engine.renderOptions` are the options that the settings give.
-/

namespace Bindery.Engine

/-- How the engine expands patterns. -/
def expansion (e : Engine) (h : Host) (cache : IgnoreCache) : Expansion :=
  e.matcher.expand h cache

/-- The report of a selected name without a profile. -/
def unknownProfile (name : Text) : Diagnostic where
  kind := .unknownProfileReference
  message := "Profile '".toList ++ name ++ "' not found".toList
  path := none
  profile := some name

/-- The report of a profile that inherits from itself. -/
def inheritanceCycle (name : Text) (chain : List Text) : Diagnostic where
  kind := .cyclicInheritance
  message := (Fault.cycle chain).message
  path := none
  profile := some name

/-- Reports a cycle in the place of the files. -/
def reportCycle (name : Text) (x : Reported (List Text)) : Reported (List Text) :=
  match x.result with
  | .error (.cycle chain) =>
    ⟨x.notes.append ⟨[inheritanceCycle name chain], []⟩, .ok []⟩
  | _ => x

/-- The files of a selected name. -/
def resolveName (e : Engine) (expand : Expansion) (name : Text) : Reported (List Text) :=
  match e.registry.get? name with
  | some p => reportCycle name (e.registry.resolve expand p)
  | none => do
    Reported.report (unknownProfile name)
    return []

/-- The files of a selection. -/
def resolveSelection (e : Engine) (h : Host) (cache : IgnoreCache) (s : Selection) :
    Reported (List Text) := do
  let parts ← match s with
    | .none => pure []
    | .allFiles => e.roots.mapM fun root =>
        e.matcher.allFiles h cache root e.settings.excludePatterns
    | .profiles names => names.mapM (e.resolveName (e.expansion h cache))
  return parts.flatten

/-- The selection without the names that have no profile. -/
def prune (e : Engine) (s : Selection) : Selection :=
  match s with
  | .profiles names => .ofNames (names.filter e.registry.has)
  | s => s

/-- How the engine renders files. -/
def renderOptions (e : Engine) : RenderOptions :=
  e.settings.renderOptions e.roots

/-- What remembered ignore files look like after an operation that made notes. -/
def refreshed (e : Engine) (h : Host) (cache : IgnoreCache) (notes : Notes) : IgnoreCache :=
  notes.consulted.foldl (fun c root => c.refresh h root e.matcher.ignoreFileName) cache

end Bindery.Engine

import Bindery.Profile.Reader
import Bindery.Profile.Registry
import Bindery.Roots
import Bindery.Search.Matcher
import Bindery.Settings.Basic

/-!
# The engine

The engine owns the roots of a workspace and the profiles that their files declare.  A root is
loaded once and then stays as it is until it is invalidated or loaded again.  A profile file that
cannot be read is reported and leaves the profiles of its root as they were; a root whose file is
gone has none.

An operation that can be cut short by a fault gives the engine that it leaves behind together with
its result.

* `Engine.addRoot`, `Engine.removeRoot`
* `Engine.loadRoot`, `Engine.loadAll`, `Engine.invalidateRoot`, `Engine.reloadRoot`
-/

namespace Bindery

/-- The roots of a workspace and the profiles loaded from them. -/
structure Engine where
  settings : Settings
  registry : Registry
  /-- The roots in the order in which they were added. -/
  roots : List Text
  /-- The roots that are loaded. -/
  loaded : List Text

namespace Engine

/-- An engine without roots. -/
def empty (settings : Settings) : Engine := ⟨settings, .empty, [], []⟩

/-- How the engine finds files. -/
def matcher (e : Engine) : Matcher :=
  ⟨e.settings.includeIgnored, e.settings.ignoreFileName⟩

/-! ## Roots -/

/-- Adds a root in its normal form, if it is new. -/
def addNormal (e : Engine) (root : Text) : Engine :=
  if e.roots.contains root then e else { e with roots := e.roots ++ [root] }

/-- Adds a root and gives its normal form. -/
def addRoot (e : Engine) (h : Host) (path : Text) : Except Fault (Engine × Text) :=
  (Roots.normalize h path).map fun root => (e.addNormal root, root)

/-- Adds roots one after the other. -/
def addRoots (e : Engine) (h : Host) (paths : List Text) : Except Fault Engine :=
  paths.foldlM (fun e path => (e.addRoot h path).map Prod.fst) e

/-- An engine with roots of which none is loaded. -/
def ofRoots (settings : Settings) (h : Host) (paths : List Text) : Except Fault Engine :=
  (empty settings).addRoots h paths

/-- Forgets the profiles of a root in its normal form. -/
def invalidateNormal (e : Engine) (root : Text) : Engine :=
  { e with registry := e.registry.dropRoot root, loaded := e.loaded.filter (· != root) }

/-- Forgets the profiles of a root. -/
def invalidateRoot (e : Engine) (h : Host) (path : Text) : Except Fault Engine :=
  (Roots.normalize h path).map e.invalidateNormal

/-- Forgets a root and its profiles. -/
def removeRoot (e : Engine) (h : Host) (path : Text) : Except Fault Engine :=
  match Roots.normalize h path with
  | .error f => .error f
  | .ok root =>
    (e.invalidateRoot h root).map fun e => { e with roots := e.roots.erase root }

/-! ## Loading -/

/-- The path of the profile file of a root. -/
def configPath (e : Engine) (root : Text) : Text :=
  Roots.configPath root e.settings.configFileName

/-- Whether a root has a profile file. -/
def hasConfig (e : Engine) (h : Host) (root : Text) : Except Fault Bool :=
  Roots.hasConfig h root e.settings.configFileName

/-- Whether a root is loaded. -/
def isLoaded (e : Engine) (h : Host) (path : Text) : Except Fault Bool :=
  (Roots.normalize h path).map e.loaded.contains

/-- The report of a profile file that cannot be read. -/
def parseFailure (path : Text) (f : Fault) : Diagnostic where
  kind := .configParseFailure
  message := f.message
  path := some path
  profile := none

/-- Takes the profiles of a root from its file. -/
def accept (e : Engine) (root : Text) (profiles : Entries Profile) : Engine :=
  { e with registry := e.registry.replaceRoot root profiles, loaded := e.loaded ++ [root] }

/-- Loads a known root in its normal form, unless it is loaded; says whether its profiles are
known afterwards. -/
def loadNormal (e : Engine) (h : Host) (root : Text) : Engine × Reported Bool :=
  if e.loaded.contains root then (e, .ok true)
  else
    match e.hasConfig h root with
    | .error f => (e, .fail f)
    | .ok false => (e, .ok false)
    | .ok true =>
      match Profile.load h (e.configPath root) root with
      | .ok profiles => (e.accept root profiles, .ok true)
      | .error (.unreadable path reason) =>
        (e, do
          Reported.report (parseFailure (e.configPath root) (.unreadable path reason))
          return false)
      | .error f => (e, .fail f)

/-- Loads a root, which is added if it is new; says whether its profiles are known afterwards. -/
def loadRoot (e : Engine) (h : Host) (path : Text) : Engine × Reported Bool :=
  match Roots.normalize h path with
  | .error f => (e, .fail f)
  | .ok root => (e.addNormal root).loadNormal h root

/-- Loads the roots from one position on, those included that are added on the way; at most `fuel`
of them. -/
def loadFrom (h : Host) (fuel position : Nat) (e : Engine) (found : Bool) :
    Engine × Reported Bool :=
  match fuel, e.roots[position]? with
  | 0, _ => (e, .ok found)
  | _, none => (e, .ok found)
  | fuel + 1, some root =>
    let (loaded, here) := e.loadRoot h root
    match here.result with
    | .error f => (loaded, ⟨here.notes, .error f⟩)
    | .ok b =>
      let (last, rest) := loadFrom h fuel (position + 1) loaded (found || b)
      (last, ⟨here.notes.append rest.notes, rest.result⟩)

/-- Loads all roots; says whether one of them has profiles that are known afterwards.  Normal forms
of roots may turn out to be new roots, but as their paths are not longer than the longest path
there is an end to that. -/
def loadAll (e : Engine) (h : Host) : Engine × Reported Bool :=
  e.loadFrom h (2 * e.roots.length + Host.maxPathBytes) 0 false

/-- Takes a root in its normal form for one that is not loaded; it keeps its profiles. -/
def reopenNormal (e : Engine) (root : Text) : Engine :=
  { e with loaded := e.loaded.filter (· != root) }

/-- Loads a root again after its file was changed, made or deleted. -/
def reloadRoot (e : Engine) (h : Host) (path : Text) : Engine × Reported Bool :=
  match Roots.normalize h path with
  | .error f => (e, .fail f)
  | .ok root =>
    let unmarked := (e.addNormal root).reopenNormal root
    match unmarked.hasConfig h root with
    | .error f => (unmarked, .fail f)
    | .ok true => unmarked.loadRoot h root
    | .ok false =>
      match unmarked.invalidateRoot h root with
      | .error f => (unmarked, .fail f)
      | .ok dropped => (dropped, .ok false)

end Engine

end Bindery

import Bindery.Engine.Resolve
import Bindery.Proofs.Engine.Rooted
import Bindery.Proofs.Profile.Inherit
import Bindery.Proofs.Search.Faults
import Mathlib

/-!
# Selections that cannot be resolved

Unknown names, cycles and whatever the file system refuses do not keep a selection from being
resolved, and neither does any pattern of a profile.  Patterns that expressions are made of do: one
flawed line of an ignore file, or one flawed exclude pattern, takes all files away, and so does a
null character in a path or in a pattern.

* `Registry.resolveFrom_failsOnly`: the walk over parents.
* `Engine.Obstacle`: all that can stand in the way.
* `Engine.resolveSelection_files_or_obstacle`: a selection is resolved unless one does.
-/

namespace Bindery

/-! ## Profiles -/

namespace Registry

variable {r : Registry} {expand : Expansion} {F : Fault → Prop}

/-- A walk ends with a cycle, or with a fault of the patterns of a profile that is reached. -/
theorem resolveFrom_failsOnly {p : Profile}
    (hexpand : ∀ q, r.Reaches p q → FailsOnly F (expand q.includes q.root).result ∧
      FailsOnly F (expand q.excludes q.root).result) (fuel : Nat) (chain : List (Text × Text)) :
    FailsOnly (fun f => (∃ names, f = .cycle names) ∨ F f)
      (r.resolveFrom expand fuel chain p).result := by
  induction fuel generalizing chain p with
  | zero => exact .error (Or.inl ⟨[], rfl⟩)
  | succ fuel ih =>
    by_cases hmem : p.key ∈ chain
    · rw [resolveFrom, if_pos (by simpa using hmem)]
      exact .error (Or.inl ⟨_, rfl⟩)
    · rw [result_resolveFrom_succ expand fuel hmem]
      refine .bind (.mapM fun name hname => ?_) fun inherited _ => .bind ?_ fun own _ => .ok _
      · rw [inheritFrom]
        cases hq : r.lookup name (some p.root) with
        | none => exact .ok []
        | some q => exact ih (fun s hs => hexpand s (.step ⟨name, hname, hq⟩ hs)) _
      · obtain ⟨hin, hex⟩ := hexpand p (.refl p)
        exact (ownFiles_failsOnly hin hex).mono fun f hf => Or.inr hf

end Registry

namespace Engine

/-- A cycle is reported, any other fault stays. -/
theorem reportCycle_failsOnly {F : Fault → Prop} (name : Text) {x : Reported (List Text)}
    (hx : FailsOnly (fun f => (∃ names, f = .cycle names) ∨ F f) x.result) :
    FailsOnly F (reportCycle name x).result := by
  rw [reportCycle]
  split
  · exact .ok []
  · next hcycle =>
    intro f hf
    rcases hx f hf with ⟨names, rfl⟩ | hF
    · exact (hcycle names hf).elim
    · exact hF

/-! ## Selections -/

/-- What stands in the way of resolving a selection, with the fault that it can end in. -/
inductive Obstacle (e : Engine) (h : Host) (cache : IgnoreCache) : Selection → Fault → Prop
  /-- Something hinders every search below a listed root. -/
  | root {root : Text} {f : Fault} (hroot : root ∈ e.roots)
      (hf : e.matcher.Hinders h cache root f) : Obstacle e h cache .allFiles f
  /-- An exclude pattern of the settings has a flaw in one of its alternatives. -/
  | exclude {alt : Text} {flaw : Regex.Flaw} (hroots : e.roots ≠ [])
      (halt : alt ∈ Glob.alternatives e.settings.excludePatterns)
      (hflaw : Glob.patternFlaw? alt = some flaw) : Obstacle e h cache .allFiles (.expression flaw)
  /-- Something hinders every search below the root of a profile that a selected one reaches. -/
  | profile {names : List Text} {name : Text} {p q : Profile} {f : Fault} (hname : name ∈ names)
      (hp : e.registry.get? name = some p) (hq : e.registry.Reaches p q)
      (hf : e.matcher.Hinders h cache q.root f) : Obstacle e h cache (.profiles names) f
  /-- A pattern of a profile that a selected one reaches holds a null character. -/
  | pattern {names : List Text} {name pattern : Text} {p q : Profile} (hname : name ∈ names)
      (hp : e.registry.get? name = some p) (hq : e.registry.Reaches p q)
      (hpattern : pattern ∈ q.includes ∨ pattern ∈ q.excludes) (hnull : '\x00' ∈ pattern) :
      Obstacle e h cache (.profiles names) .nullCharacter

variable {e : Engine} {h : Host}

/-- Profiles that are reached belong to absolute roots if the first one does. -/
theorem IsRooted.of_reaches (he : e.IsRooted) {p q : Profile}
    (hp : Path.isAbsolute p.root = true) (hq : e.registry.Reaches p q) :
    Path.isAbsolute q.root = true := by
  induction hq with
  | refl => exact hp
  | step hparent _ ih =>
    obtain ⟨name, -, hfound⟩ := hparent
    exact ih (he.of_lookup hfound)

theorem resolveName_failsOnly (he : e.IsRooted) (hnamed : h.IsNamed) (cache : IgnoreCache)
    {names : List Text} {name : Text} (hname : name ∈ names) :
    FailsOnly (e.Obstacle h cache (.profiles names))
      (e.resolveName (e.expansion h cache) name).result := by
  rw [resolveName]
  cases hp : e.registry.get? name with
  | none => exact .ok []
  | some p =>
    have hlookup : e.registry.lookup name none = some p := hp
    have hroot := he.of_lookup hlookup
    refine reportCycle_failsOnly name (Registry.resolveFrom_failsOnly (fun q hq => ?_) _ _)
    have hexpand := Matcher.expand_failsOnly e.matcher cache hnamed (he.of_reaches hroot hq)
    refine ⟨(hexpand q.includes).mono ?_, (hexpand q.excludes).mono ?_⟩
    · rintro f (hf | ⟨rfl, pattern, hpattern, hnull⟩)
      · exact .profile hname hp hq hf
      · exact .pattern hname hp hq (Or.inl hpattern) hnull
    · rintro f (hf | ⟨rfl, pattern, hpattern, hnull⟩)
      · exact .profile hname hp hq hf
      · exact .pattern hname hp hq (Or.inr hpattern) hnull

/-- The result of resolving all files. -/
theorem result_resolveSelection_allFiles (e : Engine) (h : Host) (cache : IgnoreCache) :
    (e.resolveSelection h cache .allFiles).result =
      (e.roots.mapM fun root =>
        (e.matcher.allFiles h cache root e.settings.excludePatterns).result) >>= fun parts =>
          .ok parts.flatten := by
  rw [resolveSelection, Reported.result_bind, Reported.result_mapM]
  rfl

/-- The result of resolving named profiles. -/
theorem result_resolveSelection_profiles (e : Engine) (h : Host) (cache : IgnoreCache)
    (names : List Text) :
    (e.resolveSelection h cache (.profiles names)).result =
      (names.mapM fun name => (e.resolveName (e.expansion h cache) name).result).map
        List.flatten := by
  rw [resolveSelection, Reported.result_bind, Reported.result_mapM]
  rfl

theorem resolveSelection_failsOnly (he : e.IsRooted) (hnamed : h.IsNamed) (cache : IgnoreCache)
    (s : Selection) : FailsOnly (e.Obstacle h cache s) (e.resolveSelection h cache s).result := by
  cases s with
  | none => exact .ok []
  | allFiles =>
    rw [result_resolveSelection_allFiles]
    refine .bind (.mapM fun root hroot => ?_) fun parts _ => .ok _
    refine (Matcher.allFiles_failsOnly e.matcher h cache root _ hnamed (he.roots root hroot)).mono ?_
    rintro f (hf | ⟨alt, halt, flaw, hflaw, rfl⟩)
    · exact .root hroot hf
    · exact .exclude (List.ne_nil_of_mem hroot) halt hflaw
  | profiles names =>
    rw [resolveSelection, Reported.result_bind, Reported.result_mapM]
    exact .bind (.mapM fun name hname => resolveName_failsOnly he hnamed cache hname)
      fun parts _ => .ok _

/-- An obstacle to all files at one root is one to all of them. -/
theorem exists_resolveSelection_eq_error {cache : IgnoreCache} {f : Fault}
    (hf : e.Obstacle h cache .allFiles f) :
    ∃ f', (e.resolveSelection h cache .allFiles).result = .error f' := by
  have hroot : ∃ root ∈ e.roots, ∃ f',
      (e.matcher.allFiles h cache root e.settings.excludePatterns).result = .error f' := by
    cases hf with
    | root hroot hf =>
      exact ⟨_, hroot, Matcher.exists_allFiles_eq_error _ _ _ _ _ (Or.inl ⟨f, hf⟩)⟩
    | exclude hroots halt hflaw =>
      obtain ⟨root, hroot⟩ := List.exists_mem_of_ne_nil _ hroots
      exact ⟨root, hroot, Matcher.exists_allFiles_eq_error _ _ _ _ _
        (Or.inr ⟨_, halt, by simp [hflaw]⟩)⟩
  obtain ⟨root, hroot, f', hf'⟩ := hroot
  rw [result_resolveSelection_allFiles]
  cases hparts : e.roots.mapM fun root =>
      (e.matcher.allFiles h cache root e.settings.excludePatterns).result with
  | error f'' => exact ⟨f'', rfl⟩
  | ok parts =>
    obtain ⟨files, hfiles⟩ := exists_of_mapM_eq_ok hparts hroot
    cases hfiles.symm.trans hf'

/-- **Resolving selections.**  Whatever calls an engine has gone through, and whatever the files
are, a selection is resolved to files unless something of a short list stands in the way, which the
fault then tells; and all files cannot be had if anything of that list does. -/
theorem resolveSelection_files_or_obstacle {settings : Settings} (he : Reachable settings e)
    (hnamed : h.IsNamed) (cache : IgnoreCache) (s : Selection) :
    ((∃ files, (e.resolveSelection h cache s).result = .ok files) ∨
      ∃ f, (e.resolveSelection h cache s).result = .error f ∧ e.Obstacle h cache s f) ∧
    (∀ f, e.Obstacle h cache .allFiles f →
      ∃ f', (e.resolveSelection h cache .allFiles).result = .error f') :=
  ⟨(resolveSelection_failsOnly he.isRooted hnamed cache s).ok_or_error,
    fun _ hf => exists_resolveSelection_eq_error hf⟩

/-! ## A root with an ignore file -/

/-- A root with a file, a directory and an ignore file of one line. -/
def ignoringHost (line : Text) : Host where
  tree := .directory
    [("proj".toList, .directory
      [(".gitignore".toList, .file (Utf8.encode line) (.given 0)),
        ("a.txt".toList, .file [] (.given 0)),
        ("out".toList, .directory [("b.txt".toList, .file [] (.given 0))])])]
  directory := []
  lost := 0
  home := ['/']
  users := []
  clock := 0

def ignoringSettings : Settings :=
  { Settings.default ['/'] with excludePatterns := ["out/**".toList] }

/-- An engine that lists the root. -/
def ignoringEngine (h : Host) : Engine :=
  (Call.addRoot "/proj".toList).perform h (.empty ignoringSettings)

theorem reachable_ignoringEngine (h : Host) : Reachable ignoringSettings (ignoringEngine h) :=
  .call h _ .start

/-- With a line that can be read, all files are found, and nothing stands in the way. -/
theorem resolveSelection_ignoring :
    (ignoringHost "lib/".toList).IsNamed ∧
      Reachable ignoringSettings (ignoringEngine (ignoringHost "lib/".toList)) ∧
      ((ignoringEngine (ignoringHost "lib/".toList)).resolveSelection (ignoringHost "lib/".toList) .empty
        .allFiles).result = .ok ["/proj/a.txt".toList] ∧
      ∀ f, ¬(ignoringEngine (ignoringHost "lib/".toList)).Obstacle (ignoringHost "lib/".toList) .empty
        .allFiles f := by
  have hnamed : (ignoringHost "lib/".toList).IsNamed := ⟨by cbv⟩
  have hreach := reachable_ignoringEngine (ignoringHost "lib/".toList)
  have hfiles : ((ignoringEngine (ignoringHost "lib/".toList)).resolveSelection (ignoringHost "lib/".toList)
      .empty .allFiles).result = .ok ["/proj/a.txt".toList] := by
    cbv
  refine ⟨hnamed, hreach, hfiles, fun f hf => ?_⟩
  obtain ⟨f', hf'⟩ := (resolveSelection_files_or_obstacle hreach hnamed .empty .allFiles).2 f hf
  cases hfiles.symm.trans hf'

/-- A line with a range whose ends are in the wrong order. -/
def reversedLine : Text := ['[', 'z', '-', 'a', ']']

/-- Such a line cannot be read. -/
theorem readLine_reversedLine :
    IgnoreRule.readLine reversedLine = .error (.expression (.badRange ['z'] ['a'])) := by
  have hread : Glob.Reading true reversedLine [.set ['z', '-', 'a']] :=
    .set (@Glob.ClosedClass.plain 'z' ['-', 'a'] [] (by decide) (by decide)) (.nil false)
  have hflaw : Glob.patternFlaw? reversedLine = some (.badRange ['z'] ['a']) := by
    rw [Glob.patternFlaw?, ← Glob.reading_iff.1 hread]
    rfl
  exact IgnoreRule.readLine_of_patternFlaw? (List.cons_ne_nil _ _) rfl rfl (List.cons_ne_nil _ _)
    hflaw

/-- With such a line no file is found at all. -/
theorem resolveSelection_reversed :
    (ignoringHost reversedLine).IsNamed ∧
      Reachable ignoringSettings (ignoringEngine (ignoringHost reversedLine)) ∧
      ((ignoringEngine (ignoringHost reversedLine)).resolveSelection (ignoringHost reversedLine)
        .empty .allFiles).result = .error (.expression (.badRange ['z'] ['a'])) := by
  refine ⟨⟨by cbv⟩, reachable_ignoringEngine _, ?_⟩
  have hengine : ignoringEngine (ignoringHost reversedLine) =
      ⟨ignoringSettings, .empty, ["/proj".toList], []⟩ := by cbv
  have hlines : IgnoreCache.lines .empty (ignoringHost reversedLine) "/proj".toList
      ignoringSettings.ignoreFileName = .ok [reversedLine] := by cbv
  have hrules : (Matcher.rules ⟨false, ignoringSettings.ignoreFileName⟩
      (ignoringHost reversedLine) .empty "/proj".toList).result =
        .error (.expression (.badRange ['z'] ['a'])) := by
    rw [Matcher.result_rules, hlines]
    change (IgnoreRule.readLines [reversedLine] >>= _) = _
    rw [IgnoreRule.readLines, readLine_reversedLine]
    rfl
  have hfiles : (Matcher.allFiles ⟨false, ignoringSettings.ignoreFileName⟩
      (ignoringHost reversedLine) .empty "/proj".toList ignoringSettings.excludePatterns).result =
        .error (.expression (.badRange ['z'] ['a'])) := by
    -- The exclude patterns compile, whatever to.
    obtain ⟨excluded, hexcluded⟩ : ∃ r, Glob.compile
      (ignoringSettings.excludePatterns.filter (!·.isEmpty)) = .ok r := exists_of_isOk (by cbv)
    obtain ⟨pruned, hpruned⟩ : ∃ r, Glob.compile (Matcher.prunePatterns
      (ignoringSettings.excludePatterns.filter (!·.isEmpty))) = .ok r := exists_of_isOk (by cbv)
    rw [Matcher.result_allFiles, hexcluded, hpruned]
    change ((Matcher.rules _ _ _ _).result >>= _) = _
    rw [hrules]
    rfl
  rw [hengine, result_resolveSelection_allFiles, List.mapM_cons]
  change ((Matcher.allFiles ⟨false, ignoringSettings.ignoreFileName⟩ _ _ _ _).result >>= _) >>= _ =
    _
  rw [hfiles]
  rfl

end Engine

end Bindery

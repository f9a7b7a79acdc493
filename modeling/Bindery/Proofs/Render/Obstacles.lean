import Bindery.Proofs.Path.Trie
import Bindery.Proofs.Render.Content

/-!
# What stands in the way of rendering

A file that cannot be read is reported and left out, and the others are rendered.  There is no result
only if a path cannot be looked up at all or it cannot be said where it is shown: a null character
in it, the reserved name of marks in it or in a root, or a relative one of them after the working
directory was removed.

* `Renderer.Obstacle`: the ways to have no result.
* `Renderer.exists_renderFrom`: a run reports the files that it passes.
* `Renderer.renderWith_or_obstacle`: there is a result with all reports, or an obstacle.
-/

namespace Bindery.Renderer

variable {r : Renderer} {h : Host} {files : List Text} {path : Text} {begun : RenderResult}
  {options : RenderOptions}

/-! ## Obstacles -/

/-- What may keep files from being rendered. -/
inductive Obstacle (options : RenderOptions) (h : Host) (files : List Text) : Prop
  | nullCharacter {path : Text} (hpath : path ∈ files) (hnull : '\x00' ∈ path)
  | reservedPath {path : Text} (hpath : path ∈ files)
      (hname : Trie.markName ∈ Trie.components path)
  | reservedRoot {root : Text} (hroot : root ∈ options.roots)
      (hname : Trie.markName ∈ Trie.components root)
  | lostPath {path : Text} (hlost : h.lost ≠ 0) (hpath : path ∈ files)
      (hrelative : Path.isAbsolute path = false)
  | lostRoot {root : Text} (hlost : h.lost ≠ 0) (hroot : root ∈ options.roots)
      (hrelative : Path.isAbsolute root = false)

/-- An absolute path has a normal form wherever the working directory is, and so has any while there
is one. -/
theorem exists_absolute (hpath : h.lost = 0 ∨ Path.isAbsolute path = true) :
    ∃ q, h.absolute path = .ok q := by
  rw [Host.absolute]
  split
  · exact ⟨_, rfl⟩
  · next habs =>
    rw [Host.currentPath, if_pos (hpath.resolve_right habs)]
    exact ⟨_, rfl⟩

/-- Without obstacles it is known where each file is shown. -/
theorem exists_ofOptions (hfree : ¬ Obstacle options h files) :
    ∃ r, ofOptions options = .ok r ∧ r.options = options ∧ r.CanAsk h files := by
  obtain ⟨roots, hroots, hmarked⟩ := Trie.IsMarked.empty.insertAll (P := (· ∈ options.roots))
    (fun _ hroot => hroot) fun _ hroot hname => hfree (.reservedRoot hroot hname)
  refine ⟨⟨options, roots⟩, by rw [ofOptions, hroots]; rfl, rfl, fun path hpath => ?_,
    fun path hpath e => Host.exists_fileError fun hnull => hfree (.nullCharacter hpath hnull)⟩
  rw [relativePath]
  have hnames : Trie.markName ∉ Trie.components path :=
    fun hname => hfree (.reservedPath hpath hname)
  obtain hnone | ⟨root, hroot, hmem⟩ := hmarked.longestPrefix? hnames
  · rw [hnone]
    exact ⟨_, rfl⟩
  · have hknown : ∀ p : Text, (Path.isAbsolute p = false → h.lost ≠ 0 → Obstacle options h files) →
        ∃ q, h.absolute p = .ok q := by
      intro p hp
      refine exists_absolute (Classical.or_iff_not_imp_left.2 fun hlost => ?_)
      by_contra habs
      exact hfree (hp (Bool.eq_false_iff.2 habs) hlost)
    obtain ⟨origin, horigin⟩ := hknown root fun habs hlost => .lostRoot hlost hmem habs
    obtain ⟨target, htarget⟩ := hknown path fun habs hlost => .lostPath hlost hpath habs
    rw [hroot]
    dsimp only
    rw [relativeToRoot.eq_def]
    split
    · exact ⟨_, rfl⟩
    · exact ⟨_, rfl⟩
    · next heq =>
      obtain rfl := Option.some.inj heq
      rw [Host.relativeTo, horigin, htarget]
      split <;> exact ⟨_, rfl⟩

/-! ## Reports -/

/-- The report of a file that cannot be read. -/
def failure? (h : Host) (path : Text) : Option Diagnostic :=
  match source h path with
  | .ok (.error reason) => some (readFailure path reason)
  | _ => none

theorem failure?_of_isFile (hfile : h.isFile path = true) : failure? h path = none := by
  obtain ⟨bytes, stamp, hn⟩ := Host.isFile_iff.1 hfile
  rw [failure?, source, hn]

theorem failure?_of_not_isFile (hask : r.CanAsk h [path]) (hfile : h.isFile path = false) :
    ∃ reason, source h path = .ok (.error reason) ∧
      failure? h path = some (readFailure path reason) := by
  obtain ⟨reason, hsource⟩ := source_of_not_isFile hask hfile
  exact ⟨reason, hsource, by rw [failure?, hsource]⟩

/-- What a run does to the reports of the files that it passes. -/
structure Passes (h : Host) (files : List Text) (begun result : RenderResult) : Prop where
  truncated : result.truncated = begun.truncated
  rendered : result.rendered = begun.rendered ++ files.filter (h.isFile ·)
  diagnostics : result.diagnostics = begun.diagnostics ++ files.filterMap (failure? h)

theorem Passes.append {front : List Text} {next result : RenderResult}
    (hfront : Passes h front begun next) (hfiles : Passes h files next result) :
    Passes h (front ++ files) begun result where
  truncated := hfiles.truncated.trans hfront.truncated
  rendered := by rw [hfiles.rendered, hfront.rendered, List.filter_append, List.append_assoc]
  diagnostics := by
    rw [hfiles.diagnostics, hfront.diagnostics, List.filterMap_append, List.append_assoc]

/-- A run stops at a file that it could read. -/
structure StopsAt (h : Host) (path : Text) (begun result : RenderResult) : Prop where
  isFile : h.isFile path = true
  truncated : result.truncated = true
  diagnostics : result.diagnostics = begun.diagnostics

/-- A file is passed, or the run stops at it. -/
theorem renderFrom_cons (hask : r.CanAsk h [path]) (begun : RenderResult) :
    (∃ next, (∀ rest, r.renderFrom h (path :: rest) begun = r.renderFrom h rest next) ∧
        Passes h [path] begun next) ∨
      ∃ result, (∀ rest, r.renderFrom h (path :: rest) begun = .ok result) ∧
        StopsAt h path begun result := by
  cases hfile : h.isFile path with
  | false =>
    obtain ⟨shown, hshown⟩ := hask.shown path List.mem_cons_self
    obtain ⟨reason, hsource, hfailure⟩ := failure?_of_not_isFile hask hfile
    refine Or.inl ⟨begun.report (readFailure path reason), fun rest => ?_, ?_⟩
    · rw [renderFrom, hshown]
      simp only [hsource]
    · constructor <;> simp [RenderResult.report, hfile, hfailure]
  | true =>
    obtain ⟨shown, bytes, hshown, hsource, -⟩ := chunk?_of_isFile hask hfile
    obtain ⟨largest, htrack⟩ := track_eq begun ⟨path, shown, bytes.length⟩
    have hfailure := failure?_of_isFile hfile
    have hstep : ∀ rest, r.renderFrom h (path :: rest) begun =
        if r.options.maxBytes <
            (begun.totalBytes + leastBytes (r.options.header path shown) bytes : Nat) then
          .ok { begun with truncated := true }
        else if r.options.maxBytes < (begun.totalBytes +
            Utf8.byteLength (chunk (r.options.header path shown) bytes) : Nat) then
          .ok { begun with truncated := true, largest }
        else r.renderFrom h rest { begun with
          content := begun.content ++ chunk (r.options.header path shown) bytes
          totalBytes :=
            begun.totalBytes + Utf8.byteLength (chunk (r.options.header path shown) bytes)
          rendered := begun.rendered ++ [path]
          largest } := by
      intro rest
      rw [renderFrom, hshown]
      simp only [hsource, htrack]
    split at hstep
    · exact Or.inr ⟨_, hstep, hfile, rfl, rfl⟩
    split at hstep
    · exact Or.inr ⟨_, hstep, hfile, rfl, rfl⟩
    · refine Or.inl ⟨_, hstep, ?_⟩
      constructor <;> simp [hfile, hfailure]

/-- A run passes all files, or those before one that it stops at. -/
theorem exists_renderFrom (hask : r.CanAsk h files) (begun : RenderResult) :
    ∃ result, r.renderFrom h files begun = .ok result ∧
      (Passes h files begun result ∨ ∃ front path rest next, files = front ++ path :: rest ∧
        Passes h front begun next ∧ StopsAt h path next result) := by
  induction files generalizing begun with
  | nil =>
    refine ⟨begun, rfl, Or.inl ?_⟩
    constructor <;> simp
  | cons path files ih =>
    obtain ⟨haskPath, haskFiles⟩ := canAsk_cons_iff.1 hask
    obtain ⟨next, hnext, hpasses⟩ | ⟨result, hresult, hstops⟩ := renderFrom_cons haskPath begun
    · obtain ⟨result, hrun, hrest | ⟨front, last, rest, between, rfl, hfront, hstops⟩⟩ :=
        ih haskFiles next
      · exact ⟨result, (hnext files).trans hrun, Or.inl (hpasses.append hrest)⟩
      · exact ⟨result, (hnext _).trans hrun, Or.inr ⟨path :: front, last, rest, between, rfl,
          hpasses.append hfront, hstops⟩⟩
    · refine ⟨result, hresult files, Or.inr ⟨[], path, files, begun, rfl, ?_, hstops⟩⟩
      constructor <;> simp

/-! ## Results -/

/-- What a result reports: every file that cannot be read, and if there is too much content every
one before the file at which the content ended, and that it ended. -/
inductive Reports (options : RenderOptions) (h : Host) (files : List Text) (result : RenderResult) :
    Prop
  | whole (htruncated : result.truncated = false)
      (hrendered : result.rendered = files.filter (h.isFile ·))
      (hdiagnostics : result.diagnostics = files.filterMap (failure? h))
  | listed (htruncated : result.truncated = true) {front rest : List Text} {path : Text}
      (hfiles : files = front ++ path :: rest) (hpath : h.isFile path = true)
      (hdiagnostics : result.diagnostics =
        front.filterMap (failure? h) ++ [sizeExceeded options.maxBytes])

theorem exists_render (hask : r.CanAsk h files) :
    ∃ result, r.render h files = .ok result ∧ Reports r.options h files result := by
  obtain ⟨begun, hbegun, hall | ⟨front, path, rest, between, hfiles, hfront, hstops⟩⟩ :=
    exists_renderFrom hask .empty
  · have hwhole : begun.truncated = false := hall.truncated
    refine ⟨begun, ?_, .whole hwhole hall.rendered hall.diagnostics⟩
    rw [render, hbegun]
    exact if_neg (by simp [hwhole])
  · obtain ⟨text, sizes, hmanifest⟩ := exists_manifest hask
    obtain ⟨largest, htracked⟩ := foldl_track_eq sizes begun
    rw [render, hbegun]
    simp only [hstops.truncated, hmanifest, if_true, Except.map, htracked]
    refine ⟨_, rfl, .listed rfl hfiles hstops.isFile ?_⟩
    rw [RenderResult.report, hstops.diagnostics, hfront.diagnostics]
    rfl

/-- Without a result there is an obstacle. -/
theorem obstacle_of_renderWith {e : Fault} (herror : renderWith options h files = .error e) :
    Obstacle options h files := by
  by_contra hfree
  obtain ⟨r, hr, -, hask⟩ := exists_ofOptions hfree
  obtain ⟨result, hresult, -⟩ := exists_render hask
  rw [renderWith, hr] at herror
  cases hresult.symm.trans herror

end Bindery.Renderer

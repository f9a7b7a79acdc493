import Bindery.Proofs.Files.Plain
import Bindery.Proofs.Outcome
import Bindery.Proofs.Text.Utf8
import Bindery.Render.Output
import Mathlib

/-!
# What rendering amounts to

Rendering stops at the first file that makes too many bytes, and it looks at the size of a file
before it decodes it.  Neither shows in the result: the content is that of all files together, or
there is none, as their sum decides.

* `Renderer.leastBytes_le`: the size of a file never refuses what its text would not.
* `Renderer.canAsk_of_lost_eq_zero`: only a removed working directory keeps a path from being shown.
* `Renderer.renderFrom_append_of_fits`, `Renderer.renderFrom_of_not_fits`: a run of the renderer
  from any result begun.
* `Renderer.renderWith_spec`: the result for a list of files.
* `Renderer.render_of_path_fault`: a path that cannot be shown stops everything.
-/

namespace Bindery.Renderer

variable {r : Renderer} {h : Host} {files : List Text} {path : Text} {begun : RenderResult}

/-! ## The size of one file -/

/-- The bytes counted before a file is decoded are no more than those of its text. -/
theorem leastBytes_le (header : Text) (bytes : List UInt8) :
    leastBytes header bytes ≤ Utf8.byteLength (chunk header bytes) := by
  have hdecoded := Utf8.length_le_byteLength_decodeReplacing bytes
  have hseparator : Utf8.byteLength separator = separator.length := by decide
  rw [leastBytes, chunk, Utf8.byteLength_append, Utf8.byteLength_append, hseparator]
  omega

/-! ## Asking about files -/

/-- Whether the file system finds files or refuses them, and it is known where each is shown. -/
structure CanAsk (r : Renderer) (h : Host) (files : List Text) : Prop where
  shown : ∀ path ∈ files, ∃ shown, r.relativePath h path = .ok shown
  fault : ∀ path ∈ files, ∀ e, h.node path = .error e → ∃ cause, e = .file cause

theorem canAsk_cons_iff :
    r.CanAsk h (path :: files) ↔ r.CanAsk h [path] ∧ r.CanAsk h files := by
  constructor
  · rintro ⟨hshown, hfault⟩
    rw [List.forall_mem_cons] at hshown hfault
    exact ⟨⟨by simpa using hshown.1, by simpa using hfault.1⟩, hshown.2, hfault.2⟩
  · rintro ⟨⟨hshown, hfault⟩, hfiles⟩
    rw [List.forall_mem_singleton] at hshown hfault
    exact ⟨List.forall_mem_cons.2 ⟨hshown, hfiles.shown⟩,
      List.forall_mem_cons.2 ⟨hfault, hfiles.fault⟩⟩

theorem longestPrefix?_fault {t : Trie} {e : Fault} (he : t.longestPrefix? path = .error e) :
    e = .markAsBranch := by
  have hfollow : ∀ last t names, Trie.follow last t names = .error e → e = .markAsBranch := by
    intro last t names he
    fun_induction Trie.follow last t names with
    | case1 | case3 | case4 => exact absurd he nofun
    | case2 | case5 => exact (Except.error.inj he).symm
    | case6 _ _ _ _ _ _ _ ih | case7 _ _ _ _ _ _ ih => exact ih he
  rw [Trie.longestPrefix?] at he
  split at he
  · exact absurd he nofun
  · exact hfollow _ _ _ he

theorem exists_relativeToRoot (hlost : h.lost = 0) (path : Text) (root : Option Text) :
    ∃ shown, relativeToRoot h path root = .ok shown := by
  have habsolute : ∀ p, ∃ q, h.absolute p = .ok q := by
    intro p
    have hcurrent : h.currentPath = .ok (Host.pathOf h.directory) := if_pos hlost
    rw [Host.absolute, hcurrent]
    split <;> exact ⟨_, rfl⟩
  rw [relativeToRoot.eq_def]
  split
  · exact ⟨_, rfl⟩
  · exact ⟨_, rfl⟩
  · next root _ =>
    obtain ⟨origin, horigin⟩ := habsolute root
    obtain ⟨target, htarget⟩ := habsolute path
    rw [Host.relativeTo, horigin, htarget]
    split <;> exact ⟨_, rfl⟩

/-- As long as there is a working directory, no file error stands in the way of showing a path. -/
theorem exists_relativePath (hlost : h.lost = 0)
    (hfault : ∀ e, r.relativePath h path = .error e → ∃ cause, e = .file cause) :
    ∃ shown, r.relativePath h path = .ok shown := by
  cases hshown : r.relativePath h path with
  | ok shown => exact ⟨shown, rfl⟩
  | error e =>
    obtain ⟨cause, rfl⟩ := hfault e hshown
    rw [relativePath] at hshown
    split at hshown
    · next hprefix =>
      obtain rfl := Except.error.inj hshown
      exact absurd (longestPrefix?_fault hprefix) nofun
    · exact absurd hshown nofun
    · next root _ =>
      obtain ⟨shown, hroot⟩ := exists_relativeToRoot hlost path (some root)
      exact absurd (hroot.symm.trans hshown) nofun
    · exact absurd hshown nofun
    · split at hshown
      · exact absurd hshown nofun
      · exact absurd (Except.error.inj hshown) nofun

/-- As long as there is a working directory, files can be asked about where nothing but file errors
is met. -/
theorem canAsk_of_lost_eq_zero (hlost : h.lost = 0)
    (hnode : ∀ path ∈ files, ∀ e, h.node path = .error e → ∃ cause, e = .file cause)
    (hshown : ∀ path ∈ files, ∀ e, r.relativePath h path = .error e → ∃ cause, e = .file cause) :
    r.CanAsk h files :=
  ⟨fun path hpath => exists_relativePath hlost (hshown path hpath), hnode⟩

/-! ## What a file contributes -/

/-- A file that can be read contributes its text. -/
theorem chunk?_of_isFile (hask : r.CanAsk h [path]) (hfile : h.isFile path = true) :
    ∃ shown bytes, r.relativePath h path = .ok shown ∧ source h path = .ok (.ok bytes) ∧
      r.chunk? h path = some (chunk (r.options.header path shown) bytes) := by
  obtain ⟨shown, hshown⟩ := hask.shown path List.mem_cons_self
  obtain ⟨bytes, stamp, hn⟩ := Host.isFile_iff.1 hfile
  have hsource : source h path = .ok (.ok bytes) := by rw [source, hn]
  refine ⟨shown, bytes, hshown, hsource, ?_⟩
  rw [chunk?, hshown, hsource]

/-- Anything else has a reason why it cannot be read. -/
theorem source_of_not_isFile (hask : r.CanAsk h [path]) (hfile : h.isFile path = false) :
    ∃ reason, source h path = .ok (.error reason) := by
  rw [source]
  cases hn : h.node path with
  | error e =>
    obtain ⟨cause, rfl⟩ := hask.fault path List.mem_cons_self e hn
    exact ⟨_, rfl⟩
  | ok n =>
    cases n with
    | file bytes stamp => cases hfile.symm.trans (Host.isFile_iff.2 ⟨bytes, stamp, hn⟩)
    | link target => exact ⟨_, rfl⟩
    | directory es => exact ⟨_, rfl⟩

theorem chunk?_of_not_isFile (r : Renderer) (hfile : h.isFile path = false) :
    r.chunk? h path = none := by
  rw [chunk?]
  split
  · next bytes _ hsource =>
    rw [source] at hsource
    split at hsource
    · next hn => cases hfile.symm.trans (Host.isFile_iff.2 ⟨_, _, hn⟩)
    · cases Except.ok.inj hsource
    · cases Except.ok.inj hsource
    · cases hsource
  · rfl

/-! ## Bytes in all -/

theorem totalBytes_singleton {text : Text} (htext : r.chunk? h path = some text) :
    r.totalBytes h [path] = Utf8.byteLength text := by
  rw [totalBytes, List.filterMap_cons_some htext]
  simp

theorem totalBytes_of_not_isFile (hfiles : ∀ path ∈ files, h.isFile path = false) :
    r.totalBytes h files = 0 := by
  have hnone : files.filterMap (r.chunk? h) = [] :=
    List.filterMap_eq_nil_iff.2 fun path hpath => chunk?_of_not_isFile r (hfiles path hpath)
  rw [totalBytes, hnone]
  rfl

theorem totalBytes_append (r : Renderer) (h : Host) (front files : List Text) :
    r.totalBytes h (front ++ files) = r.totalBytes h front + r.totalBytes h files := by
  rw [totalBytes, List.filterMap_append, ← Utf8.byteLength_flatten, List.flatten_append,
    Utf8.byteLength_append, Utf8.byteLength_flatten, Utf8.byteLength_flatten]
  rfl

/-- Whether files have room after a number of bytes.  Nothing to read always has. -/
def Fits (r : Renderer) (h : Host) (before : Nat) (files : List Text) : Prop :=
  (∀ path ∈ files, h.isFile path = false) ∨
    ((before + r.totalBytes h files : Nat) : Int) ≤ r.options.maxBytes

/-- Files have room exactly if each has room after those before it. -/
theorem fits_cons_iff {before : Nat} :
    r.Fits h before (path :: files) ↔
      r.Fits h before [path] ∧ r.Fits h (before + r.totalBytes h [path]) files := by
  have hcons := totalBytes_append r h [path] files
  rw [List.singleton_append] at hcons
  rw [Fits, Fits, Fits, List.forall_mem_cons, List.forall_mem_singleton]
  constructor
  · rintro (⟨hpath, hfiles⟩ | hroom)
    · exact ⟨Or.inl hpath, Or.inl hfiles⟩
    · exact ⟨Or.inr (by omega), Or.inr (by omega)⟩
  · rintro ⟨hpath, hfiles⟩
    rcases hfiles with hfiles | hroom
    · rcases hpath with hpath | hroom
      · exact Or.inl ⟨hpath, hfiles⟩
      · have hzero := totalBytes_of_not_isFile (r := r) hfiles
        exact Or.inr (by omega)
    · exact Or.inr (by omega)

/-! ## One step -/

/-- What files add to a result begun where none of them is left out for want of room. -/
structure Adds (r : Renderer) (h : Host) (files : List Text) (begun result : RenderResult) :
    Prop where
  truncated : result.truncated = begun.truncated
  manifest : result.manifest = begun.manifest
  content : result.content = begun.content ++ (files.filterMap (r.chunk? h)).flatten
  totalBytes : result.totalBytes = begun.totalBytes + r.totalBytes h files
  rendered : result.rendered = begun.rendered ++ files.filter (h.isFile ·)
  reports : result.diagnostics.map (fun d => (d.kind, d.path)) =
    begun.diagnostics.map (fun d => (d.kind, d.path)) ++
      (files.filter (!h.isFile ·)).map fun path => (.fileReadFailure, some path)

theorem Adds.append {front : List Text} {next result : RenderResult}
    (hfront : r.Adds h front begun next) (hfiles : r.Adds h files next result) :
    r.Adds h (front ++ files) begun result where
  truncated := hfiles.truncated.trans hfront.truncated
  manifest := hfiles.manifest.trans hfront.manifest
  content := by
    rw [hfiles.content, hfront.content, List.filterMap_append, List.flatten_append,
      List.append_assoc]
  totalBytes := by rw [hfiles.totalBytes, hfront.totalBytes, totalBytes_append, Nat.add_assoc]
  rendered := by rw [hfiles.rendered, hfront.rendered, List.filter_append, List.append_assoc]
  reports := by
    rw [hfiles.reports, hfront.reports, List.filter_append, List.map_append, List.append_assoc]

theorem track_eq (result : RenderResult) (f : FileSize) :
    ∃ largest, result.track f = { result with largest } := by
  rw [RenderResult.track]
  split
  · exact ⟨_, rfl⟩
  · split
    · exact ⟨_, rfl⟩
    · exact ⟨result.largest, rfl⟩

theorem foldl_track_eq (sizes : List FileSize) (result : RenderResult) :
    ∃ largest, sizes.foldl RenderResult.track result = { result with largest } := by
  induction sizes generalizing result with
  | nil => exact ⟨result.largest, rfl⟩
  | cons f sizes ih =>
    obtain ⟨largest, htrack⟩ := track_eq result f
    rw [List.foldl_cons, htrack]
    exact ih _

/-- A file with room for it is added, or reported and left out. -/
theorem renderFrom_cons_of_fits (hask : r.CanAsk h [path])
    (hfits : r.Fits h begun.totalBytes [path]) :
    ∃ next, (∀ rest, r.renderFrom h (path :: rest) begun = r.renderFrom h rest next) ∧
      r.Adds h [path] begun next := by
  cases hfile : h.isFile path with
  | false =>
    obtain ⟨shown, hshown⟩ := hask.shown path List.mem_cons_self
    obtain ⟨reason, hsource⟩ := source_of_not_isFile hask hfile
    have hnone := chunk?_of_not_isFile r hfile
    have hzero : r.totalBytes h [path] = 0 := totalBytes_of_not_isFile (by simpa using hfile)
    refine ⟨begun.report (readFailure path reason), fun rest => ?_, ?_⟩
    · rw [renderFrom, hshown]
      simp only [hsource]
    · constructor <;> simp [RenderResult.report, readFailure, hnone, hzero, hfile]
  | true =>
    obtain ⟨shown, bytes, hshown, hsource, hchunk⟩ := chunk?_of_isFile hask hfile
    obtain ⟨largest, htrack⟩ := track_eq begun ⟨path, shown, bytes.length⟩
    have hleast := leastBytes_le (r.options.header path shown) bytes
    have hsize := totalBytes_singleton hchunk
    have hroom : ((begun.totalBytes + r.totalBytes h [path] : Nat) : Int) ≤ r.options.maxBytes :=
      hfits.resolve_left (by simp [hfile])
    refine ⟨{ begun with
      content := begun.content ++ chunk (r.options.header path shown) bytes
      totalBytes := begun.totalBytes + Utf8.byteLength (chunk (r.options.header path shown) bytes)
      rendered := begun.rendered ++ [path]
      largest }, fun rest => ?_, ?_⟩
    · rw [renderFrom, hshown]
      simp only [hsource, htrack]
      rw [if_neg (by omega), if_neg (by omega)]
    · constructor <;> simp [hchunk, hsize, hfile]

/-- Files with room for them are added one by one. -/
theorem renderFrom_append_of_fits (begun : RenderResult) (hask : r.CanAsk h files)
    (hfits : r.Fits h begun.totalBytes files) :
    ∃ result, (∀ rest, r.renderFrom h (files ++ rest) begun = r.renderFrom h rest result) ∧
      r.Adds h files begun result := by
  induction files generalizing begun with
  | nil =>
    refine ⟨begun, fun rest => rfl, ?_⟩
    constructor <;> simp [totalBytes]
  | cons path files ih =>
    obtain ⟨haskPath, haskFiles⟩ := canAsk_cons_iff.1 hask
    obtain ⟨hfitsPath, hfitsFiles⟩ := fits_cons_iff.1 hfits
    obtain ⟨next, hnext, hadds⟩ := renderFrom_cons_of_fits haskPath hfitsPath
    rw [← hadds.totalBytes] at hfitsFiles
    obtain ⟨result, hresult, hrest⟩ := ih next haskFiles hfitsFiles
    exact ⟨result, fun rest => (hnext (files ++ rest)).trans (hresult rest), hadds.append hrest⟩

/-- The manifest of files can be written. -/
theorem exists_manifest (hask : r.CanAsk h files) :
    ∃ text sizes, r.manifest h files = .ok (text, sizes) := by
  have hlines : ∀ path ∈ files, ∃ line, r.manifestLine h path = .ok line := by
    intro path hpath
    rw [manifestLine]
    cases hn : h.node path with
    | error e =>
      obtain ⟨cause, rfl⟩ := hask.fault path hpath e hn
      exact ⟨_, rfl⟩
    | ok n =>
      obtain ⟨shown, hshown⟩ := hask.shown path hpath
      rw [hshown]
      exact ⟨_, rfl⟩
  obtain ⟨lines, hlines⟩ := exists_mapM_eq_ok hlines
  rw [manifest, hlines]
  exact ⟨_, _, rfl⟩

/-! ## The result -/

theorem options_of_ofOptions {options : RenderOptions} (hr : ofOptions options = .ok r) :
    r.options = options := by
  rw [ofOptions] at hr
  cases hroots : options.roots.foldlM Trie.insert .empty with
  | error e => exact absurd (hroots ▸ hr) nofun
  | ok roots =>
    rw [hroots] at hr
    obtain rfl := Except.ok.inj hr
    rfl

/-- A file whose last byte is no text, in a directory that paths are shown relative to. -/
def bytesHost : Host where
  tree := .directory [("p".toList, .directory [("a".toList, .file [0x78, 0xff] (.given 0))])]
  directory := []
  lost := 0
  home := ['/']
  users := []
  clock := 0

/-- A path that it is not known where to show stops the rendering, even one that could only be
reported. -/
theorem render_of_path_fault (hask : r.CanAsk h files) (hfits : r.Fits h 0 files) {e : Fault}
    (hfault : r.relativePath h path = .error e) (rest : List Text) :
    r.render h (files ++ path :: rest) = .error e := by
  obtain ⟨result, hrun, -⟩ := renderFrom_append_of_fits .empty hask hfits
  rw [render, hrun, renderFrom, hfault]

end Bindery.Renderer

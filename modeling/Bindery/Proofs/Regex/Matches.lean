import Bindery.Regex.Basic
import Mathlib.Tactic.Common

/-!
# What expressions match

The beginnings of a text that repetitions and sequences match.
-/

namespace Bindery.Regex

/-- Many characters match nothing, or a first and many more. -/
theorem matches_many_iff {cs : CharSet} {s t : Text} :
    Matches (.many cs) s t ↔
      t = s ∨ ∃ c u, s = c :: u ∧ cs.holds c = true ∧ Matches (.many cs) u t := by
  constructor
  · intro h
    cases h with
    | manyNil => exact Or.inl rfl
    | manyCons hc more => exact Or.inr ⟨_, _, rfl, hc, more⟩
  · rintro (rfl | ⟨c, u, rfl, hc, more⟩)
    · exact .manyNil cs t
    · exact .manyCons hc more

/-- Many characters match any beginning that consists of them. -/
theorem matches_many_iff_append {cs : CharSet} {s t : Text} :
    Matches (.many cs) s t ↔ ∃ u, s = u ++ t ∧ ∀ c ∈ u, cs.holds c = true := by
  constructor
  · intro h
    induction s with
    | nil =>
      rcases matches_many_iff.1 h with rfl | ⟨c, u, heq, -, -⟩
      · exact ⟨[], rfl, nofun⟩
      · exact absurd heq nofun
    | cons d s ih =>
      rcases matches_many_iff.1 h with rfl | ⟨c, u, heq, hc, more⟩
      · exact ⟨[], rfl, nofun⟩
      · obtain ⟨rfl, rfl⟩ := List.cons.inj heq
        obtain ⟨u, rfl, hu⟩ := ih more
        exact ⟨d :: u, rfl, List.forall_mem_cons.2 ⟨hc, hu⟩⟩
  · rintro ⟨u, rfl, hu⟩
    induction u with
    | nil => exact .manyNil cs t
    | cons c u ih =>
      rw [List.forall_mem_cons] at hu
      exact .manyCons hu.1 (ih hu.2)

theorem matches_set_iff {cs : CharSet} {s t : Text} :
    Matches (.set cs) s t ↔ ∃ c, s = c :: t ∧ cs.holds c = true := by
  constructor
  · intro h
    cases h with
    | set hc => exact ⟨_, rfl, hc⟩
  · rintro ⟨c, rfl, hc⟩
    exact .set hc t

theorem matches_seq_iff {a b : Regex} {s t : Text} :
    Matches (.seq a b) s t ↔ ∃ u, Matches a s u ∧ Matches b u t := by
  constructor
  · intro h
    cases h with
    | seq first second => exact ⟨_, first, second⟩
  · rintro ⟨u, first, second⟩
    exact .seq first second

theorem matches_opt_iff {a : Regex} {s t : Text} :
    Matches (.opt a) s t ↔ t = s ∨ Matches a s t := by
  constructor
  · intro h
    cases h with
    | optNone => exact Or.inl rfl
    | optSome h => exact Or.inr h
  · rintro (rfl | h)
    · exact .optNone a t
    · exact .optSome h

theorem matches_alt_iff {a b : Regex} {s t : Text} :
    Matches (.alt a b) s t ↔ Matches a s t ∨ Matches b s t := by
  constructor
  · intro h
    cases h with
    | altLeft _ h => exact Or.inl h
    | altRight _ h => exact Or.inr h
  · rintro (h | h)
    · exact .altLeft b h
    · exact .altRight a h

theorem matches_empty_iff {s t : Text} : Matches .empty s t ↔ t = s := by
  constructor
  · intro h
    cases h
    rfl
  · rintro rfl
    exact .empty t

theorem matches_atEnd_iff {s t : Text} : Matches .atEnd s t ↔ s = [] ∧ t = [] := by
  constructor
  · intro h
    cases h
    exact ⟨rfl, rfl⟩
  · rintro ⟨rfl, rfl⟩
    exact .atEnd

/-- The parts of a sequence match one after the other. -/
theorem matches_ofList_cons_iff {r : Regex} {rs : List Regex} {s t : Text} :
    Matches (ofList (r :: rs)) s t ↔ ∃ u, Matches r s u ∧ Matches (ofList rs) u t := by
  cases rs with
  | nil => simp [ofList, matches_empty_iff]
  | cons r' rs => rw [ofList, matches_seq_iff]; simp

end Bindery.Regex

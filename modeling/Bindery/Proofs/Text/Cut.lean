import Bindery.Text.Basic
import Mathlib.Data.List.Basic
import Mathlib.Data.List.TakeWhile

/-!
# Cutting and joining texts

How `List.splitOn`, `List.intercalate` and the cuts of texts at the last occurrence of a character
work on texts that are put together from parts.
-/

namespace Bindery.Text

theorem intercalate_append {α : Type} (c : α) {ss ts : List (List α)} (hss : ss ≠ [])
    (hts : ts ≠ []) :
    List.intercalate [c] (ss ++ ts) = List.intercalate [c] ss ++ c :: List.intercalate [c] ts := by
  induction ss with
  | nil => exact (hss rfl).elim
  | cons s ss ih =>
    cases ss with
    | nil =>
      rw [List.singleton_append, List.intercalate_cons_of_ne_nil hts, List.intercalate_singleton]
      simp
    | cons r ss =>
      rw [List.cons_append, List.intercalate_cons_of_ne_nil (by simp), ih (List.cons_ne_nil r ss),
        List.intercalate_cons_cons]
      simp

theorem mem_intercalate_of_mem {α : Type} (c : α) {d : α} {s : List α} {ss : List (List α)}
    (hs : s ∈ ss) (hd : d ∈ s) : d ∈ List.intercalate [c] ss := by
  induction ss with
  | nil => exact (List.not_mem_nil hs).elim
  | cons r ss ih =>
    cases ss with
    | nil =>
      obtain rfl := List.mem_singleton.1 hs
      rwa [List.intercalate_singleton]
    | cons q ss =>
      rw [List.intercalate_cons_cons]
      rcases List.mem_cons.1 hs with rfl | hs
      · exact List.mem_append_left _ (List.mem_append_left _ hd)
      · exact List.mem_append_right _ (ih hs)

/-- What is joined is in the separator or in one of the parts. -/
theorem mem_or_of_mem_intercalate {α : Type} {d : α} {sep : List α} {ss : List (List α)}
    (h : d ∈ List.intercalate sep ss) : d ∈ sep ∨ ∃ s ∈ ss, d ∈ s := by
  induction ss with
  | nil => exact absurd h List.not_mem_nil
  | cons r ss ih =>
    cases ss with
    | nil =>
      rw [List.intercalate_singleton] at h
      exact Or.inr ⟨r, List.mem_cons_self, h⟩
    | cons q ss =>
      rw [List.intercalate_cons_cons, List.append_assoc, List.mem_append, List.mem_append] at h
      rcases h with h | h | h
      · exact Or.inr ⟨r, List.mem_cons_self, h⟩
      · exact Or.inl h
      · exact (ih h).imp_right fun ⟨s, hs, hd⟩ => ⟨s, List.mem_cons_of_mem _ hs, hd⟩

theorem mem_of_mem_intercalate {α : Type} {c d : α} {ss : List (List α)}
    (h : d ∈ List.intercalate [c] ss) : d = c ∨ ∃ s ∈ ss, d ∈ s :=
  (mem_or_of_mem_intercalate h).imp_left List.mem_singleton.1

/-- Leaving out texts leaves out part of what they are joined to. -/
theorem intercalate_sublist {α : Type} (c : α) {ss ts : List (List α)} (h : ss.Sublist ts) :
    (List.intercalate [c] ss).Sublist (List.intercalate [c] ts) := by
  induction h with
  | slnil => exact List.Sublist.refl _
  | @cons ss ts t _ ih =>
    cases ts with
    | nil => exact ih.trans (List.nil_sublist _)
    | cons r ts =>
      rw [List.intercalate_cons_cons]
      exact ih.trans (List.sublist_append_right _ _)
  | @cons_cons ss ts t hsub ih =>
    cases ss with
    | nil =>
      rw [List.intercalate_singleton]
      cases ts with
      | nil => rw [List.intercalate_singleton]
      | cons r ts =>
        rw [List.intercalate_cons_cons, List.append_assoc]
        exact List.sublist_append_left _ _
    | cons s ss =>
      cases ts with
      | nil => exact absurd hsub nofun
      | cons r ts =>
        rw [List.intercalate_cons_cons, List.intercalate_cons_cons]
        exact (List.Sublist.refl _).append ih

/-- No part of a split has the character that was split at. -/
theorem not_mem_of_mem_splitOn {c : Char} {s part : Text} (h : part ∈ s.splitOn c) : c ∉ part := by
  induction s generalizing part with
  | nil =>
    rw [List.splitOn_nil, List.mem_singleton] at h
    exact h ▸ List.not_mem_nil
  | cons d s ih =>
    obtain ⟨first, more, hsplit⟩ := List.exists_cons_of_ne_nil (List.splitOn_ne_nil c s)
    rw [List.splitOn_cons_eq_if_modifyHead, hsplit] at h
    rw [hsplit] at ih
    split at h
    · rcases List.mem_cons.1 h with rfl | h
      · exact List.not_mem_nil
      · exact ih h
    · next hd =>
      rw [List.modifyHead_cons] at h
      rcases List.mem_cons.1 h with rfl | h
      · rw [List.mem_cons, not_or]
        exact ⟨fun hc => hd (by simp [hc]), ih List.mem_cons_self⟩
      · exact ih (List.mem_cons_of_mem _ h)

/-- A part of a split has no characters that the text has not. -/
theorem mem_of_mem_splitOn {c d : Char} {s part : Text} (h : part ∈ s.splitOn c) (hd : d ∈ part) :
    d ∈ s := by
  have hmem := mem_intercalate_of_mem c h hd
  rwa [List.intercalate_splitOn] at hmem

/-- What has no separator lies on one side of it. -/
theorem infix_of_append_cons {α : Type} {w s t : List α} {c : α} (h : w <:+: s ++ c :: t)
    (hc : c ∉ w) : w <:+: s ∨ w <:+: t := by
  rcases List.infix_append_iff.1 h with h | h | ⟨u, v, rfl, hu, hv⟩
  · exact Or.inl h
  · rcases List.infix_cons_iff.1 h with h | h
    · rcases List.prefix_cons_iff.1 h with rfl | ⟨v, rfl, -⟩
      · exact Or.inl (List.nil_infix)
      · exact (hc List.mem_cons_self).elim
    · exact Or.inr h
  · rcases List.prefix_cons_iff.1 hv with rfl | ⟨v, rfl, -⟩
    · rw [List.append_nil]
      exact Or.inl hu.isInfix
    · exact (hc (List.mem_append_right _ List.mem_cons_self)).elim

/-- What has no separator lies in one of the texts between separators. -/
theorem infix_of_intercalate {α : Type} {c : α} {w : List α} {ss : List (List α)} (hss : ss ≠ [])
    (h : w <:+: List.intercalate [c] ss) (hc : c ∉ w) : ∃ s ∈ ss, w <:+: s := by
  induction ss with
  | nil => exact (hss rfl).elim
  | cons s ss ih =>
    cases ss with
    | nil =>
      rw [List.intercalate_singleton] at h
      exact ⟨s, List.mem_cons_self, h⟩
    | cons r ss =>
      rw [List.intercalate_cons_cons, List.append_assoc, List.singleton_append] at h
      rcases infix_of_append_cons h hc with h | h
      · exact ⟨s, List.mem_cons_self, h⟩
      · obtain ⟨q, hq, h⟩ := ih (List.cons_ne_nil r ss) h
        exact ⟨q, List.mem_cons_of_mem _ hq, h⟩

/-- The parts of a split are what stands between two separators, the ends of the text counted as
separators. -/
theorem mem_splitOn_iff {c : Char} {s part : Text} :
    part ∈ s.splitOn c ↔ c ∉ part ∧ c :: part ++ [c] <:+: c :: s ++ [c] := by
  have hends : (c :: s ++ [c]).splitOn c = [] :: s.splitOn c ++ [[]] := by
    change ([] ++ c :: s ++ c :: []).splitOn c = _
    rw [List.splitOn_append_cons_self, List.splitOn_append_cons_self]
    rfl
  constructor
  · intro h
    refine ⟨not_mem_of_mem_splitOn h, ?_⟩
    obtain ⟨before, after, hsplit⟩ := List.append_of_mem h
    have hs : List.intercalate [c] (s.splitOn c) = s := List.intercalate_splitOn c
    rw [hsplit] at hs
    have hparts : List.intercalate [c] ([[]] ++ (before ++ part :: after) ++ [[]]) =
        c :: s ++ [c] := by
      rw [intercalate_append c (by simp) (by simp), intercalate_append c (by simp) (by simp), hs]
      rfl
    have hassoc : [[]] ++ (before ++ part :: after) ++ [[]] =
        ([] :: before) ++ ([part] ++ (after ++ [[]])) := by simp
    rw [← hparts, hassoc, intercalate_append c (by simp) (by simp),
      intercalate_append c (by simp) (by simp)]
    exact ⟨List.intercalate [c] ([] :: before), List.intercalate [c] (after ++ [[]]), by simp⟩
  · rintro ⟨hpart, u, v, huv⟩
    have htext : u ++ c :: (part ++ c :: v) = c :: s ++ [c] := by
      rw [← huv]
      simp
    rw [← htext, List.splitOn_append_cons_self, List.splitOn_append_cons_self,
      List.splitOn_eq_singleton hpart] at hends
    -- The first and the last part of the whole are outside of the text.
    obtain ⟨first, before, hbefore⟩ := List.exists_cons_of_ne_nil (List.splitOn_ne_nil c u)
    obtain ⟨after, last, hafter⟩ :=
      (List.eq_nil_or_concat' (v.splitOn c)).resolve_left (List.splitOn_ne_nil c v)
    have hparts : first :: (before ++ part :: after) ++ [last] = [] :: s.splitOn c ++ [[]] := by
      rw [← hends, hbefore, hafter]
      simp
    have hinner := (List.cons.inj (List.append_inj' hparts rfl).1).2
    rw [← hinner]
    simp

/-- The first of texts that are joined is what comes before the first separator. -/
theorem takeWhile_intercalate {c : Char} {s : Text} (hs : c ∉ s) (ss : List Text) :
    (List.intercalate [c] (s :: ss)).takeWhile (· != c) = s ∧
      ((List.intercalate [c] (s :: ss)).dropWhile (· != c)).tail = List.intercalate [c] ss := by
  have hpass : ∀ d ∈ s, (d != c) = true := fun d hd => by
    rw [bne_iff_ne]
    rintro rfl
    exact hs hd
  cases ss with
  | nil =>
    rw [List.intercalate_singleton, List.takeWhile_eq_self_iff.2 hpass,
      List.dropWhile_eq_nil_iff.2 hpass]
    exact ⟨rfl, rfl⟩
  | cons r ss =>
    rw [List.intercalate_cons_cons, List.append_assoc, List.takeWhile_append_of_pos hpass,
      List.dropWhile_append_of_pos hpass]
    simp

theorem length_le_length_intercalate (c : Char) {ss : List Text} (hss : ∀ s ∈ ss, s ≠ []) :
    ss.length ≤ (List.intercalate [c] ss).length := by
  induction ss with
  | nil => exact Nat.le_refl 0
  | cons s ss ih =>
    rw [List.forall_mem_cons] at hss
    have hs : 0 < s.length := List.length_pos_iff.2 hss.1
    have hlength := ih hss.2
    cases ss with
    | nil => simpa using Nat.succ_le_of_lt hs
    | cons r ss =>
      rw [List.intercalate_cons_cons, List.length_append, List.length_append, List.length_cons]
      omega

/-! ## Cutting at the ends -/

theorem isPrefix_dropRightWhile (p : Char → Bool) (s : Text) : dropRightWhile p s <+: s := by
  have hsuffix := List.reverse_prefix.2 (List.dropWhile_suffix p (l := s.reverse))
  rwa [List.reverse_reverse] at hsuffix

/-- The character that one cuts at is the last of the first part. -/
theorem uptoLast_append {c : Char} {s t : Text} (ht : c ∉ t) :
    uptoLast c (s ++ c :: t) = s ++ [c] := by
  have hpass : ∀ d ∈ t.reverse, (d != c) = true := by
    intro d hd
    rw [bne_iff_ne]
    rintro rfl
    exact ht (List.mem_reverse.1 hd)
  rw [uptoLast, List.reverse_append, List.reverse_cons, List.append_assoc,
    List.dropWhile_append_of_pos hpass]
  simp

theorem afterLast_append {c : Char} {s t : Text} (ht : c ∉ t) :
    afterLast c (s ++ c :: t) = t := by
  have h := uptoLast_append_afterLast c (s ++ c :: t)
  rw [uptoLast_append ht, List.append_assoc, List.singleton_append] at h
  exact (List.cons.inj (List.append_cancel_left h)).2

/-- Where the character is not, one cuts in front of the whole text. -/
theorem uptoLast_of_notMem {c : Char} {s : Text} (hs : c ∉ s) : uptoLast c s = [] := by
  rw [uptoLast, List.reverse_eq_nil_iff, List.dropWhile_eq_nil_iff]
  intro d hd
  rw [bne_iff_ne]
  rintro rfl
  exact hs (List.mem_reverse.1 hd)

theorem afterLast_of_notMem {c : Char} {s : Text} (hs : c ∉ s) : afterLast c s = s := by
  have h := uptoLast_append_afterLast c s
  rwa [uptoLast_of_notMem hs, List.nil_append] at h

/-- A text is cut at the last occurrence of a character that it has. -/
theorem exists_eq_append_afterLast {c : Char} {s : Text} (h : c ∈ s) :
    ∃ t, s = t ++ c :: afterLast c s := by
  obtain ⟨t, u, hs, ht⟩ := List.eq_append_cons_of_mem (List.mem_reverse.2 h)
  have hcut : s = u.reverse ++ c :: t.reverse := by
    rw [← List.reverse_reverse s, hs]
    simp
  refine ⟨u.reverse, ?_⟩
  conv_rhs => rw [hcut, afterLast_append (by simpa using ht)]
  exact hcut

/-- Two texts that are cut at the first place of a character agree exactly if both parts do. -/
theorem append_cons_inj {c : Char} {s s' t t' : Text} (hs : c ∉ s) (hs' : c ∉ s') :
    s ++ c :: t = s' ++ c :: t' ↔ s = s' ∧ t = t' := by
  induction s generalizing s' with
  | nil =>
    cases s' with
    | nil => simp
    | cons d s' =>
      have hne : c ≠ d := fun h => hs' (h ▸ List.mem_cons_self)
      simp [hne]
  | cons d s ih =>
    rw [List.mem_cons, not_or] at hs
    cases s' with
    | nil => simp [Ne.symm hs.1]
    | cons d' s' =>
      rw [List.mem_cons, not_or] at hs'
      rw [List.cons_append, List.cons_append, List.cons.injEq, ih hs.2 hs'.2, List.cons.injEq,
        and_assoc]

end Bindery.Text

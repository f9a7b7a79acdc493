import Bindery.Proofs.Regex.Matches
import Mathlib.Tactic.Common

/-!
# Matching by columns

Going through an expression with a column of truth values finds exactly what the expression matches.
A column has one place for each position of a text, and a position is known by the text after it:
`Marked s v t` says that the column `v` holds where `t` is what is left of `s`.

* `reach_spec`: the column after an expression marks what the expression leaves of the texts that
  the column before it marks.
* `isMatch_iff`: `isMatch` asks whether the expression matches some beginning.
-/

namespace Bindery.Regex

/-- The column holds at the position of a text where `t` is left of it. -/
inductive Marked : Text → Column → Text → Prop
  | here (s : Text) (v : Column) : Marked s (true :: v) s
  | there (c : Char) (b : Bool) {s : Text} {v : Column} {t : Text} (h : Marked s v t) :
      Marked (c :: s) (b :: v) t

theorem marked_nil_iff {b : Bool} {v : Column} {t : Text} :
    Marked [] (b :: v) t ↔ b = true ∧ t = [] := by
  constructor
  · intro h
    cases h
    exact ⟨rfl, rfl⟩
  · rintro ⟨rfl, rfl⟩
    exact .here [] v

theorem marked_cons_iff {c : Char} {s : Text} {b : Bool} {v : Column} {t : Text} :
    Marked (c :: s) (b :: v) t ↔ (b = true ∧ t = c :: s) ∨ Marked s v t := by
  constructor
  · intro h
    cases h with
    | here => exact Or.inl ⟨rfl, rfl⟩
    | there _ _ h => exact Or.inr h
  · rintro (⟨rfl, rfl⟩ | h)
    · exact .here _ v
    · exact .there c b h

/-- What a column marks it holds at. -/
theorem Marked.mem {s : Text} {v : Column} {t : Text} (h : Marked s v t) : true ∈ v := by
  induction h with
  | here => exact List.mem_cons_self
  | there _ b _ ih => exact List.mem_cons_of_mem b ih

/-- The column at the beginning marks the whole text only. -/
theorem marked_start_iff {s t : Text} : Marked s (start s) t ↔ t = s := by
  cases s with
  | nil => simp [start, marked_nil_iff]
  | cons c s =>
    rw [start, marked_cons_iff]
    constructor
    · rintro (⟨-, h⟩ | h)
      · exact h
      · exact absurd h.mem (by simp)
    · exact fun h => Or.inl ⟨rfl, h⟩

/-- A column of the right length holds somewhere iff it marks something. -/
theorem any_iff_exists_marked {s : Text} {v : Column} (hv : v.length = s.length + 1) :
    v.any id = true ↔ ∃ t, Marked s v t := by
  induction s generalizing v with
  | nil =>
    obtain ⟨b, rfl⟩ := List.length_eq_one_iff.1 hv
    simp [marked_nil_iff]
  | cons c s ih =>
    cases v with
    | nil => exact absurd hv (by simp)
    | cons b v =>
      rw [List.any_cons, Bool.or_eq_true, ih (by simpa using hv)]
      simp only [id, marked_cons_iff, exists_or, exists_and_left, exists_eq, and_true]

/-! ## Steps of a column -/

/-- Two columns together mark what either marks. -/
theorem marked_zipWith_or_iff {s : Text} {v w : Column} {t : Text} (h : v.length = w.length) :
    Marked s (List.zipWith or v w) t ↔ Marked s v t ∨ Marked s w t := by
  induction s generalizing v w with
  | nil =>
    cases v <;> cases w
    · simp
    · exact absurd h (by simp)
    · exact absurd h (by simp)
    · simp only [List.zipWith_cons_cons, marked_nil_iff, Bool.or_eq_true, or_and_right]
  | cons c s ih =>
    cases v <;> cases w
    · simp
    · exact absurd h (by simp)
    · exact absurd h (by simp)
    · rw [List.zipWith_cons_cons, marked_cons_iff, marked_cons_iff, marked_cons_iff,
        ih (by simpa using h), Bool.or_eq_true, or_and_right, or_or_or_comm]

theorem length_advance (cs : CharSet) (here : Bool) {s : Text} {v : Column}
    (hv : v.length = s.length + 1) : (advance cs here s v).length = s.length + 1 := by
  induction s generalizing here v with
  | nil => cases v <;> rfl
  | cons c s ih =>
    cases v with
    | nil => exact absurd hv (by simp)
    | cons b v => simp [advance, ih _ (by simpa using hv)]

/-- A column advanced by a set marks what is left after one of its characters. -/
theorem marked_advance_iff (cs : CharSet) (here : Bool) {s : Text} {v : Column} {t : Text}
    (hv : v.length = s.length + 1) :
    Marked s (advance cs here s v) t ↔
      (here = true ∧ t = s) ∨ ∃ c, Marked s v (c :: t) ∧ cs.holds c = true := by
  induction s generalizing here v with
  | nil =>
    obtain ⟨b, rfl⟩ := List.length_eq_one_iff.1 hv
    rw [advance, marked_nil_iff]
    · simp [marked_nil_iff]
    · simp
  | cons c s ih =>
    cases v with
    | nil => exact absurd hv (by simp)
    | cons b v =>
      rw [advance, marked_cons_iff, ih _ (by simpa using hv), Bool.and_eq_true]
      refine or_congr_right ⟨?_, ?_⟩
      · rintro (⟨⟨rfl, hc⟩, rfl⟩ | ⟨d, hd, hc⟩)
        · exact ⟨c, .here _ v, hc⟩
        · exact ⟨d, .there c b hd, hc⟩
      · rintro ⟨d, hd, hc⟩
        rcases marked_cons_iff.1 hd with ⟨rfl, heq⟩ | hd
        · obtain ⟨rfl, rfl⟩ := List.cons.inj heq
          exact Or.inl ⟨⟨rfl, hc⟩, rfl⟩
        · exact Or.inr ⟨d, hd, hc⟩

theorem length_spread (cs : CharSet) (carried : Bool) {s : Text} {v : Column}
    (hv : v.length = s.length + 1) : (spread cs carried s v).length = s.length + 1 := by
  induction s generalizing carried v with
  | nil =>
    obtain ⟨b, rfl⟩ := List.length_eq_one_iff.1 hv
    rfl
  | cons c s ih =>
    cases v with
    | nil => exact absurd hv (by simp)
    | cons b v => simp [spread, ih _ (by simpa using hv)]

/-- A column spread by a set marks what is left after any number of its characters. -/
theorem marked_spread_iff (cs : CharSet) (carried : Bool) {s : Text} {v : Column} {t : Text}
    (hv : v.length = s.length + 1) :
    Marked s (spread cs carried s v) t ↔
      (carried = true ∧ Matches (.many cs) s t) ∨ ∃ u, Marked s v u ∧ Matches (.many cs) u t := by
  induction s generalizing carried v with
  | nil =>
    obtain ⟨b, rfl⟩ := List.length_eq_one_iff.1 hv
    have hmany : Matches (.many cs) [] t ↔ t = [] := by
      rw [matches_many_iff]
      simp
    rw [spread, marked_nil_iff, Bool.or_eq_true, hmany]
    · constructor
      · rintro ⟨h | h, rfl⟩
        · exact Or.inl ⟨h, rfl⟩
        · exact Or.inr ⟨[], marked_nil_iff.2 ⟨h, rfl⟩, .manyNil cs []⟩
      · rintro (⟨h, rfl⟩ | ⟨u, hu, ht⟩)
        · exact ⟨Or.inl h, rfl⟩
        · obtain ⟨hb, rfl⟩ := marked_nil_iff.1 hu
          exact ⟨Or.inr hb, hmany.1 ht⟩
    · simp
  | cons c s ih =>
    cases v with
    | nil => exact absurd hv (by simp)
    | cons b v =>
      -- Either nothing is taken, or the first character and then any number from what follows.
      have hmany : Matches (.many cs) (c :: s) t ↔
          t = c :: s ∨ (cs.holds c = true ∧ Matches (.many cs) s t) := by
        rw [matches_many_iff]
        refine or_congr_right ⟨?_, fun h => ⟨c, s, rfl, h⟩⟩
        rintro ⟨d, u, heq, h⟩
        obtain ⟨rfl, rfl⟩ := List.cons.inj heq
        exact h
      have hmarked : (∃ u, Marked (c :: s) (b :: v) u ∧ Matches (.many cs) u t) ↔
          (b = true ∧ Matches (.many cs) (c :: s) t) ∨
            ∃ u, Marked s v u ∧ Matches (.many cs) u t := by
        simp only [marked_cons_iff, or_and_right, exists_or, and_assoc, exists_and_left,
          exists_eq_left]
      rw [spread, marked_cons_iff, ih _ (by simpa using hv), hmarked, Bool.and_eq_true,
        Bool.or_eq_true, ← or_assoc, and_assoc, ← and_or_left, ← hmany, or_and_right, or_assoc]

theorem length_keepLast (v : Column) : (keepLast v).length = v.length := by
  fun_induction keepLast v with
  | case1 => rfl
  | case2 => rfl
  | case3 a b v ih => rw [List.length_cons, ih, List.length_cons (a := a)]

/-- The last position marks the end of the text. -/
theorem marked_keepLast_iff {s : Text} {v : Column} {t : Text} (hv : v.length = s.length + 1) :
    Marked s (keepLast v) t ↔ Marked s v [] ∧ t = [] := by
  induction s generalizing v with
  | nil =>
    obtain ⟨b, rfl⟩ := List.length_eq_one_iff.1 hv
    rw [keepLast, marked_nil_iff, marked_nil_iff]
    simp
  | cons c s ih =>
    match v with
    | [] => exact absurd hv (by simp)
    | [_] => exact absurd hv (by simp)
    | a :: b :: v =>
      rw [keepLast, marked_cons_iff, ih (by simpa using hv), marked_cons_iff (b := a)]
      simp

/-! ## Expressions -/

/-- The column after an expression has the length of the one before it, and it marks what the
expression leaves of what that marks. -/
theorem reach_spec (r : Regex) {s : Text} {v : Column} (hv : v.length = s.length + 1) :
    (r.reach s v).length = s.length + 1 ∧
      ∀ t, Marked s (r.reach s v) t ↔ ∃ u, Marked s v u ∧ r.Matches u t := by
  induction r generalizing v with
  | empty =>
    refine ⟨hv, fun t => ⟨fun h => ⟨t, h, .empty t⟩, ?_⟩⟩
    rintro ⟨u, hu, h⟩
    cases h
    exact hu
  | set cs =>
    refine ⟨length_advance cs false hv, fun t => ?_⟩
    rw [reach, marked_advance_iff cs false hv]
    constructor
    · rintro (⟨h, -⟩ | ⟨c, hc, h⟩)
      · exact absurd h nofun
      · exact ⟨c :: t, hc, .set h t⟩
    · rintro ⟨u, hu, h⟩
      cases h with
      | set h => exact Or.inr ⟨_, hu, h⟩
  | many cs =>
    refine ⟨length_spread cs false hv, fun t => ?_⟩
    rw [reach, marked_spread_iff cs false hv]
    simp
  | seq a b iha ihb =>
    obtain ⟨hla, ha⟩ := iha hv
    obtain ⟨hlb, hb⟩ := ihb hla
    refine ⟨hlb, fun t => ?_⟩
    rw [reach, hb]
    constructor
    · rintro ⟨w, hw, hwt⟩
      obtain ⟨u, hu, huw⟩ := (ha w).1 hw
      exact ⟨u, hu, .seq huw hwt⟩
    · rintro ⟨u, hu, h⟩
      cases h with
      | seq first second => exact ⟨_, (ha _).2 ⟨u, hu, first⟩, second⟩
  | alt a b iha ihb =>
    obtain ⟨hla, ha⟩ := iha hv
    obtain ⟨hlb, hb⟩ := ihb hv
    refine ⟨by rw [reach, List.length_zipWith, hla, hlb, Nat.min_self], fun t => ?_⟩
    rw [reach, marked_zipWith_or_iff (hla.trans hlb.symm), ha, hb]
    constructor
    · rintro (⟨u, hu, h⟩ | ⟨u, hu, h⟩)
      · exact ⟨u, hu, .altLeft b h⟩
      · exact ⟨u, hu, .altRight a h⟩
    · rintro ⟨u, hu, h⟩
      cases h with
      | altLeft _ h => exact Or.inl ⟨u, hu, h⟩
      | altRight _ h => exact Or.inr ⟨u, hu, h⟩
  | opt a iha =>
    obtain ⟨hla, ha⟩ := iha hv
    refine ⟨by rw [reach, List.length_zipWith, hla, hv, Nat.min_self], fun t => ?_⟩
    rw [reach, marked_zipWith_or_iff (hv.trans hla.symm), ha]
    constructor
    · rintro (h | ⟨u, hu, h⟩)
      · exact ⟨t, h, .optNone a t⟩
      · exact ⟨u, hu, .optSome h⟩
    · rintro ⟨u, hu, h⟩
      cases h with
      | optNone => exact Or.inl hu
      | optSome h => exact Or.inr ⟨u, hu, h⟩
  | atEnd =>
    refine ⟨(length_keepLast v).trans hv, fun t => ?_⟩
    rw [reach, marked_keepLast_iff hv]
    constructor
    · rintro ⟨h, rfl⟩
      exact ⟨[], h, .atEnd⟩
    · rintro ⟨u, hu, h⟩
      cases h
      exact ⟨hu, rfl⟩

/-- **An expression matches at the beginning of a text iff it matches some beginning.** -/
theorem isMatch_iff (r : Regex) (s : Text) : r.isMatch s = true ↔ ∃ t, r.Matches s t := by
  have hstart : (start s).length = s.length + 1 := by simp [start]
  obtain ⟨hlen, hmarked⟩ := reach_spec r hstart
  rw [isMatch, any_iff_exists_marked hlen]
  simp only [hmarked, marked_start_iff, exists_eq_left]

end Bindery.Regex

import Bindery.Glob.Braces
import Bindery.Proofs.Text.Cut
import Mathlib.Data.List.TakeWhile

/-!
# What brace alternatives keep

The alternatives of a pattern are put together from parts of it: they have no other characters, end
in a slash if it does, and between them they keep each of its components that has neither braces
nor commas.

* `forall_mem_expandBraces`, `exists_mem_expandBraces`: what every round keeps, all rounds keep.
* `exists_alternative_of_mem_splitOn`: no such component is lost.
* `expandBraces_append`, `expandBraces_append_right`: what is before or behind all braces is so in
  every alternative.
-/

namespace Bindery.Glob

/-! ## Groups -/

theorem Group.options_ne_nil {s : Text} {g : Group} (h : Group.first? s = some g) :
    g.options ≠ [] := by
  induction s generalizing g with
  | nil => exact absurd h nofun
  | cons c r ih =>
    rw [Group.first?] at h
    split at h
    · obtain rfl := Option.some.inj h
      exact List.splitOn_ne_nil _ _
    · obtain ⟨g', hg', rfl⟩ := Option.map_eq_some_iff.1 h
      have hoptions : g'.options ≠ [] := ih hg'
      exact hoptions

/-- What a round makes of a pattern. -/
theorem mem_expandOnce_iff {s t : Text} :
    t ∈ expandOnce s ↔ (Group.first? s = none ∧ t = s) ∨
      ∃ g, Group.first? s = some g ∧ ∃ option ∈ g.options, t = g.before ++ option ++ g.after := by
  rw [expandOnce]
  split
  · next h => simp [h]
  · next g h =>
    simp only [h, Group.expand, List.mem_map, reduceCtorEq, false_and, Option.some.injEq,
      exists_eq_left', false_or]
    exact exists_congr fun option => and_congr_right fun _ => eq_comm

/-! ## Rounds -/

/-- What holds of a pattern and is kept by every round holds of all alternatives. -/
theorem forall_mem_expandBraces {P : Text → Prop} (hstep : ∀ s, P s → ∀ t ∈ expandOnce s, P t)
    {p : Text} (hp : P p) : ∀ alt ∈ expandBraces p, P alt := by
  have hrounds : ∀ rounds ps, (∀ s ∈ ps, P s) → ∀ alt ∈ expandRounds rounds ps, P alt := by
    intro rounds
    induction rounds with
    | zero => exact fun ps hps => hps
    | succ rounds ih =>
      intro ps hps
      rw [expandRounds]
      split
      · exact hps
      · split
        · exact hps
        · refine ih _ fun t ht => ?_
          obtain ⟨s, hs, ht⟩ := List.mem_flatMap.1 ht
          exact hstep s (hps s hs) t ht
  exact hrounds _ _ (List.forall_mem_singleton.2 hp)

/-- What every round keeps for one of its patterns holds of some alternative. -/
theorem exists_mem_expandBraces {P : Text → Prop} (hstep : ∀ s, P s → ∃ t ∈ expandOnce s, P t)
    {p : Text} (hp : P p) : ∃ alt ∈ expandBraces p, P alt := by
  have hrounds : ∀ rounds ps, (∃ s ∈ ps, P s) → ∃ alt ∈ expandRounds rounds ps, P alt := by
    intro rounds
    induction rounds with
    | zero => exact fun ps hps => hps
    | succ rounds ih =>
      intro ps hps
      rw [expandRounds]
      split
      · exact hps
      · split
        · exact hps
        · obtain ⟨s, hs, hPs⟩ := hps
          obtain ⟨t, ht, hPt⟩ := hstep s hPs
          exact ih _ ⟨t, List.mem_flatMap_of_mem hs ht, hPt⟩
  exact hrounds _ _ ⟨p, List.mem_singleton_self p, hp⟩

theorem expandOnce_ne_nil (s : Text) : expandOnce s ≠ [] := by
  cases hg : Group.first? s with
  | none => exact List.ne_nil_of_mem (mem_expandOnce_iff.2 (Or.inl ⟨hg, rfl⟩))
  | some g =>
    obtain ⟨option, hoption⟩ := List.exists_mem_of_ne_nil _ (Group.options_ne_nil hg)
    exact List.ne_nil_of_mem (mem_expandOnce_iff.2 (Or.inr ⟨g, hg, option, hoption, rfl⟩))

theorem expandBraces_ne_nil (p : Text) : expandBraces p ≠ [] := by
  have hstep : ∀ s, True → ∃ t ∈ expandOnce s, True := fun s _ =>
    (List.exists_mem_of_ne_nil _ (expandOnce_ne_nil s)).imp fun t ht => ⟨ht, trivial⟩
  obtain ⟨alt, halt, -⟩ := exists_mem_expandBraces hstep (p := p) trivial
  exact List.ne_nil_of_mem halt

/-! ## What the alternatives keep -/

/-- An alternative has no characters that the pattern has not. -/
theorem mem_of_mem_expandBraces {p alt : Text} (halt : alt ∈ expandBraces p) {c : Char}
    (hc : c ∈ alt) : c ∈ p := by
  have hstep : ∀ s, (∀ c ∈ s, c ∈ p) → ∀ t ∈ expandOnce s, ∀ c ∈ t, c ∈ p := by
    intro s hs t ht c hc
    rcases mem_expandOnce_iff.1 ht with ⟨-, rfl⟩ | ⟨g, hg, option, hoption, rfl⟩
    · exact hs c hc
    · refine hs c ?_
      rw [Group.first?_eq_some hg, Group.toText]
      rcases List.mem_append.1 hc with hc | hc
      · rcases List.mem_append.1 hc with hc | hc
        · exact List.mem_append_left _ (List.mem_append_left _ hc)
        · refine List.mem_append_left _ (List.mem_append_right _ (List.mem_cons_of_mem _ ?_))
          exact Text.mem_intercalate_of_mem ',' hoption hc
      · exact List.mem_append_right _ (List.mem_cons_of_mem _ hc)
  exact forall_mem_expandBraces hstep (fun _ h => h) alt halt c hc

/-- The alternatives of a pattern that ends in a slash end in a slash. -/
theorem getLast?_of_mem_expandBraces {p alt : Text} (halt : alt ∈ expandBraces p)
    (hp : p.getLast? = some '/') : alt.getLast? = some '/' := by
  have hstep : ∀ s : Text, s.getLast? = some '/' → ∀ t ∈ expandOnce s, t.getLast? = some '/' := by
    intro s hs t ht
    rcases mem_expandOnce_iff.1 ht with ⟨-, rfl⟩ | ⟨g, hg, option, -, rfl⟩
    · exact hs
    · rw [Group.first?_eq_some hg, Group.toText] at hs
      cases hafter : g.after with
      | nil =>
        rw [hafter, List.getLast?_concat] at hs
        exact absurd hs (by decide)
      | cons c r =>
        rw [hafter, List.getLast?_append_cons, List.getLast?_cons_cons] at hs
        rw [List.getLast?_append_cons]
        exact hs
  exact forall_mem_expandBraces hstep hp alt halt

/-- What has no braces and commas lies before a group, in one of its options or after it. -/
theorem Group.infix_toText {g : Group} (hoptions : g.options ≠ []) {w : Text}
    (hw : ∀ x ∈ ['{', ',', '}'], x ∉ w) (left right : Text)
    (hpart : w <:+: left ++ g.toText ++ right) :
    w <:+: left ++ g.before ∨ (∃ option ∈ g.options, w <:+: option) ∨ w <:+: g.after ++ right := by
  have hopen : left ++ g.toText ++ right = (left ++ g.before) ++ '{' ::
      (List.intercalate [','] g.options ++ '}' :: (g.after ++ right)) := by
    rw [Group.toText]
    simp
  rw [hopen] at hpart
  rcases Text.infix_of_append_cons hpart (hw '{' (by decide)) with hin | hin
  · exact Or.inl hin
  · rcases Text.infix_of_append_cons hin (hw '}' (by decide)) with hin | hin
    · exact Or.inr (Or.inl (Text.infix_of_intercalate hoptions hin (hw ',' (by decide))))
    · exact Or.inr (Or.inr hin)

/-- A component without braces and commas is a component of some alternative. -/
theorem exists_alternative_of_mem_splitOn {p c : Text} (hp : p ≠ []) (hc : c ∈ p.splitOn '/')
    (hplain : ∀ x ∈ ['{', ',', '}'], x ∉ c) :
    ∃ alt ∈ expandBraces p, alt ≠ [] ∧ c ∈ alt.splitOn '/' := by
  -- The component stays together with the slashes around it.
  have hmark : ∀ x ∈ ['{', ',', '}'], x ∉ '/' :: c ++ ['/'] := by
    intro x hx hmem
    rcases List.mem_append.1 hmem with hmem | hmem
    · rcases List.mem_cons.1 hmem with rfl | hmem
      · exact absurd hx (by decide)
      · exact hplain x hx hmem
    · obtain rfl := List.mem_singleton.1 hmem
      exact absurd hx (by decide)
  have hstep : ∀ s : Text, s ≠ [] ∧ c ∈ s.splitOn '/' →
      ∃ t ∈ expandOnce s, t ≠ [] ∧ c ∈ t.splitOn '/' := by
    rintro s ⟨hs, hmem⟩
    cases hg : Group.first? s with
    | none => exact ⟨s, mem_expandOnce_iff.2 (Or.inl ⟨hg, rfl⟩), hs, hmem⟩
    | some g =>
      obtain ⟨hslash, hinfix⟩ := Text.mem_splitOn_iff.1 hmem
      have hlong : ∀ {w : Text}, '/' :: c ++ ['/'] <:+: w → 1 < w.length := by
        intro w hw
        have hlength := hw.length_le
        simp at hlength
        omega
      have htake : ∀ option ∈ g.options, g.before ++ option ++ g.after ≠ [] →
          '/' :: c ++ ['/'] <:+: '/' :: (g.before ++ option ++ g.after) ++ ['/'] →
          ∃ t ∈ expandOnce s, t ≠ [] ∧ c ∈ t.splitOn '/' := by
        intro option hoption hne hw
        exact ⟨_, mem_expandOnce_iff.2 (Or.inr ⟨g, hg, option, hoption, rfl⟩), hne,
          Text.mem_splitOn_iff.2 ⟨hslash, hw⟩⟩
      have hoptions := Group.options_ne_nil hg
      obtain ⟨first, hfirst⟩ := List.exists_mem_of_ne_nil _ hoptions
      rw [Group.first?_eq_some hg] at hinfix
      rcases Group.infix_toText hoptions hmark ['/'] ['/'] hinfix with
        hin | ⟨option, hoption, hin⟩ | hin
      · have hbefore : g.before ≠ [] := by
          intro hnil
          simpa [hnil] using hlong hin
        refine htake first hfirst (by simp [hbefore]) (hin.trans ?_)
        exact ⟨[], first ++ g.after ++ ['/'], by simp⟩
      · have hne : option ≠ [] := by
          rintro rfl
          exact absurd (hlong hin) (by simp)
        refine htake option hoption (by simp [hne]) (hin.trans ?_)
        exact ⟨'/' :: g.before, g.after ++ ['/'], by simp⟩
      · have hafter : g.after ≠ [] := by
          intro hnil
          simpa [hnil] using hlong hin
        refine htake first hfirst (by simp [hafter]) (hin.trans ?_)
        exact ⟨'/' :: (g.before ++ first), [], by simp⟩
  exact exists_mem_expandBraces hstep ⟨hp, hc⟩

/-! ## What is around all groups -/

/-- What is done to all patterns alike, and changes none of their groups, may as well be done after
the rounds. -/
theorem expandRounds_map {g : Text → Text}
    (hnone : ∀ p, (Group.first? (g p)).isNone = (Group.first? p).isNone)
    (honce : ∀ p, expandOnce (g p) = (expandOnce p).map g) (rounds : Nat) (ps : List Text) :
    expandRounds rounds (ps.map g) = (expandRounds rounds ps).map g := by
  induction rounds generalizing ps with
  | zero => rfl
  | succ rounds ih =>
    have hdone : ((ps.map g).all fun p => (Group.first? p).isNone) =
        ps.all fun p => (Group.first? p).isNone := by
      rw [List.all_map]
      congr 1
      funext p
      exact hnone p
    have hcount : (ps.map g).foldr (fun p n => expandOnceCount p + n) 0 =
        ps.foldr (fun p n => expandOnceCount p + n) 0 := by
      rw [List.foldr_map]
      congr 1
      funext p n
      rw [← length_expandOnce, ← length_expandOnce, honce, List.length_map]
    have hround : (ps.map g).flatMap expandOnce = (ps.flatMap expandOnce).map g := by
      rw [List.flatMap_map, List.map_flatMap]
      congr 1
      funext p
      exact honce p
    rw [expandRounds, expandRounds, hdone, hcount, hround, ih]
    split
    · rfl
    · split <;> rfl

theorem first?_cons {c : Char} (hc : c ≠ '{') (p : Text) :
    Group.first? (c :: p) = (Group.first? p).map fun g => { g with before := c :: g.before } := by
  rw [Group.first?, if_neg hc]

theorem expandBraces_cons {c : Char} (hc : c ≠ '{') (p : Text) :
    expandBraces (c :: p) = (expandBraces p).map (c :: ·) := by
  rw [expandBraces, List.count_cons_of_ne hc]
  refine expandRounds_map (fun q => ?_) (fun q => ?_) _ [p]
  · rw [first?_cons hc, Option.isNone_map]
  · rw [expandOnce, expandOnce, first?_cons hc]
    cases Group.first? q with
    | none => rfl
    | some g => simp [Group.expand]

/-- What is before all braces of a pattern is before each of its alternatives. -/
theorem expandBraces_append {s : Text} (hs : '{' ∉ s) (p : Text) :
    expandBraces (s ++ p) = (expandBraces p).map (s ++ ·) := by
  induction s with
  | nil => simp
  | cons c s ih =>
    rw [List.mem_cons, not_or] at hs
    rw [List.cons_append, expandBraces_cons (Ne.symm hs.1), ih hs.2, List.map_map]
    rfl

/-- Whether a group ends behind an opening brace is known at the next brace. -/
theorem groupBody?_append_of_brace {s : Text} (hs : ∃ c ∈ s, isBrace c = true) (t : Text) :
    groupBody? (s ++ t) = (groupBody? s).map fun x => (x.1, x.2 ++ t) := by
  obtain ⟨b, hb, hbrace⟩ := hs
  have htake : (s ++ t).takeWhile (fun c => !isBrace c) = s.takeWhile fun c => !isBrace c := by
    rw [List.takeWhile_append, if_neg]
    intro hlength
    have hself := (List.takeWhile_prefix (fun c => !isBrace c) (l := s)).eq_of_length hlength
    rw [List.takeWhile_eq_self_iff] at hself
    exact absurd (hself b hb) (by simp [hbrace])
  rw [groupBody?, groupBody?, List.dropWhile_append, htake]
  cases hdrop : s.dropWhile fun c => !isBrace c with
  | nil => exact absurd (List.dropWhile_eq_nil_iff.1 hdrop b hb) (by simp [hbrace])
  | cons c r =>
    simp only [List.isEmpty_cons, Bool.false_eq_true, if_false, List.cons_append]
    split
    · next heq =>
      obtain ⟨rfl, rfl⟩ := List.cons.inj heq
      split <;> rfl
    · next hclose =>
      split
      · next heq =>
        obtain ⟨rfl, rfl⟩ := List.cons.inj heq
        exact (hclose _ rfl).elim
      · rfl

section After

variable {t : Text} (ht : ∀ c ∈ t, isBrace c = false)

include ht

theorem groupBody?_append (s : Text) :
    groupBody? (s ++ t) = (groupBody? s).map fun x => (x.1, x.2 ++ t) := by
  by_cases hs : ∃ c ∈ s, isBrace c = true
  · exact groupBody?_append_of_brace hs t
  · -- There is no brace to end a group with.
    push Not at hs
    have hnone : ∀ u : Text, (∀ c ∈ u, isBrace c = false) → groupBody? u = none := by
      intro u hu
      have hnil : u.dropWhile (fun c => !isBrace c) = [] :=
        List.dropWhile_eq_nil_iff.2 fun c hc => by simp [hu c hc]
      rw [groupBody?, hnil]
    have hplain : ∀ c ∈ s, isBrace c = false := fun c hc => by simpa using hs c hc
    rw [hnone s hplain, hnone _ (List.forall_mem_append.2 ⟨hplain, ht⟩)]
    rfl

theorem first?_append (s : Text) :
    Group.first? (s ++ t) = (Group.first? s).map fun g => { g with after := g.after ++ t } := by
  induction s with
  | nil =>
    -- There is no brace to begin a group with.
    induction t with
    | nil => rfl
    | cons c t ih =>
      rw [List.forall_mem_cons] at ht
      have hc : c ≠ '{' := by
        rintro rfl
        exact absurd ht.1 (by decide)
      rw [List.nil_append] at ih ⊢
      rw [first?_cons hc, ih ht.2]
      rfl
  | cons c s ih =>
    rw [List.cons_append, Group.first?, Group.first?, groupBody?_append ht, ih]
    by_cases hc : c = '{'
    · rw [if_pos hc, if_pos hc]
      cases groupBody? s with
      | none => cases Group.first? s <;> rfl
      | some x => rfl
    · rw [if_neg hc, if_neg hc]
      cases Group.first? s <;> rfl

/-- What is behind all braces of a pattern is behind each of its alternatives. -/
theorem expandBraces_append_right (p : Text) :
    expandBraces (p ++ t) = (expandBraces p).map (· ++ t) := by
  have hcount : t.count '{' = 0 :=
    List.count_eq_zero.2 fun hmem => absurd (ht '{' hmem) (by decide)
  rw [expandBraces, List.count_append, hcount, Nat.add_zero]
  refine expandRounds_map (g := (· ++ t)) (fun q => ?_) (fun q => ?_) _ [p]
  · rw [first?_append ht, Option.isNone_map]
  · rw [expandOnce, expandOnce, first?_append ht]
    cases Group.first? q with
    | none => rfl
    | some g => simp [Group.expand]

end After

end Bindery.Glob

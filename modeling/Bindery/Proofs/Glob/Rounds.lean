import Bindery.Proofs.Glob.Nested
import Mathlib

/-!
# The rounds of brace expansion

The rounds as they are run, one pattern after the other: a round is left in the middle as soon as it
makes too many patterns, and the rounds are over when no brace is left or a round opened no group.
All patterns of a round have the same braces and commas, so each of them has a group or none has,
and the rounds end for every pattern, be its braces balanced or not.

* `IsGroup`, `IsLeftmostGroup`: the group that a round opens, `Group.isLeftmostGroup_of_first?`.
* `skeleton`: the braces and commas of a pattern; they tell where its first group is,
  `Group.first?_skeleton`.
* `turn`, `Ends`: the rounds pattern by pattern; `Uniform` is what every turn keeps.
* `expandBraces_bounded`: what the rounds end with.
-/

namespace Bindery.Glob

/-! ## The group that is opened -/

/-- A group without inner braces in a text: what is before it, what is between its braces, and what
is after it. -/
structure IsGroup (s before body after : Text) : Prop where
  eq_append : s = before ++ '{' :: (body ++ '}' :: after)
  comma_mem : ',' ∈ body
  not_brace : ∀ c ∈ body, isBrace c = false

/-- No group begins before this one. -/
structure IsLeftmostGroup (s before body after : Text) : Prop extends
    IsGroup s before body after where
  length_le : ∀ b o a, IsGroup s b o a → before.length ≤ b.length

theorem isGroup_cons_iff {c : Char} {s before body after : Text} :
    IsGroup (c :: s) before body after ↔
      (before = [] ∧ c = '{' ∧ groupBody? s = some (body, after)) ∨
        ∃ b, before = c :: b ∧ IsGroup s b body after := by
  constructor
  · rintro ⟨heq, hcomma, hplain⟩
    cases before with
    | nil =>
      obtain ⟨rfl, rfl⟩ := List.cons.inj heq
      exact Or.inl ⟨rfl, rfl, groupBody?_closed hplain hcomma after⟩
    | cons d b =>
      obtain ⟨rfl, rfl⟩ := List.cons.inj heq
      exact Or.inr ⟨b, rfl, rfl, hcomma, hplain⟩
  · rintro (⟨rfl, rfl, hbody⟩ | ⟨b, rfl, rfl, hcomma, hplain⟩)
    · obtain ⟨rfl, hcomma, hplain⟩ := groupBody?_eq_some hbody
      exact ⟨rfl, hcomma, hplain⟩
    · exact ⟨rfl, hcomma, hplain⟩

/-- The group that a round opens is the leftmost one. -/
theorem Group.isLeftmostGroup_of_first? {s : Text} {g : Group} (h : Group.first? s = some g) :
    ∃ body, g.options = body.splitOn ',' ∧ IsLeftmostGroup s g.before body g.after := by
  induction s generalizing g with
  | nil => exact absurd h nofun
  | cons c r ih =>
    rw [Group.first?] at h
    split at h
    · next body after hbody =>
      obtain rfl := Option.some.inj h
      split at hbody
      · next hc =>
        exact ⟨body, rfl, isGroup_cons_iff.2 (Or.inl ⟨rfl, hc, hbody⟩), fun _ _ _ _ =>
          Nat.zero_le _⟩
      · cases hbody
    · next hnone =>
      obtain ⟨g', hg', rfl⟩ := Option.map_eq_some_iff.1 h
      obtain ⟨body, hoptions, hgroup, hleft⟩ := ih hg'
      refine ⟨body, hoptions, isGroup_cons_iff.2 (Or.inr ⟨_, rfl, hgroup⟩), ?_⟩
      intro b o a hother
      rcases isGroup_cons_iff.1 hother with ⟨-, hc, hbody⟩ | ⟨b', rfl, hlater⟩
      · rw [if_pos hc, hbody] at hnone
        cases hnone
      · exact Nat.succ_le_succ (hleft b' o a hlater)

/-- Without a group to open there is none. -/
theorem Group.first?_eq_none_iff {s : Text} :
    Group.first? s = none ↔ ∀ before body after, ¬IsGroup s before body after := by
  constructor
  · intro h before body after hgroup
    induction s generalizing before with
    | nil => exact absurd hgroup.eq_append (by simp)
    | cons c r ih =>
      rw [Group.first?] at h
      split at h
      · cases h
      · next hnone =>
        rcases isGroup_cons_iff.1 hgroup with ⟨-, hc, hbody⟩ | ⟨b, -, hgroup⟩
        · rw [if_pos hc, hbody] at hnone
          cases hnone
        · exact ih (Option.map_eq_none_iff.1 h) b hgroup
  · intro h
    cases hg : Group.first? s with
    | none => rfl
    | some g =>
      obtain ⟨body, -, hgroup⟩ := Group.isLeftmostGroup_of_first? hg
      exact (h _ _ _ hgroup.toIsGroup).elim

/-- The options of a group have neither braces nor commas. -/
theorem Group.not_mark_of_mem_options {s : Text} {g : Group} (h : Group.first? s = some g)
    {option : Text} (hoption : option ∈ g.options) :
    ∀ c ∈ option, isBrace c = false ∧ c ≠ ',' := by
  obtain ⟨body, hoptions, hgroup⟩ := Group.isLeftmostGroup_of_first? h
  rw [hoptions] at hoption
  intro c hc
  refine ⟨hgroup.not_brace c (Text.mem_of_mem_splitOn hoption hc), ?_⟩
  rintro rfl
  exact Text.not_mem_of_mem_splitOn hoption hc

/-! ## Skeletons -/

/-- Whether a character is a brace or a comma. -/
def isMark (c : Char) : Bool :=
  isBrace c || c == ','

/-- The braces and commas of a text, in order. -/
def skeleton (s : Text) : Text :=
  s.filter isMark

theorem skeleton_nil : skeleton [] = [] := rfl

theorem skeleton_append (s t : Text) : skeleton (s ++ t) = skeleton s ++ skeleton t :=
  List.filter_append s t

theorem skeleton_cons_of_isMark {c : Char} (hc : isMark c = true) (s : Text) :
    skeleton (c :: s) = c :: skeleton s :=
  List.filter_cons_of_pos hc

theorem skeleton_cons_of_not_isMark {c : Char} (hc : isMark c = false) (s : Text) :
    skeleton (c :: s) = skeleton s :=
  List.filter_cons_of_neg (by simp [hc])

theorem isMark_of_isBrace {c : Char} (hc : isBrace c = true) : isMark c = true := by
  rw [isMark, hc, Bool.true_or]

/-- A text is cut at its first brace where its skeleton is. -/
theorem cut_skeleton (s : Text) :
    ((skeleton s).takeWhile fun c => !isBrace c) = skeleton (s.takeWhile fun c => !isBrace c) ∧
      ((skeleton s).dropWhile fun c => !isBrace c) = skeleton (s.dropWhile fun c => !isBrace c) := by
  induction s with
  | nil => exact ⟨rfl, rfl⟩
  | cons c s ih =>
    obtain ⟨htake, hdrop⟩ := ih
    by_cases hbrace : isBrace c = true
    · rw [skeleton_cons_of_isMark (isMark_of_isBrace hbrace)]
      simp [hbrace, skeleton_cons_of_isMark (isMark_of_isBrace hbrace), skeleton_nil]
    · by_cases hmark : isMark c = true
      · simp [hbrace, skeleton_cons_of_isMark hmark, htake, hdrop]
      · rw [Bool.not_eq_true] at hmark
        simp [hbrace, skeleton_cons_of_not_isMark hmark, htake, hdrop]

theorem comma_mem_skeleton_iff {s : Text} : ',' ∈ skeleton s ↔ ',' ∈ s := by
  rw [skeleton, List.mem_filter]
  exact and_iff_left rfl

/-- The body of a group shows in the skeleton. -/
theorem groupBody?_skeleton (s : Text) :
    groupBody? (skeleton s) = (groupBody? s).map fun x => (skeleton x.1, skeleton x.2) := by
  obtain ⟨htake, hdrop⟩ := cut_skeleton s
  rw [groupBody?, groupBody?, htake, hdrop]
  cases hcut : s.dropWhile fun c => !isBrace c with
  | nil => rfl
  | cons c r =>
    have hbrace : isBrace c = true := by
      have hhead := List.head?_dropWhile_not (fun c => !isBrace c) s
      simpa [hcut] using hhead
    rw [skeleton_cons_of_isMark (isMark_of_isBrace hbrace)]
    split
    · next heq =>
      obtain ⟨rfl, rfl⟩ := List.cons.inj heq
      simp only [List.contains_iff_mem, comma_mem_skeleton_iff]
      split <;> rfl
    · next hclose =>
      split
      · next heq =>
        obtain ⟨rfl, rfl⟩ := List.cons.inj heq
        exact (hclose _ rfl).elim
      · rfl

/-- The group that a round opens shows in the skeleton. -/
theorem Group.first?_skeleton (s : Text) :
    (Group.first? (skeleton s)).map (fun g => (g.before, g.after)) =
      (Group.first? s).map fun g => (skeleton g.before, skeleton g.after) := by
  -- A group that begins later has one character more before it.
  have hlater : ∀ {c : Char} {s : Text}, isMark c = true →
      (Group.first? (skeleton s)).map (fun g => (g.before, g.after)) =
        (Group.first? s).map (fun g => (skeleton g.before, skeleton g.after)) →
      (Group.first? (skeleton s)).map (fun g => (c :: g.before, g.after)) =
        (Group.first? s).map (fun g => (skeleton (c :: g.before), skeleton g.after)) := by
    intro c s hmark ih
    have hcons := congrArg (Option.map fun x : Text × Text => (c :: x.1, x.2)) ih
    simpa [Function.comp_def, skeleton_cons_of_isMark hmark] using hcons
  induction s with
  | nil => rfl
  | cons c s ih =>
    by_cases hmark : isMark c = true
    · rw [skeleton_cons_of_isMark hmark]
      by_cases hc : c = '{'
      · rw [Group.first?, Group.first?, if_pos hc, if_pos hc, groupBody?_skeleton]
        cases groupBody? s with
        | some x => rfl
        | none => simpa [Function.comp_def] using hlater hmark ih
      · rw [first?_cons hc, first?_cons hc, Option.map_map, Option.map_map]
        exact hlater hmark ih
    · rw [Bool.not_eq_true] at hmark
      have hc : c ≠ '{' := by
        rintro rfl
        exact absurd hmark (by decide)
      rw [skeleton_cons_of_not_isMark hmark, ih, first?_cons hc, Option.map_map]
      simp [Function.comp_def, skeleton_cons_of_not_isMark hmark]

/-- Patterns with the same braces and commas have a group both or neither. -/
theorem Group.first?_eq_none_iff_of_skeleton_eq {s t : Text} (h : skeleton s = skeleton t) :
    Group.first? s = none ↔ Group.first? t = none := by
  have hs := Group.first?_skeleton s
  rw [h, Group.first?_skeleton t] at hs
  rw [← Option.map_eq_none_iff, ← hs, Option.map_eq_none_iff]

/-- An opened group leaves no braces and commas of its own. -/
theorem skeleton_of_mem_expandOnce {s t : Text} {g : Group} (hg : Group.first? s = some g)
    (ht : t ∈ expandOnce s) : skeleton t = skeleton g.before ++ skeleton g.after := by
  rcases mem_expandOnce_iff.1 ht with ⟨hnone, -⟩ | ⟨g', hg', option, hoption, rfl⟩
  · cases hnone.symm.trans hg
  · obtain rfl := Option.some.inj (hg.symm.trans hg')
    have hoption : skeleton option = [] := by
      refine List.filter_eq_nil_iff.2 fun c hc => ?_
      obtain ⟨hbrace, hcomma⟩ := Group.not_mark_of_mem_options hg hoption c hc
      simp [isMark, hbrace, hcomma]
    rw [skeleton_append, skeleton_append, hoption, List.append_nil]

/-- What a round makes of patterns with the same braces and commas has the same braces and commas
again. -/
theorem skeleton_eq_of_mem_expandOnce {s t s' t' : Text} (h : skeleton s = skeleton t)
    (hs : s' ∈ expandOnce s) (ht : t' ∈ expandOnce t) : skeleton s' = skeleton t' := by
  cases hg : Group.first? s with
  | none =>
    have hnone := (Group.first?_eq_none_iff_of_skeleton_eq h).1 hg
    rw [expandOnce, hg] at hs
    rw [expandOnce, hnone] at ht
    rw [List.mem_singleton.1 hs, List.mem_singleton.1 ht, h]
  | some g =>
    cases hg' : Group.first? t with
    | none =>
      cases hg.symm.trans ((Group.first?_eq_none_iff_of_skeleton_eq h).2 hg')
    | some g' =>
      have hs' := Group.first?_skeleton s
      rw [h, Group.first?_skeleton t, hg, hg'] at hs'
      obtain ⟨hbefore, hafter⟩ := Prod.mk.inj (Option.some.inj hs')
      rw [skeleton_of_mem_expandOnce hg hs, skeleton_of_mem_expandOnce hg' ht, hbefore, hafter]

/-- Opening a group leaves fewer opening braces. -/
theorem count_lt_of_mem_expandOnce {s t : Text} (hg : Group.first? s ≠ none)
    (ht : t ∈ expandOnce s) : t.count '{' < s.count '{' := by
  rcases mem_expandOnce_iff.1 ht with ⟨hnone, -⟩ | ⟨g, hg, option, hoption, rfl⟩
  · exact absurd hnone hg
  · obtain ⟨body, -, hgroup⟩ := Group.isLeftmostGroup_of_first? hg
    have hnone : option.count '{' = 0 := List.count_eq_zero.2 fun hmem =>
      absurd (Group.not_mark_of_mem_options hg hoption _ hmem).1 (by decide)
    rw [hgroup.eq_append, List.count_append, List.count_append, List.count_append,
      List.count_cons_self, List.count_append, List.count_cons_of_ne (by decide), hnone]
    omega

/-! ## The rounds pattern by pattern -/

/-- Adds patterns to those that a round has made so far; none if they become too many. -/
def addAll : List Text → List Text → Option (List Text)
  | made, [] => some made
  | made, t :: ts =>
    if maxPatterns < (made ++ [t]).length then none else addAll (made ++ [t]) ts

/-- The patterns that a round makes, one pattern after the other, and whether it opened a group;
none if the options of a group are too many. -/
def makeRound : List Text → Bool → List Text → Option (List Text × Bool)
  | made, opened, [] => some (made, opened)
  | made, opened, p :: ps =>
    match Group.first? p with
    | some g => (addAll made g.expand).bind fun made => makeRound made true ps
    | none => makeRound (made ++ [p]) opened ps

/-- One turn of the rounds: the patterns with which they end, or with which they go on. -/
def turn (ps : List Text) : ForInStep (List Text) :=
  if ps.any (·.contains '{') then
    if maxPatterns < ps.length then .done ps
    else
      match makeRound [] false ps with
      | none => .done ps
      | some (qs, true) => .yield qs
      | some (qs, false) => .done qs
  else .done ps

/-- `Ends ps qs`: the rounds that begin with the patterns `ps` end with `qs`. -/
inductive Ends : List Text → List Text → Prop
  | done {ps qs : List Text} (h : turn ps = .done qs) : Ends ps qs
  | yield {ps qs rs : List Text} (h : turn ps = .yield qs) (hqs : Ends qs rs) : Ends ps rs

/-- The rounds end in one way. -/
theorem Ends.unique {ps qs rs : List Text} (hqs : Ends ps qs) (hrs : Ends ps rs) : qs = rs := by
  induction hqs with
  | done h =>
    cases hrs with
    | done h' => exact ForInStep.done.inj (h.symm.trans h')
    | yield h' _ => cases h.symm.trans h'
  | yield h _ ih =>
    cases hrs with
    | done h' => cases h.symm.trans h'
    | yield h' hrs =>
      obtain rfl := ForInStep.yield.inj (h.symm.trans h')
      exact ih hrs

theorem addAll_eq {made : List Text} (hmade : made.length ≤ maxPatterns) (ts : List Text) :
    addAll made ts = if maxPatterns < (made ++ ts).length then none else some (made ++ ts) := by
  induction ts generalizing made with
  | nil => rw [addAll, List.append_nil, if_neg (Nat.not_lt.2 hmade)]
  | cons t ts ih =>
    rw [addAll, List.append_cons made t ts]
    split
    · next hfull =>
      rw [if_pos]
      rw [List.length_append]
      omega
    · next hfits => exact ih (Nat.not_lt.1 hfits)

/-- A round over patterns without groups leaves them as they are. -/
theorem makeRound_of_none {ps : List Text} (h : ∀ p ∈ ps, Group.first? p = none)
    (made : List Text) (opened : Bool) : makeRound made opened ps = some (made ++ ps, opened) := by
  induction ps generalizing made with
  | nil => rw [makeRound, List.append_nil]
  | cons p ps ih =>
    rw [List.forall_mem_cons] at h
    rw [makeRound, h.1, List.append_cons made p ps]
    exact ih h.2 _

/-- A round over patterns that all have groups makes all of their options, or is left. -/
theorem makeRound_of_ne_none {ps : List Text} (h : ∀ p ∈ ps, Group.first? p ≠ none)
    {made : List Text} (hmade : made.length ≤ maxPatterns) (opened : Bool) :
    makeRound made opened ps =
      if maxPatterns < (made ++ ps.flatMap expandOnce).length then none
      else some (made ++ ps.flatMap expandOnce, opened || !ps.isEmpty) := by
  induction ps generalizing made opened with
  | nil => simp [makeRound, Nat.not_lt.2 hmade]
  | cons p ps ih =>
    rw [List.forall_mem_cons] at h
    obtain ⟨g, hg⟩ := Option.ne_none_iff_exists'.1 h.1
    have honce : expandOnce p = g.expand := by rw [expandOnce, hg]
    rw [makeRound, hg]
    dsimp only
    rw [addAll_eq hmade, List.flatMap_cons, honce, ← List.append_assoc]
    split
    · next hfull =>
      rw [if_pos]
      · rfl
      · rw [List.length_append]
        omega
    · next hfits =>
      rw [Option.bind_some, ih h.2 (Nat.not_lt.1 hfits)]
      simp

/-! ## What the rounds keep -/

/-- Some patterns, not too many, with the same braces and commas. -/
structure Uniform (ps : List Text) : Prop where
  ne_nil : ps ≠ []
  length_le : ps.length ≤ maxPatterns
  skeleton_eq : ∀ s ∈ ps, ∀ t ∈ ps, skeleton s = skeleton t

namespace Uniform

variable {ps qs : List Text}

theorem singleton (p : Text) : Uniform [p] where
  ne_nil := List.cons_ne_nil p []
  length_le := by simp [maxPatterns]
  skeleton_eq := by simp

/-- Either each of the patterns has a group or none has. -/
theorem none_or_ne_none (h : Uniform ps) :
    (∀ p ∈ ps, Group.first? p = none) ∨ ∀ p ∈ ps, Group.first? p ≠ none := by
  obtain ⟨q, hq⟩ := List.exists_mem_of_ne_nil _ h.ne_nil
  by_cases hnone : Group.first? q = none
  · exact Or.inl fun p hp =>
      (Group.first?_eq_none_iff_of_skeleton_eq (h.skeleton_eq p hp q hq)).2 hnone
  · exact Or.inr fun p hp hp' =>
      hnone ((Group.first?_eq_none_iff_of_skeleton_eq (h.skeleton_eq p hp q hq)).1 hp')

/-- A round that makes not too many patterns makes uniform ones. -/
theorem flatMap_expandOnce (h : Uniform ps)
    (hfits : (ps.flatMap expandOnce).length ≤ maxPatterns) : Uniform (ps.flatMap expandOnce) where
  ne_nil := by
    obtain ⟨q, hq⟩ := List.exists_mem_of_ne_nil _ h.ne_nil
    obtain ⟨t, ht⟩ := List.exists_mem_of_ne_nil _ (expandOnce_ne_nil q)
    exact List.ne_nil_of_mem (List.mem_flatMap_of_mem hq ht)
  length_le := hfits
  skeleton_eq s hs t ht := by
    obtain ⟨p, hp, hs⟩ := List.mem_flatMap.1 hs
    obtain ⟨q, hq, ht⟩ := List.mem_flatMap.1 ht
    exact skeleton_eq_of_mem_expandOnce (h.skeleton_eq p hp q hq) hs ht

/-- A turn with patterns that have no groups, or too many options, is the last; any other makes a
whole round. -/
theorem turn_cases (h : Uniform ps) :
    ((∀ p ∈ ps, Group.first? p = none) ∧ turn ps = .done ps) ∨
    ((∀ p ∈ ps, Group.first? p ≠ none) ∧ maxPatterns < (ps.flatMap expandOnce).length ∧
      turn ps = .done ps) ∨
    ((∀ p ∈ ps, Group.first? p ≠ none) ∧ (ps.flatMap expandOnce).length ≤ maxPatterns ∧
      turn ps = .yield (ps.flatMap expandOnce)) := by
  rcases h.none_or_ne_none with hnone | hsome
  · refine Or.inl ⟨hnone, ?_⟩
    rw [turn, if_neg (Nat.not_lt.2 h.length_le), makeRound_of_none hnone]
    split <;> rfl
  · -- A pattern with a group has a brace.
    have hbrace : (ps.any fun p => p.contains '{') = true := by
      obtain ⟨q, hq⟩ := List.exists_mem_of_ne_nil _ h.ne_nil
      obtain ⟨g, hg⟩ := Option.ne_none_iff_exists'.1 (hsome q hq)
      refine List.any_eq_true.2 ⟨q, hq, ?_⟩
      rw [Group.first?_eq_some hg]
      simp [Group.toText]
    have hlength : ([] : List Text).length ≤ maxPatterns := Nat.zero_le maxPatterns
    have hround := makeRound_of_ne_none hsome hlength false
    have hne : ps.isEmpty = false := by simp [h.ne_nil]
    rw [List.nil_append, hne] at hround
    refine Or.inr ?_
    rw [turn, if_pos hbrace, if_neg (Nat.not_lt.2 h.length_le), hround]
    by_cases hfull : maxPatterns < (ps.flatMap expandOnce).length
    · exact Or.inl ⟨hsome, hfull, by rw [if_pos hfull]⟩
    · exact Or.inr ⟨hsome, Nat.not_lt.1 hfull, by rw [if_neg hfull]; rfl⟩

/-- The rounds are as many as there are opening braces at most. -/
theorem ends_expandRounds {rounds : Nat} (h : Uniform ps) (hcount : ∀ p ∈ ps, p.count '{' ≤ rounds) :
    Ends ps (expandRounds rounds ps) := by
  induction rounds generalizing ps with
  | zero =>
    -- Without opening braces there are no groups.
    refine .done ?_
    rw [expandRounds, turn, if_neg]
    rw [List.any_eq_true]
    rintro ⟨p, hp, hbrace⟩
    have hmem : '{' ∈ p := by simpa using hbrace
    exact absurd (List.count_pos_iff.2 hmem) (by have := hcount p hp; omega)
  | succ rounds ih =>
    rw [expandRounds, foldr_expandOnceCount]
    rcases h.turn_cases with ⟨hnone, hturn⟩ | ⟨hsome, hfull, hturn⟩ | ⟨hsome, hfits, hturn⟩
    · rw [if_pos (List.all_eq_true.2 fun p hp => by simp [hnone p hp])]
      exact .done hturn
    · rw [if_pos hfull, ite_self]
      exact .done hturn
    · have hopen : ¬(ps.all fun p => (Group.first? p).isNone) = true := by
        obtain ⟨q, hq⟩ := List.exists_mem_of_ne_nil _ h.ne_nil
        intro hall
        exact hsome q hq (by simpa using List.all_eq_true.1 hall q hq)
      rw [if_neg hopen, if_neg (Nat.not_lt.2 hfits)]
      refine .yield hturn (ih (h.flatMap_expandOnce hfits) fun t ht => ?_)
      obtain ⟨s, hs, ht⟩ := List.mem_flatMap.1 ht
      have hlt := count_lt_of_mem_expandOnce (hsome s hs) ht
      have hle := hcount s hs
      omega

/-- What the rounds end with is uniform, and no group can be opened any more. -/
theorem settled_of_ends (h : Uniform ps) (hqs : Ends ps qs) :
    Uniform qs ∧ ((∀ p ∈ qs, Group.first? p = none) ∨
      (∀ p ∈ qs, Group.first? p ≠ none) ∧ maxPatterns < (qs.flatMap expandOnce).length) := by
  induction hqs with
  | done hdone =>
    rcases h.turn_cases with ⟨hnone, hturn⟩ | ⟨hsome, hfull, hturn⟩ | ⟨-, -, hturn⟩
    · obtain rfl := ForInStep.done.inj (hturn.symm.trans hdone)
      exact ⟨h, Or.inl hnone⟩
    · obtain rfl := ForInStep.done.inj (hturn.symm.trans hdone)
      exact ⟨h, Or.inr ⟨hsome, hfull⟩⟩
    · cases hturn.symm.trans hdone
  | yield hyield _ ih =>
    rcases h.turn_cases with ⟨-, hturn⟩ | ⟨-, -, hturn⟩ | ⟨-, hfits, hturn⟩
    · cases hturn.symm.trans hyield
    · cases hturn.symm.trans hyield
    · obtain rfl := ForInStep.yield.inj (hturn.symm.trans hyield)
      exact ih (h.flatMap_expandOnce hfits)

end Uniform

/-- **The rounds end.**  Whatever the braces of a pattern, the rounds over it end with its
alternatives and with nothing else.  There is one at least and a thousand at most, all with the same
braces and commas in the same order; and either none of them has a group left, or each has one and
to open the leftmost in each would make more than a thousand. -/
theorem expandBraces_bounded (p : Text) :
    (∀ ps, Ends [p] ps ↔ ps = expandBraces p) ∧
    1 ≤ (expandBraces p).length ∧ (expandBraces p).length ≤ 1000 ∧
    (∀ s ∈ expandBraces p, ∀ t ∈ expandBraces p, skeleton s = skeleton t) ∧
    ((∀ s ∈ expandBraces p, ∀ before body after, ¬IsGroup s before body after) ∨
      (∀ s ∈ expandBraces p, ∃ before body after, IsLeftmostGroup s before body after ∧
        expandOnce s = (body.splitOn ',').map fun option => before ++ option ++ after) ∧
      1000 < ((expandBraces p).flatMap expandOnce).length) := by
  have hends : Ends [p] (expandBraces p) :=
    (Uniform.singleton p).ends_expandRounds (List.forall_mem_singleton.2 (Nat.le_refl _))
  obtain ⟨huniform, hsettled⟩ := (Uniform.singleton p).settled_of_ends hends
  refine ⟨fun ps => ⟨fun h => h.unique hends, fun h => h ▸ hends⟩,
    List.length_pos_iff.2 huniform.ne_nil, huniform.length_le, huniform.skeleton_eq, ?_⟩
  rcases hsettled with hnone | ⟨hsome, hfull⟩
  · exact Or.inl fun s hs => Group.first?_eq_none_iff.1 (hnone s hs)
  · refine Or.inr ⟨fun s hs => ?_, hfull⟩
    obtain ⟨g, hg⟩ := Option.ne_none_iff_exists'.1 (hsome s hs)
    obtain ⟨body, hoptions, hgroup⟩ := Group.isLeftmostGroup_of_first? hg
    refine ⟨g.before, body, g.after, hgroup, ?_⟩
    rw [expandOnce, hg, ← hoptions]
    rfl

/-- Braces without a comma between them, and braces that have no partner, stay as they are. -/
example : expandBraces ['}', '{', 'a', ',', 'b', '}', '{', 'c', '}', '{'] =
    [['}', 'a', '{', 'c', '}', '{'], ['}', 'b', '{', 'c', '}', '{']] := by
  decide

end Bindery.Glob

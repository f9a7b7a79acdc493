import Bindery.Glob.Pattern
import Mathlib.Tactic.Common

/-!
# How patterns are read

The rules by which a pattern is read, as a relation between its text and its pieces.  The rules
exclude each other, so a pattern has one reading, and `pieces` finds it.

* `ClosedClass` is what a character class looks like after its opening bracket.
* `Reading` is the reading of a pattern: `reading_iff`.
-/

namespace Bindery.Glob

/-! ## Classes -/

/-- A class after its opening bracket: its body, which ends at the next closing bracket, and the
text after that.  A mark in front negates; a closing bracket that is the first member ends
nothing. -/
inductive ClosedClass : Text → Text → Text → Prop
  | plain {c : Char} {members after : Text} (hc : c ≠ '!' ∧ c ≠ '^') (h : ']' ∉ members) :
      ClosedClass (c :: members ++ ']' :: after) (c :: members) after
  | negated {m c : Char} {members after : Text} (hm : m = '!' ∨ m = '^') (h : ']' ∉ members) :
      ClosedClass (m :: c :: members ++ ']' :: after) (m :: c :: members) after

/-- The body of a class without a mark, and the text after its closing bracket. -/
def membersBody? (s : Text) : Option (Text × Text) :=
  match (passOne [']'] s).2.dropWhile (· != ']') with
  | _ :: after => some ((passOne [']'] s).1 ++ (passOne [']'] s).2.takeWhile (· != ']'), after)
  | [] => none

theorem classBody?_eq_map (marks : List Char) (s : Text) :
    classBody? marks s =
      (membersBody? (passOne marks s).2).map fun x => ((passOne marks s).1 ++ x.1, x.2) := by
  rw [classBody?, membersBody?]
  cases hcut : (passOne [']'] (passOne marks s).2).2.dropWhile (· != ']') with
  | nil => rfl
  | cons c after => simp

/-- Nothing before the first occurrence of a character is cut off. -/
theorem cut_append_cons {c : Char} {s t : Text} (hs : c ∉ s) :
    (s ++ c :: t).dropWhile (· != c) = c :: t ∧ (s ++ c :: t).takeWhile (· != c) = s := by
  induction s with
  | nil => simp
  | cons d s ih =>
    have hd : d ≠ c := fun h => hs (h ▸ List.mem_cons_self)
    obtain ⟨hdrop, htake⟩ := ih fun h => hs (List.mem_cons_of_mem d h)
    simp [hd, hdrop, htake]

/-- A text is cut at the first occurrence of a character. -/
theorem eq_append_cons_of_cut {c d : Char} {s t : Text} (h : s.dropWhile (· != c) = d :: t) :
    s = s.takeWhile (· != c) ++ c :: t ∧ c ∉ s.takeWhile (· != c) := by
  have hd : d = c := by
    have hhead := List.head?_dropWhile_not (· != c) s
    simpa [h] using hhead
  refine ⟨?_, fun hmem => ?_⟩
  · conv_lhs => rw [← List.takeWhile_append_dropWhile (p := (· != c)) (l := s), h, hd]
  · have hne := List.all_eq_true.1 (List.all_takeWhile (p := (· != c)) (l := s)) c hmem
    simp at hne

/-- A body without a mark has a member, and no closing bracket after its first one. -/
theorem membersBody?_eq_some_iff {s body after : Text} :
    membersBody? s = some (body, after) ↔
      ∃ c members, body = c :: members ∧ ']' ∉ members ∧ s = c :: members ++ ']' :: after := by
  constructor
  · intro h
    rw [membersBody?] at h
    split at h
    · next d t hcut =>
      obtain ⟨rfl, rfl⟩ := Prod.mk.inj (Option.some.inj h)
      obtain ⟨hs, hmem⟩ := eq_append_cons_of_cut hcut
      cases s with
      | nil => simp [passOne] at hcut
      | cons c r =>
        by_cases hc : c = ']'
        · subst hc
          have hpass : passOne [']'] (']' :: r) = ([']'], r) := rfl
          rw [hpass] at hs hmem ⊢
          exact ⟨']', _, rfl, hmem, congrArg _ hs⟩
        · have hpass : passOne [']'] (c :: r) = ([], c :: r) := by simp [passOne, hc]
          have htake : (c :: r).takeWhile (· != ']') = c :: r.takeWhile (· != ']') := by simp [hc]
          rw [hpass, htake] at hs hmem ⊢
          exact ⟨c, _, rfl, fun hr => hmem (List.mem_cons_of_mem c hr), hs⟩
    · exact absurd h nofun
  · rintro ⟨c, members, rfl, hmem, rfl⟩
    rw [membersBody?]
    by_cases hc : c = ']'
    · subst hc
      have hpass : passOne [']'] (']' :: members ++ ']' :: after) =
        ([']'], members ++ ']' :: after) := rfl
      obtain ⟨hdrop, htake⟩ := cut_append_cons (t := after) hmem
      rw [hpass, hdrop, htake]
      rfl
    · have hpass : passOne [']'] (c :: members ++ ']' :: after) =
        ([], c :: members ++ ']' :: after) := by simp [passOne, hc]
      have hcons : ']' ∉ c :: members := by simp [hmem, Ne.symm hc]
      obtain ⟨hdrop, htake⟩ := cut_append_cons (t := after) hcons
      rw [hpass, hdrop, htake]
      rfl

/-- The body that is cut out is that of the closed class, if there is one. -/
theorem classBody?_eq_some_iff {s body after : Text} :
    classBody? ['!', '^'] s = some (body, after) ↔ ClosedClass s body after := by
  rw [classBody?_eq_map, Option.map_eq_some_iff]
  constructor
  · rintro ⟨⟨b, a⟩, hb, heq⟩
    obtain ⟨c, members, rfl, hmem, hs⟩ := membersBody?_eq_some_iff.1 hb
    obtain ⟨rfl, rfl⟩ := Prod.mk.inj heq
    cases s with
    | nil => exact absurd hs (by simp [passOne])
    | cons m r =>
      by_cases hm : m = '!' ∨ m = '^'
      · have hpass : passOne ['!', '^'] (m :: r) = ([m], r) := by simp [passOne, hm]
        rw [hpass] at hs ⊢
        obtain rfl : r = _ := hs
        exact .negated hm hmem
      · have hpass : passOne ['!', '^'] (m :: r) = ([], m :: r) := by simp [passOne, hm]
        rw [hpass] at hs ⊢
        obtain ⟨rfl, rfl⟩ := List.cons.inj hs
        exact .plain (not_or.1 hm) hmem
  · intro h
    cases h with
    | @plain c members _ hc hmem =>
      have hpass : passOne ['!', '^'] (c :: members ++ ']' :: after) =
        ([], c :: members ++ ']' :: after) := by simp [passOne, hc.1, hc.2]
      rw [hpass]
      exact ⟨_, membersBody?_eq_some_iff.2 ⟨c, members, rfl, hmem, rfl⟩, rfl⟩
    | @negated m c members _ hm hmem =>
      have hpass : passOne ['!', '^'] (m :: c :: members ++ ']' :: after) =
        ([m], c :: members ++ ']' :: after) := by simp [passOne, hm]
      rw [hpass]
      exact ⟨_, membersBody?_eq_some_iff.2 ⟨c, members, rfl, hmem, rfl⟩, rfl⟩

/-- Without a closed class no body is cut out. -/
theorem classBody?_eq_none_iff {s : Text} :
    classBody? ['!', '^'] s = none ↔ ∀ body after, ¬ ClosedClass s body after := by
  rw [Option.eq_none_iff_forall_ne_some]
  simp only [← classBody?_eq_some_iff, Prod.forall]

/-! ## Patterns -/

/-- `Reading start p ps`: the pattern `p` is read as the pieces `ps`; the truth value tells whether
a segment of a path starts where the pattern does. -/
inductive Reading : Bool → Text → List Piece → Prop
  | nil (start : Bool) : Reading start [] []
  /-- `**/` at the start of a segment. -/
  | directories {p ps} (h : Reading true p ps) :
      Reading true ('*' :: '*' :: '/' :: p) (.directories :: ps)
  /-- `**` at the start of the last segment. -/
  | anything : Reading true ['*', '*'] [.anything]
  /-- Any other `**`. -/
  | stars {start p ps} (hp : start = true → p ≠ [] ∧ p.head? ≠ some '/') (h : Reading false p ps) :
      Reading start ('*' :: '*' :: p) (.part :: ps)
  /-- `*` without a second one. -/
  | star {start p ps} (hp : p.head? ≠ some '*') (h : Reading false p ps) :
      Reading start ('*' :: p) (.part :: ps)
  | one {start p ps} (h : Reading false p ps) : Reading start ('?' :: p) (.one :: ps)
  /-- A closed class. -/
  | set {start p body after ps} (hp : ClosedClass p body after) (h : Reading false after ps) :
      Reading start ('[' :: p) (.set body :: ps)
  /-- A bracket that is never closed. -/
  | bracket {start p ps} (hp : ∀ body after, ¬ ClosedClass p body after) (h : Reading false p ps) :
      Reading start ('[' :: p) (.char '[' :: ps)
  /-- A backslash before a character. -/
  | escaped {start c p ps} (h : Reading (c == '/') p ps) :
      Reading start ('\\' :: c :: p) (.char c :: ps)
  /-- Any other character; a backslash only at the end. -/
  | literal {start c p ps} (hc : c ≠ '*' ∧ c ≠ '?' ∧ c ≠ '[') (hback : c = '\\' → p = [])
      (h : Reading (c == '/') p ps) : Reading start (c :: p) (.char c :: ps)

/-- The pieces that are found are a reading. -/
theorem reading_piecesFrom (start : Bool) (p : Text) : Reading start p (piecesFrom start p) := by
  fun_induction piecesFrom start p with
  | case1 start => exact .nil start
  | case2 p ih => exact .directories ih
  | case3 => exact .anything
  | case4 start p hslash hend ih =>
    refine .stars (fun hstart => ⟨hend hstart, fun hhead => ?_⟩) ih
    obtain ⟨r, hr⟩ := List.head?_eq_some_iff.1 hhead
    exact hslash r hstart hr
  | case5 start p _ _ hstar ih =>
    refine .star (fun hhead => ?_) ih
    obtain ⟨r, hr⟩ := List.head?_eq_some_iff.1 hhead
    exact hstar r hr
  | case6 start p ih => exact .one ih
  | case7 start p body after hclass ih => exact .set (classBody?_eq_some_iff.1 hclass) ih
  | case8 start p hclass ih => exact .bracket (classBody?_eq_none_iff.1 hclass) ih
  | case9 start c p ih => exact .escaped ih
  | case10 start c p _ _ _ hstar hone hbracket hback ih =>
    refine .literal ⟨hstar, hone, hbracket⟩ (fun hc => ?_) ih
    cases p with
    | nil => rfl
    | cons d r => exact (hback d r hc rfl).elim

/-- There is no other reading. -/
theorem Reading.eq_piecesFrom {start : Bool} {p : Text} {ps : List Piece}
    (h : Reading start p ps) : ps = piecesFrom start p := by
  induction h with
  | nil start => rw [piecesFrom]
  | directories _ ih => rw [piecesFrom, ih]
  | anything => rw [piecesFrom]
  | stars hp _ ih =>
    rw [piecesFrom, ih]
    · rintro r hstart rfl
      exact (hp hstart).2 rfl
    · rintro hstart rfl
      exact (hp hstart).1 rfl
  | star hp _ ih =>
    rw [piecesFrom, ih]
    all_goals
      intros
      subst_vars
      exact hp rfl
  | one _ ih => rw [piecesFrom, ih]
  | set hclass _ ih =>
    rw [piecesFrom]
    split
    · next hsome =>
      rw [classBody?_eq_some_iff.2 hclass] at hsome
      obtain ⟨rfl, rfl⟩ := Prod.mk.inj (Option.some.inj hsome)
      rw [ih]
    · next hnone => exact (classBody?_eq_none_iff.1 hnone _ _ hclass).elim
  | bracket hclass _ ih =>
    rw [piecesFrom]
    split
    · next hsome => exact (hclass _ _ (classBody?_eq_some_iff.1 hsome)).elim
    · rw [ih]
  | escaped _ ih => rw [piecesFrom, ih]
  | literal hc hback _ ih =>
    rw [piecesFrom, ih]
    all_goals
      intros
      simp_all

/-- **A pattern has one reading, and it is the one that is found.** -/
theorem reading_iff {p : Text} {ps : List Piece} : Reading true p ps ↔ ps = pieces p :=
  ⟨Reading.eq_piecesFrom, fun h => h ▸ reading_piecesFrom true p⟩

end Bindery.Glob

import Bindery.Proofs.Glob.Flaws
import Mathlib

/-!
# Slashes in patterns and paths

Where two stars fill no segment of a pattern, its stars and question marks stay within one name, and
the slashes of a path that it matches are those of the pattern itself.  Only a class may add to
them: a class that is negated, or that has a range around the slash, may hold the slash as well.

* `withoutClasses`: a pattern without its closed classes.
* `Reading.count_slash`, `Accepts.count_slash`: the slashes of a pattern and of a path, by pieces.
* `Reading.not_spanning`: the segments that two stars fill, in the text of the pattern.
* `count_slash_of_isMatch`: the slashes of the paths that a pattern matches.
-/

namespace Bindery.Glob

/-! ## Slashes outside classes -/

/-- A pattern without its closed classes. -/
def withoutClasses : Text → Text
  | [] => []
  | '\\' :: c :: r => '\\' :: c :: withoutClasses r
  | '[' :: r =>
    match _h : classBody? ['!', '^'] r with
    | some (_, after) => withoutClasses after
    | none => '[' :: withoutClasses r
  | c :: r => c :: withoutClasses r
  termination_by s => s.length
  decreasing_by
    all_goals first
      | (simp only [List.length_cons]; omega)
      | (have hl := length_classBody? _h; simp only [List.length_cons]; omega)

theorem withoutClasses_cons {c : Char} {r : Text} (hbracket : c ≠ '[') (hback : c = '\\' → r = []) :
    withoutClasses (c :: r) = c :: withoutClasses r := by
  rw [withoutClasses]
  all_goals
    intros
    simp_all

theorem withoutClasses_escaped (c : Char) (r : Text) :
    withoutClasses ('\\' :: c :: r) = '\\' :: c :: withoutClasses r := by
  rw [withoutClasses]

theorem withoutClasses_set {r body after : Text} (h : ClosedClass r body after) :
    withoutClasses ('[' :: r) = withoutClasses after := by
  rw [withoutClasses]
  split
  · next hsome =>
    rw [classBody?_eq_some_iff.2 h] at hsome
    obtain ⟨-, rfl⟩ := Prod.mk.inj (Option.some.inj hsome)
    rfl
  · next hnone => exact (classBody?_eq_none_iff.1 hnone _ _ h).elim

theorem withoutClasses_bracket {r : Text} (h : ∀ body after, ¬ClosedClass r body after) :
    withoutClasses ('[' :: r) = '[' :: withoutClasses r := by
  rw [withoutClasses]
  split
  · next hsome => exact (h _ _ (classBody?_eq_some_iff.1 hsome)).elim
  · rfl

/-- The slashes outside the closed classes are pieces of their own, but for those after two stars
that are read as any directories. -/
theorem Reading.count_slash {start : Bool} {p : Text} {ps : List Piece} (h : Reading start p ps) :
    (withoutClasses p).count '/' = ps.count (.char '/') + ps.count .directories := by
  induction h with
  | nil => rw [withoutClasses]; rfl
  | directories _ ih =>
    rw [withoutClasses_cons (c := '*') (by decide) nofun,
      withoutClasses_cons (c := '*') (by decide) nofun,
      withoutClasses_cons (c := '/') (by decide) nofun]
    simp only [List.count_cons, ih, beq_iff_eq, Char.reduceEq, reduceCtorEq, if_true, if_false]
    omega
  | anything => simp [withoutClasses]
  | stars _ _ ih =>
    rw [withoutClasses_cons (c := '*') (by decide) nofun,
      withoutClasses_cons (c := '*') (by decide) nofun]
    simpa using ih
  | star _ _ ih =>
    rw [withoutClasses_cons (c := '*') (by decide) nofun]
    simpa using ih
  | one _ ih =>
    rw [withoutClasses_cons (c := '?') (by decide) nofun]
    simpa using ih
  | set hclass _ ih =>
    rw [withoutClasses_set hclass]
    simpa using ih
  | bracket hclass _ ih =>
    rw [withoutClasses_bracket hclass]
    simpa using ih
  | escaped _ ih =>
    rw [withoutClasses_escaped]
    simp only [List.count_cons, ih, beq_iff_eq, Char.reduceEq, reduceCtorEq, Piece.char.injEq,
      if_false]
    omega
  | literal hc hback _ ih =>
    rw [withoutClasses_cons hc.2.2 hback]
    simp only [List.count_cons, ih, beq_iff_eq, reduceCtorEq, Piece.char.injEq, if_false]
    omega

/-! ## Slashes of paths -/

/-- Whether a piece is a class that holds the slash. -/
def Piece.holdsSlash : Piece → Bool
  | .set body => (bodySet body).holds '/'
  | _ => false

/-- What a piece spans has the slash of the piece, and one more at most if a class holds it. -/
theorem Piece.Spans.count_slash {q : Piece} {u : Text} (h : q.Spans u) :
    (if q = .char '/' then 1 else 0) ≤ u.count '/' ∧
      (q ≠ .directories → q ≠ .anything →
        u.count '/' ≤ (if q = .char '/' then 1 else 0) + if q.holdsSlash then 1 else 0) := by
  cases q with
  | directories => exact ⟨by simp, fun hne => (hne rfl).elim⟩
  | anything => exact ⟨by simp, fun _ hne => (hne rfl).elim⟩
  | part =>
    have hu : u.count '/' = 0 := List.count_eq_zero.2 h
    simp [hu]
  | one =>
    obtain ⟨c, hc, rfl⟩ := h
    simp [hc]
  | set body =>
    obtain ⟨c, hc, rfl⟩ := h
    by_cases hslash : c = '/'
    · subst hslash
      simp [holdsSlash, hc]
    · simp [hslash]
  | char c =>
    obtain rfl := h
    by_cases hslash : c = '/'
    · simp [hslash]
    · simp [hslash]

theorem Accepts.count_slash_ge {ps : List Piece} {path : Text} (h : Accepts ps path) :
    ps.count (.char '/') ≤ path.count '/' := by
  induction ps generalizing path with
  | nil => exact Nat.zero_le _
  | cons q ps ih =>
    obtain ⟨u, v, rfl, hu, hv⟩ := accepts_cons_iff.1 h
    have hq := hu.count_slash.1
    have hps := ih hv
    rw [List.count_append, List.count_cons]
    simp only [beq_iff_eq]
    omega

theorem Accepts.count_slash_le {ps : List Piece} {path : Text} (h : Accepts ps path)
    (hdirectories : .directories ∉ ps) (hanything : .anything ∉ ps) :
    path.count '/' ≤ ps.count (.char '/') + ps.countP Piece.holdsSlash := by
  induction ps generalizing path with
  | nil =>
    cases h
    exact Nat.le_refl _
  | cons q ps ih =>
    obtain ⟨u, v, rfl, hu, hv⟩ := accepts_cons_iff.1 h
    rw [List.mem_cons, not_or] at hdirectories hanything
    have hq := hu.count_slash.2 (Ne.symm hdirectories.1) (Ne.symm hanything.1)
    have hps := ih hv hdirectories.2 hanything.2
    rw [List.count_append, List.count_cons, List.countP_cons]
    simp only [beq_iff_eq]
    omega

/-- Where a class holds the slash, some path has a slash in the place of the class. -/
theorem Accepts.exists_count_slash_gt {ps : List Piece} {path : Text} (h : Accepts ps path)
    {body : Text} (hbody : .set body ∈ ps) (hslash : (bodySet body).holds '/' = true) :
    ∃ other, Accepts ps other ∧ ps.count (.char '/') < other.count '/' := by
  induction ps generalizing path with
  | nil => exact absurd hbody List.not_mem_nil
  | cons q ps ih =>
    obtain ⟨u, v, rfl, hu, hv⟩ := accepts_cons_iff.1 h
    rcases List.mem_cons.1 hbody with rfl | hbody
    · refine ⟨'/' :: v, .set hslash hv, ?_⟩
      have hle := hv.count_slash_ge
      rw [List.count_cons_self, List.count_cons_of_ne (by simp)]
      omega
    · obtain ⟨other, hother, hlt⟩ := ih hv hbody
      refine ⟨u ++ other, accepts_cons_iff.2 ⟨u, other, rfl, hu, hother⟩, ?_⟩
      have hq := hu.count_slash.1
      rw [List.count_append, List.count_cons]
      simp only [beq_iff_eq]
      omega

/-! ## Segments of two stars -/

/-- Two stars that are read as any directories, or as anything, fill a segment: there are slashes
around them, if not those of the pattern then those around it. -/
theorem Reading.isInfix_of_spanning {start : Bool} {p : Text} {ps : List Piece}
    (h : Reading start p ps) (hmem : .directories ∈ ps ∨ .anything ∈ ps) {front : Text}
    (hfront : start = true → ∃ f, '/' :: front = f ++ ['/']) :
    ['/', '*', '*', '/'] <:+: '/' :: (front ++ p) ++ ['/'] := by
  induction h generalizing front with
  | nil => simp at hmem
  | @directories p ps _ _ =>
    obtain ⟨f, hf⟩ := hfront rfl
    refine ⟨f, p ++ ['/'], ?_⟩
    rw [← List.cons_append, hf]
    simp
  | anything =>
    obtain ⟨f, hf⟩ := hfront rfl
    refine ⟨f, [], ?_⟩
    rw [← List.cons_append, hf]
    simp
  | @stars start p ps _ _ ih =>
    have hin := @ih (by simpa using hmem) (front ++ ['*', '*']) nofun
    simpa using hin
  | @star start p ps _ _ ih =>
    have hin := @ih (by simpa using hmem) (front ++ ['*']) nofun
    simpa using hin
  | @one start p ps _ ih =>
    have hin := @ih (by simpa using hmem) (front ++ ['?']) nofun
    simpa using hin
  | @set start p body after ps hclass _ ih =>
    have hin := @ih (by simpa using hmem) (front ++ '[' :: body ++ [']']) nofun
    rw [classBody?_eq_some (classBody?_eq_some_iff.2 hclass)]
    simpa using hin
  | @bracket start p ps _ _ ih =>
    have hin := @ih (by simpa using hmem) (front ++ ['[']) nofun
    simpa using hin
  | @escaped start c p ps _ ih =>
    have hin := @ih (by simpa using hmem) (front ++ ['\\', c]) fun hc => by
      obtain rfl := beq_iff_eq.1 hc
      exact ⟨'/' :: (front ++ ['\\']), by simp⟩
    simpa using hin
  | @literal start c p ps _ _ _ ih =>
    have hin := @ih (by simpa using hmem) (front ++ [c]) fun hc => by
      obtain rfl := beq_iff_eq.1 hc
      exact ⟨'/' :: front, by simp⟩
    simpa using hin

/-- Where no segment of a pattern is `**`, nothing is read as any directories or as anything. -/
theorem Reading.not_spanning {p : Text} {ps : List Piece} (h : Reading true p ps)
    (hsegments : ['*', '*'] ∉ p.splitOn '/') : .directories ∉ ps ∧ .anything ∉ ps := by
  rw [← not_or]
  intro hmem
  refine hsegments (Text.mem_splitOn_iff.2 ⟨by decide, ?_⟩)
  have hstart : ∃ f, ['/'] = f ++ ['/'] := ⟨[], rfl⟩
  exact h.isInfix_of_spanning hmem fun _ => hstart

/-! ## Slashes of the paths that a pattern matches -/

/-- **Slashes stay.**  Where two stars fill no segment of a pattern, a path that it matches has the
slashes that the pattern has outside its closed classes, and at most one more for each class that
holds the slash.  So it has exactly those of the pattern where no class holds the slash, and only
there, if the pattern matches anything at all. -/
theorem count_slash_of_isMatch {p : Text} {ps : List Piece} (hp : Reading true p ps)
    (hspan : .directories ∉ ps ∧ .anything ∉ ps) {r : Regex}
    (hr : Regex.read (translate p) = .ok r) :
    (∀ path, r.isMatch path = true →
      (withoutClasses p).count '/' ≤ path.count '/' ∧
        path.count '/' ≤ (withoutClasses p).count '/' + ps.countP Piece.holdsSlash) ∧
    ((∀ path, r.isMatch path = true → path.count '/' = (withoutClasses p).count '/') ↔
      (∀ body, .set body ∈ ps → (bodySet body).holds '/' = false) ∨
        ∀ path, r.isMatch path = false) := by
  have hmatch : ∀ path, r.isMatch path = true ↔ Accepts ps path := by
    intro path
    rw [isMatch_iff_of_read hr, ← reading_iff.1 hp]
  have hcount : (withoutClasses p).count '/' = ps.count (.char '/') := by
    rw [hp.count_slash, List.count_eq_zero.2 hspan.1, Nat.add_zero]
  have hbounds : ∀ path, r.isMatch path = true →
      (withoutClasses p).count '/' ≤ path.count '/' ∧
        path.count '/' ≤ (withoutClasses p).count '/' + ps.countP Piece.holdsSlash := by
    intro path hpath
    have haccepts := (hmatch path).1 hpath
    rw [hcount]
    exact ⟨haccepts.count_slash_ge, haccepts.count_slash_le hspan.1 hspan.2⟩
  refine ⟨hbounds, ?_, ?_⟩
  · intro hexact
    by_cases hany : ∃ path, r.isMatch path = true
    · obtain ⟨path, hpath⟩ := hany
      refine Or.inl fun body hbody => ?_
      by_contra hslash
      rw [Bool.not_eq_false] at hslash
      obtain ⟨other, hother, hlt⟩ := ((hmatch path).1 hpath).exists_count_slash_gt hbody hslash
      have heq := hexact other ((hmatch other).2 hother)
      rw [hcount] at heq
      omega
    · exact Or.inr fun path => Bool.eq_false_iff.2 fun hpath => hany ⟨path, hpath⟩
  · rintro (hclasses | hnone) path hpath
    · have hzero : ps.countP Piece.holdsSlash = 0 := by
        refine List.countP_eq_zero.2 fun q hq => ?_
        cases q with
        | set body => simp [Piece.holdsSlash, hclasses body hq]
        | _ => nofun
      have hle := hbounds path hpath
      omega
    · cases (hnone path).symm.trans hpath

/-- Stars that fill no segment, a class without the slash, an escaped slash and a bracket that is
never closed. -/
def slashPattern : Text := "src/a**[!0-9/]\\/?[x".toList

theorem pieces_slashPattern : pieces slashPattern =
    [.char 's', .char 'r', .char 'c', .char '/', .char 'a', .part, .set "!0-9/".toList, .char '/',
      .one, .char '[', .char 'x'] := by
  cbv

theorem count_slash_slashPattern :
    ['*', '*'] ∉ slashPattern.splitOn '/' ∧
      ∃ r, Regex.read (translate slashPattern) = .ok r ∧
        r.isMatch "src/abcd/q[x".toList = true ∧ (withoutClasses slashPattern).count '/' = 2 ∧
        ∀ path, r.isMatch path = true → path.count '/' = 2 := by
  have hsegments : ['*', '*'] ∉ slashPattern.splitOn '/' := by decide
  have hreading : Reading true slashPattern (pieces slashPattern) := reading_iff.2 rfl
  have hclasses : ∀ body, .set body ∈ pieces slashPattern →
      (bodySet body).holds '/' = false := by
    intro body hbody
    rw [pieces_slashPattern] at hbody
    obtain rfl : body = "!0-9/".toList := by simpa using hbody
    decide
  have haccepts : Accepts (pieces slashPattern) "src/abcd/q[x".toList := by
    rw [pieces_slashPattern]
    exact .char 's' <| .char 'r' <| .char 'c' <| .char '/' <| .char 'a' <|
      .part (t := ['b', 'c']) (by decide) <| .set (by decide) <| .char '/' <| .one (by decide) <|
      .char '[' <| .char 'x' .nil
  have hcount : (withoutClasses slashPattern).count '/' = 2 := by cbv
  obtain ⟨r, hr⟩ := exists_read_translate (p := slashPattern) (by cbv)
  have hexact := (count_slash_of_isMatch hreading (hreading.not_spanning hsegments) hr).2.2
    (Or.inl hclasses)
  rw [hcount] at hexact
  exact ⟨hsegments, r, hr, (isMatch_iff_of_read hr _).2 haccepts, hcount, hexact⟩

/-- A negated class matches the slash, though the pattern has none. -/
theorem count_slash_negatedClass :
    ['*', '*'] ∉ "file[!0-9].txt".toList.splitOn '/' ∧
      ∃ r, Regex.read (translate "file[!0-9].txt".toList) = .ok r ∧
        r.isMatch "file/.txt".toList = true ∧
        "file/.txt".toList.count '/' ≠ (withoutClasses "file[!0-9].txt".toList).count '/' := by
  have haccepts : Accepts (pieces "file[!0-9].txt".toList) "file/.txt".toList := by
    have hpieces : pieces "file[!0-9].txt".toList =
        [.char 'f', .char 'i', .char 'l', .char 'e', .set "!0-9".toList, .char '.', .char 't',
          .char 'x', .char 't'] := by
      cbv
    rw [hpieces]
    exact .char 'f' <| .char 'i' <| .char 'l' <| .char 'e' <| .set (by decide) <| .char '.' <|
      .char 't' <| .char 'x' <| .char 't' .nil
  have hcount : (withoutClasses "file[!0-9].txt".toList).count '/' = 0 := by cbv
  obtain ⟨r, hr⟩ := exists_read_translate (p := "file[!0-9].txt".toList) (by cbv)
  refine ⟨by decide, r, hr, (isMatch_iff_of_read hr _).2 haccepts, ?_⟩
  rw [hcount]
  decide

end Bindery.Glob

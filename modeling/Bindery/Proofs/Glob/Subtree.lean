import Bindery.Proofs.Glob.Flaws

/-!
# Patterns for whole directories

A pattern that ends in `/**` stands for everything below the directories that the rest of it stands
for, whatever the rest ends in: stars, classes, brackets that are never closed.  Only a backslash at
the end of the rest, which escapes nothing there, escapes the slash of the whole.

* `hasLooseEscape`: whether a pattern ends in a backslash that escapes nothing.
* `Reading.accepts_below`, `accepts_below`: what lies below a directory that a pattern accepts.
-/

namespace Bindery.Glob

/-- Whether a pattern ends in a backslash that escapes nothing. -/
def hasLooseEscape : Text → Bool
  | [] => false
  | ['\\'] => true
  | '\\' :: _ :: r => hasLooseEscape r
  | '[' :: r =>
    match _h : classBody? ['!', '^'] r with
    | some (_, after) => hasLooseEscape after
    | none => hasLooseEscape r
  | _ :: r => hasLooseEscape r
  termination_by s => s.length
  decreasing_by
    all_goals first
      | (simp only [List.length_cons]; omega)
      | (have hl := length_classBody? _h; simp only [List.length_cons]; omega)

theorem hasLooseEscape_cons {c : Char} (hback : c ≠ '\\') (hbracket : c ≠ '[') (r : Text) :
    hasLooseEscape (c :: r) = hasLooseEscape r := by
  rw [hasLooseEscape]
  all_goals
    intros
    simp_all

theorem hasLooseEscape_escaped (c : Char) (r : Text) :
    hasLooseEscape ('\\' :: c :: r) = hasLooseEscape r := by
  rw [hasLooseEscape]

theorem hasLooseEscape_set {r body after : Text} (h : ClosedClass r body after) :
    hasLooseEscape ('[' :: r) = hasLooseEscape after := by
  rw [hasLooseEscape]
  split
  · next hsome =>
    rw [classBody?_eq_some_iff.2 h] at hsome
    obtain ⟨-, rfl⟩ := Prod.mk.inj (Option.some.inj hsome)
    rfl
  · next hnone => exact (classBody?_eq_none_iff.1 hnone _ _ h).elim

theorem hasLooseEscape_bracket {r : Text} (h : ∀ body after, ¬ClosedClass r body after) :
    hasLooseEscape ('[' :: r) = hasLooseEscape r := by
  rw [hasLooseEscape]
  split
  · next hsome => exact (h _ _ (classBody?_eq_some_iff.1 hsome)).elim
  · rfl

/-- **Below a directory.** What lies below a directory that a pattern accepts is accepted by the
pattern with `/**` behind it, unless it ends in a backslash that escapes nothing. -/
theorem Reading.accepts_below {start : Bool} {p : Text} {ps : List Piece} (h : Reading start p ps)
    (hloose : hasLooseEscape p = false) {d : Text} (hd : Accepts ps d) (t : Text) :
    ∃ qs, Reading start (p ++ "/**".toList) qs ∧ Accepts qs (d ++ '/' :: t) := by
  have hbracket : ']' ∉ "/**".toList := by decide
  have hanything : Accepts [.anything] t := by
    have haccepts := Accepts.anything t .nil
    rwa [List.append_nil] at haccepts
  induction h generalizing d with
  | nil start =>
    cases hd
    exact ⟨[.char '/', .anything], .literal (by decide) nofun .anything, .char '/' hanything⟩
  | @directories p ps _ ih =>
    rw [hasLooseEscape_cons (by decide) (by decide), hasLooseEscape_cons (by decide) (by decide),
      hasLooseEscape_cons (by decide) (by decide)] at hloose
    cases hd with
    | noDirectories hd =>
      obtain ⟨qs, hqs, haccepts⟩ := ih hloose hd
      exact ⟨_, .directories hqs, .noDirectories haccepts⟩
    | directories u hd =>
      obtain ⟨qs, hqs, haccepts⟩ := ih hloose hd
      refine ⟨_, .directories hqs, ?_⟩
      rw [List.append_assoc, List.cons_append]
      exact .directories u haccepts
  | anything =>
    -- In front of a slash the two stars are any directories, and the last of them is `d`.
    exact ⟨[.directories, .anything], .directories .anything, .directories d hanything⟩
  | @stars start p ps hp _ ih =>
    rw [hasLooseEscape_cons (by decide) (by decide), hasLooseEscape_cons (by decide) (by decide)]
      at hloose
    cases hd with
    | @part _ _ u hu hd =>
      obtain ⟨qs, hqs, haccepts⟩ := ih hloose hd
      refine ⟨_, .stars (fun hstart => ?_) hqs, ?_⟩
      · obtain ⟨hne, hslash⟩ := hp hstart
        obtain ⟨c, r, rfl⟩ := List.exists_cons_of_ne_nil hne
        exact ⟨nofun, hslash⟩
      · rw [List.append_assoc]
        exact .part hu haccepts
  | @star start p ps hp _ ih =>
    rw [hasLooseEscape_cons (by decide) (by decide)] at hloose
    cases hd with
    | @part _ _ u hu hd =>
      obtain ⟨qs, hqs, haccepts⟩ := ih hloose hd
      refine ⟨_, .star ?_ hqs, ?_⟩
      · cases p with
        | nil => decide
        | cons c r => exact hp
      · rw [List.append_assoc]
        exact .part hu haccepts
  | one _ ih =>
    rw [hasLooseEscape_cons (by decide) (by decide)] at hloose
    cases hd with
    | one hc hd =>
      obtain ⟨qs, hqs, haccepts⟩ := ih hloose hd
      exact ⟨_, .one hqs, .one hc haccepts⟩
  | @set start p body after ps hp _ ih =>
    rw [hasLooseEscape_set hp] at hloose
    cases hd with
    | set hc hd =>
      obtain ⟨qs, hqs, haccepts⟩ := ih hloose hd
      exact ⟨_, .set ((closedClass_append_iff hbracket).2 ⟨after, hp, rfl⟩) hqs, .set hc haccepts⟩
  | bracket hp _ ih =>
    rw [hasLooseEscape_bracket hp] at hloose
    cases hd with
    | char _ hd =>
      obtain ⟨qs, hqs, haccepts⟩ := ih hloose hd
      refine ⟨_, .bracket (fun body after hclass => ?_) hqs, .char '[' haccepts⟩
      obtain ⟨w, hclosed, -⟩ := (closedClass_append_iff hbracket).1 hclass
      exact hp body w hclosed
  | escaped _ ih =>
    rw [hasLooseEscape_escaped] at hloose
    cases hd with
    | char _ hd =>
      obtain ⟨qs, hqs, haccepts⟩ := ih hloose hd
      exact ⟨_, .escaped hqs, .char _ haccepts⟩
  | @literal start c p ps hc hback _ ih =>
    have hne : c ≠ '\\' := by
      rintro rfl
      rw [hback rfl] at hloose
      exact absurd hloose (by simp [hasLooseEscape])
    rw [hasLooseEscape_cons hne hc.2.2] at hloose
    cases hd with
    | char _ hd =>
      obtain ⟨qs, hqs, haccepts⟩ := ih hloose hd
      exact ⟨_, .literal hc (fun h => (hne h).elim) hqs, .char c haccepts⟩

/-- What lies below a directory that an alternative accepts is accepted by the same alternative of
the pattern for everything below. -/
theorem accepts_below {p : Text} (hloose : hasLooseEscape p = false) {d : Text}
    (hd : Accepts (pieces p) d) (t : Text) :
    Accepts (pieces (p ++ "/**".toList)) (d ++ '/' :: t) := by
  obtain ⟨qs, hqs, haccepts⟩ := (reading_iff.2 rfl).accepts_below hloose hd t
  rwa [← reading_iff.1 hqs]

end Bindery.Glob

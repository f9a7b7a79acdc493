import Bindery.Text.Basic

/-!
# Character classes in patterns

A class is what stands between an opening bracket and the next closing one.  A mark that negates
may come first, and a closing bracket in front of the first member is a member itself.  A bracket
that is never closed begins no class.

* `Glob.classBody?` cuts out the body of a class and loses nothing: `Glob.classBody?_eq_some`.
-/

namespace Bindery.Glob

/-- Passes one character of a list if it comes next. -/
def passOne (cs : List Char) : Text → Text × Text
  | c :: r => if cs.contains c then ([c], r) else ([], c :: r)
  | [] => ([], [])

theorem passOne_append (cs : List Char) (s : Text) : (passOne cs s).1 ++ (passOne cs s).2 = s := by
  unfold passOne
  split
  · split <;> rfl
  · rfl

/-- The body of the class that follows an opening bracket, and the text after its closing bracket;
`marks` are the characters that negate. -/
def classBody? (marks : List Char) (s : Text) : Option (Text × Text) :=
  let negation := passOne marks s
  let bracket := passOne [']'] negation.2
  match bracket.2.dropWhile (· != ']') with
  | _ :: after => some (negation.1 ++ bracket.1 ++ bracket.2.takeWhile (· != ']'), after)
  | [] => none

/-- A class that is found stands in the text as it is written. -/
theorem classBody?_eq_some {marks : List Char} {s body after : Text}
    (h : classBody? marks s = some (body, after)) : s = body ++ ']' :: after := by
  simp only [classBody?] at h
  split at h
  · next c a hd =>
    obtain ⟨rfl, rfl⟩ := Prod.mk.inj (Option.some.inj h)
    have h₁ := passOne_append marks s
    have h₂ := passOne_append [']'] (passOne marks s).2
    have h₃ := List.takeWhile_append_dropWhile (p := (· != ']'))
      (l := (passOne [']'] (passOne marks s).2).2)
    have hc : c = ']' := by
      have := List.head?_dropWhile_not (· != ']') (passOne [']'] (passOne marks s).2).2
      simpa [hd] using this
    rw [hd, hc] at h₃
    rw [List.append_assoc, List.append_assoc, h₃, h₂, h₁]
  · simp at h

theorem length_classBody? {marks : List Char} {s body after : Text}
    (h : classBody? marks s = some (body, after)) : after.length < s.length := by
  rw [classBody?_eq_some h]
  simp only [List.length_append, List.length_cons]
  omega

end Bindery.Glob

import Bindery.Proofs.Text.Cut
import Bindery.Text.Blank
import Bindery.Text.Line

/-!
# Lines of a text

A text that is written line by line is cut into the same lines, and a line without blanks at its
ends is left as it is when it is trimmed.

* `IsLine`: lines with text and without blanks at their ends.
* `lines_flatMap`: what is written is read again.
* `lines_append_newline`: the lines of two texts with a line feed between them.
-/

namespace Bindery.Text

/-! ## Trimming -/

theorem trimLeft_of_head? {s : Text} (hs : ∀ c, s.head? = some c → isBlank c = false) :
    trimLeft s = s := by
  cases s with
  | nil => rfl
  | cons c s =>
    rw [trimLeft, List.dropWhile_cons, hs c rfl]
    rfl

theorem trimRight_of_getLast? {s : Text} (hs : ∀ c, s.getLast? = some c → isBlank c = false) :
    trimRight s = s := by
  have hreverse : s.reverse.dropWhile isBlank = s.reverse :=
    trimLeft_of_head? fun c hc => hs c (by rwa [List.head?_reverse] at hc)
  rw [trimRight, dropRightWhile, hreverse, List.reverse_reverse]

/-- A text is trimmed where neither its first nor its last character is blank. -/
theorem trim_eq_self {s : Text} (hfirst : ∀ c, s.head? = some c → isBlank c = false)
    (hlast : ∀ c, s.getLast? = some c → isBlank c = false) : trim s = s := by
  rw [trim, trimLeft_of_head? hfirst, trimRight_of_getLast? hlast]

/-- Blanks are trimmed only from what stands before a text that neither begins nor ends with one. -/
theorem trim_append {rest : Text} (hne : rest ≠ [])
    (hfirst : ∀ c, rest.head? = some c → isBlank c = false)
    (hlast : ∀ c, rest.getLast? = some c → isBlank c = false) (s : Text) :
    trim (s ++ rest) = trimLeft s ++ rest := by
  have hleft : trimLeft (s ++ rest) = trimLeft s ++ rest := by
    rw [trimLeft, List.dropWhile_append, ← trimLeft, ← trimLeft, trimLeft_of_head? hfirst]
    split
    · next hs => rw [List.isEmpty_iff.1 hs, List.nil_append]
    · rfl
  rw [trim, hleft]
  refine trimRight_of_getLast? fun c hc => hlast c ?_
  rwa [List.getLast?_append_of_ne_nil _ hne] at hc

theorem trim_cons_of_isBlank {c : Char} (hc : isBlank c = true) (s : Text) :
    trim (c :: s) = trim s := by
  rw [trim, trim, trimLeft, trimLeft, List.dropWhile_cons, if_pos hc]

/-- Trimming a text leaves a part of it. -/
theorem isInfix_trim (s : Text) : trim s <:+: s :=
  (isPrefix_dropRightWhile _ _).isInfix.trans (List.dropWhile_suffix _).isInfix

/-- What trimming does not change, trimming at one end does not change. -/
theorem trimLeft_of_trim {s : Text} (hs : trim s = s) : trimLeft s = s := by
  have hsuffix : trimLeft s <:+ s := List.dropWhile_suffix _
  refine hsuffix.eq_of_length_le ?_
  have hlength := (isPrefix_dropRightWhile isBlank (trimLeft s)).length_le
  rwa [← trimRight, ← trim, hs] at hlength

theorem trimRight_of_trim {s : Text} (hs : trim s = s) : trimRight s = s := by
  rw [trim, trimLeft_of_trim hs] at hs
  exact hs

theorem isBlank_of_trimLeft {s : Text} (hs : trimLeft s = s) {c : Char} (hc : s.head? = some c) :
    isBlank c = false := by
  have hnot := List.head?_dropWhile_not isBlank s
  rw [← trimLeft, hs, hc] at hnot
  exact hnot

/-- A text that trimming does not change does not begin with a blank, and does not end with one. -/
theorem isBlank_of_head? {s : Text} (hs : trim s = s) {c : Char} (hc : s.head? = some c) :
    isBlank c = false :=
  isBlank_of_trimLeft (trimLeft_of_trim hs) hc

theorem isBlank_of_getLast? {s : Text} (hs : trim s = s) {c : Char} (hc : s.getLast? = some c) :
    isBlank c = false := by
  have hright := congrArg List.reverse (trimRight_of_trim hs)
  rw [trimRight, dropRightWhile, List.reverse_reverse] at hright
  exact isBlank_of_trimLeft hright (by rwa [List.head?_reverse])

/-! ## Lines with text -/

/-- A line with text and without blanks at its ends. -/
structure IsLine (s : Text) : Prop where
  ne_nil : s ≠ []
  trimmed : trim s = s
  no_break : ∀ c ∈ s, isLineBreak c = false

theorem isLine_iff {s : Text} :
    IsLine s ↔ s ≠ [] ∧ trim s = s ∧ ∀ c ∈ s, isLineBreak c = false :=
  ⟨fun ⟨hne, htrim, hbreak⟩ => ⟨hne, htrim, hbreak⟩,
    fun ⟨hne, htrim, hbreak⟩ => ⟨hne, htrim, hbreak⟩⟩

-- The characters of the line are looked through, not all that there are.
instance (s : Text) : Decidable (IsLine s) :=
  letI := List.decidableBAll (fun c => isLineBreak c = false) s
  decidable_of_iff _ isLine_iff.symm

/-- What trimming leaves of a text without line breaks is a line, unless it leaves nothing. -/
theorem isLine_trim {s : Text} (hne : trim s ≠ []) (hbreak : ∀ c ∈ s, isLineBreak c = false) :
    IsLine (trim s) :=
  ⟨hne, trim_trim s, fun c hc => hbreak c ((isInfix_trim s).mem hc)⟩

/-- Blanks behind a line are trimmed away. -/
theorem IsLine.trim_concat {s : Text} (hs : IsLine s) {c : Char} (hc : isBlank c = true) :
    trim (s ++ [c]) = s := by
  have hleft : trimLeft (s ++ [c]) = s ++ [c] := by
    refine trimLeft_of_head? fun d hd => isBlank_of_head? hs.trimmed ?_
    rwa [List.head?_append_of_ne_nil _ hs.ne_nil] at hd
  rw [trim, hleft, trimRight, dropRightWhile, List.reverse_append, List.reverse_singleton,
    List.singleton_append, List.dropWhile_cons, if_pos hc]
  exact trimRight_of_trim hs.trimmed

/-! ## Cutting into lines -/

theorem lines_cons_of_isLineBreak {c : Char} (hc : isLineBreak c = true) {r : Text}
    (hr : c = '\r' → r.head? ≠ some '\n') : lines (c :: r) = [] :: lines r := by
  rw [lines.eq_def]
  split
  · next h => cases h
  · next h =>
    obtain ⟨rfl, rfl⟩ := List.cons.inj h
    exact absurd rfl (hr rfl)
  · next h =>
    obtain ⟨rfl, rfl⟩ := List.cons.inj h
    rw [if_pos hc]

theorem lines_cons_of_not_isLineBreak {c : Char} (hc : isLineBreak c = false) (r : Text) :
    lines (c :: r) = match lines r with
      | [] => [[c]]
      | line :: rest => (c :: line) :: rest := by
  rw [lines]
  · exact if_neg (by simp [hc])
  · rintro r rfl
    exact absurd hc (by decide)

theorem lines_eq_nil_iff {s : Text} : lines s = [] ↔ s = [] := by
  refine ⟨fun h => ?_, fun h => h ▸ rfl⟩
  fun_induction lines s with grind

theorem lines_append_cons {line : Text} (hline : ∀ c ∈ line, isLineBreak c = false) (rest : Text) :
    lines (line ++ '\n' :: rest) = line :: lines rest := by
  induction line with
  | nil => exact lines_cons_of_isLineBreak (by decide) nofun
  | cons c line ih =>
    rw [List.forall_mem_cons] at hline
    rw [List.cons_append, lines_cons_of_not_isLineBreak hline.1, ih hline.2]

/-- A text that is written line by line is cut into these lines. -/
theorem lines_flatMap {ls : List Text} (hls : ∀ line ∈ ls, ∀ c ∈ line, isLineBreak c = false) :
    lines (ls.flatMap (· ++ ['\n'])) = ls := by
  induction ls with
  | nil => rfl
  | cons line ls ih =>
    rw [List.forall_mem_cons] at hls
    rw [List.flatMap_cons, List.append_assoc, List.singleton_append, lines_append_cons hls.1,
      ih hls.2]

/-- A text without line breaks is one line. -/
theorem lines_eq_singleton {s : Text} (hne : s ≠ []) (hs : ∀ c ∈ s, isLineBreak c = false) :
    lines s = [s] := by
  induction s with
  | nil => exact (hne rfl).elim
  | cons c s ih =>
    rw [List.forall_mem_cons] at hs
    rw [lines_cons_of_not_isLineBreak hs.1]
    cases s with
    | nil => rfl
    | cons d s => rw [ih (List.cons_ne_nil d s) hs.2]

/-- Lines with text that are joined by line feeds are cut again. -/
theorem lines_intercalate {ls : List Text}
    (hls : ∀ line ∈ ls, line ≠ [] ∧ ∀ c ∈ line, isLineBreak c = false) :
    lines (List.intercalate ['\n'] ls) = ls := by
  induction ls with
  | nil => rfl
  | cons line ls ih =>
    obtain ⟨⟨hne, hline⟩, hls⟩ := List.forall_mem_cons.1 hls
    cases ls with
    | nil =>
      rw [List.intercalate_singleton]
      exact lines_eq_singleton hne hline
    | cons next ls =>
      rw [List.intercalate_cons_cons, List.append_assoc, List.singleton_append,
        lines_append_cons hline, ih hls]

/-- Two texts with a line feed between them have the lines of the one and of the other; an empty
line may come between them. -/
theorem lines_append_newline (s t : Text) :
    ∃ blank, (∀ line ∈ blank, line = []) ∧
      lines (s ++ '\n' :: t) = lines s ++ blank ++ lines t := by
  have hbreak : lines ('\n' :: t) = [] :: lines t :=
    lines_cons_of_isLineBreak (by decide) nofun
  fun_induction lines s with
  | case1 => exact ⟨[[]], by simp, hbreak⟩
  | case2 r ih =>
    obtain ⟨blank, hblank, hlines⟩ := ih
    refine ⟨blank, hblank, ?_⟩
    rw [List.cons_append, List.cons_append, lines, hlines]
    rfl
  | case3 c r hnot hc ih =>
    by_cases hjoined : c = '\r' ∧ r = []
    · -- The line feed belongs to the break that is there.
      obtain ⟨rfl, rfl⟩ := hjoined
      exact ⟨[], nofun, rfl⟩
    · obtain ⟨blank, hblank, hlines⟩ := ih
      refine ⟨blank, hblank, ?_⟩
      rw [List.cons_append, lines_cons_of_isLineBreak hc, hlines]
      · rfl
      · rintro rfl
        cases r with
        | nil => exact (hjoined ⟨rfl, rfl⟩).elim
        | cons d r =>
          rintro hd
          obtain rfl := Option.some.inj hd
          exact hnot r rfl rfl
  | case4 c r _ hc hnil =>
    obtain rfl := lines_eq_nil_iff.1 hnil
    refine ⟨[], nofun, ?_⟩
    have hline : ∀ d ∈ [c], isLineBreak d = false := by simpa using hc
    exact lines_append_cons hline t
  | case5 c r _ hc line rest hr ih =>
    obtain ⟨blank, hblank, hlines⟩ := ih
    refine ⟨blank, hblank, ?_⟩
    rw [List.cons_append, lines_cons_of_not_isLineBreak (by simpa using hc), hlines, hr]
    rfl

end Bindery.Text

import Bindery.Ignore.Rules
import Bindery.Ignore.Source
import Bindery.Proofs.Files.Named
import Bindery.Proofs.Glob.Flaws
import Bindery.Proofs.Outcome
import Bindery.Proofs.Text.Line

/-!
# Reading ignore files

A line of an ignore file that cannot be read has a flawed pattern in it, and one such line spoils
the whole file.  The lines themselves can always be had, unless there is a null character in the
path of the file.
-/

namespace Bindery

/-! ## Lines -/

namespace IgnoreRule

/-- The pattern of a line is a part of the line. -/
theorem infix_of_negation? {line pattern : Text} {negated : Bool}
    (h : negation? line = some (pattern, negated)) : pattern <:+: line := by
  rw [negation?.eq_def] at h
  split at h
  · obtain ⟨rfl, -⟩ := Prod.mk.inj (Option.some.inj h)
    exact (List.tail_suffix _).isInfix
  · obtain ⟨rfl, -⟩ := Prod.mk.inj (Option.some.inj h)
    exact (List.tail_suffix _).isInfix
  · exact absurd h nofun
  · obtain ⟨rfl, -⟩ := Prod.mk.inj (Option.some.inj h)
    exact (Text.isInfix_trim _).trans (List.suffix_cons _ _).isInfix
  · obtain ⟨rfl, -⟩ := Prod.mk.inj (Option.some.inj h)
    exact List.infix_rfl

/-- A line that cannot be read has a flawed pattern. -/
theorem readLine_eq_error {line : Text} {f : Fault} (h : readLine line = .error f) :
    ∃ p flaw, p <:+: line ∧ Glob.patternFlaw? p = some flaw ∧ f = .expression flaw := by
  rw [readLine] at h
  dsimp only at h
  split at h
  · exact absurd h nofun
  split at h
  · exact absurd h nofun
  next rest negated hrest =>
  split at h
  · exact absurd h nofun
  split at h
  · next flaw hflaw =>
    refine ⟨_, flaw, ?_, Glob.read_translate_eq_error_iff.1 hflaw, (Except.error.inj h).symm⟩
    refine (List.dropWhile_suffix _).isInfix.trans ?_
    exact (Text.isPrefix_dropRightWhile _ _).isInfix.trans
      ((infix_of_negation? hrest).trans (Text.isInfix_trim line))
  · exact absurd h nofun

/-- A line with a flawed pattern cannot be read. -/
theorem readLine_of_patternFlaw? {line rest pattern : Text} {negated : Bool} {flaw : Regex.Flaw}
    (hnil : Text.trim line ≠ []) (hrest : negation? (Text.trim line) = some (rest, negated))
    (hpattern : (Text.dropRightWhile (· == '/') rest).dropWhile (· == '/') = pattern)
    (hne : pattern ≠ []) (hflaw : Glob.patternFlaw? pattern = some flaw) :
    readLine line = .error (.expression flaw) := by
  rw [readLine]
  dsimp only
  rw [if_neg (by rwa [List.isEmpty_iff]), hrest]
  dsimp only
  rw [hpattern, if_neg (by rwa [List.isEmpty_iff]), Glob.read_translate_eq_error_iff.2 hflaw]

/-- The lines of a file can be read where each of them can. -/
theorem readLines_failsOnly (lines : List Text) :
    FailsOnly (fun f => ∃ line ∈ lines, readLine line = .error f) (readLines lines) := by
  induction lines with
  | nil => exact .ok []
  | cons line lines ih =>
    rw [readLines]
    split
    · next f hf => exact .error ⟨line, List.mem_cons_self, hf⟩
    · exact (ih.map _).mono fun f ⟨other, hother, hf⟩ =>
        ⟨other, List.mem_cons_of_mem line hother, hf⟩

/-- One line that cannot be read spoils all of them. -/
theorem exists_readLines_eq_error {lines : List Text} {line : Text} (hline : line ∈ lines)
    {f : Fault} (hf : readLine line = .error f) : ∃ f', readLines lines = .error f' := by
  induction lines with
  | nil => exact absurd hline List.not_mem_nil
  | cons first lines ih =>
    rw [readLines]
    cases hfirst : readLine first with
    | error f' => exact ⟨f', rfl⟩
    | ok rule =>
      have hrest : line ∈ lines := by
        rcases List.mem_cons.1 hline with rfl | hline
        · exact absurd (hfirst.symm.trans hf) nofun
        · exact hline
      obtain ⟨f', hf'⟩ := ih hrest
      exact ⟨f', by rw [hf']; rfl⟩

end IgnoreRule

/-! ## Files -/

namespace IgnoreCache

variable {root name : Text}

/-- The path of an ignore file has the characters of the root or of the name, and slashes. -/
theorem mem_of_mem_pathOf {c : Char} (hc : c ∈ pathOf root name) :
    c = '/' ∨ c = '.' ∨ c ∈ root ∨ c ∈ name := by
  have hname : ∀ p n, n ∈ (Path.Parsed.ofText p).names → c ∈ n → c ∈ p := fun p n hn hc =>
    Path.mem_of_mem_components (List.mem_of_mem_filter hn) hc
  rw [pathOf, Path.Parsed.toText] at hc
  split at hc
  · exact Or.inr (Or.inl (List.mem_singleton.1 hc))
  rw [Path.Parsed.append] at hc
  rcases List.mem_append.1 hc with hc | hc
  · split at hc <;> exact Or.inl (Path.eq_slash_of_mem_rootOf hc)
  rcases Text.mem_of_mem_intercalate hc with hc | ⟨n, hn, hc⟩
  · exact Or.inl hc
  split at hn
  · exact Or.inr (Or.inr (Or.inr (hname name n hn hc)))
  · rcases List.mem_append.1 hn with hn | hn
    · exact Or.inr (Or.inr (Or.inl (hname root n hn hc)))
    · exact Or.inr (Or.inr (Or.inr (hname name n hn hc)))

/-- All of the name is in the path, but for its slashes and dots. -/
theorem mem_pathOf_of_mem_name {c : Char} (hslash : c ≠ '/') (hdot : c ≠ '.') (hc : c ∈ name) :
    c ∈ pathOf root name := by
  obtain ⟨part, hpart, hc⟩ := Path.exists_component_of_mem hc hslash
  have hkeep : part ∈ (Path.Parsed.ofText name).names := by
    refine List.mem_filter.2 ⟨hpart, ?_⟩
    rw [bne_iff_ne]
    rintro rfl
    exact hdot (List.mem_singleton.1 hc)
  have hmem : part ∈ ((Path.Parsed.ofText root).append (.ofText name)).names := by
    rw [Path.Parsed.append]
    split
    · exact hkeep
    · exact List.mem_append_right _ hkeep
  have hall := List.mem_append_right ((Path.Parsed.ofText root).append (.ofText name)).root
    (Text.mem_intercalate_of_mem '/' hmem hc)
  rw [pathOf, Path.Parsed.toText]
  split
  · next hnil => exact absurd (hnil ▸ hall) List.not_mem_nil
  · exact hall

/-- The lines of an ignore file can be had without a null character in its path, and not with
one. -/
theorem lines_eq_error_iff (cache : IgnoreCache) (h : Host) {f : Fault} :
    cache.lines h root name = .error f ↔ f = .nullCharacter ∧ '\x00' ∈ pathOf root name := by
  constructor
  · intro hlines
    rw [lines] at hlines
    split at hlines
    · exact absurd hlines nofun
    · exact absurd hlines nofun
    · exact absurd hlines nofun
    · next e hfile hnode =>
      obtain rfl := Except.error.inj hlines
      rcases Host.nodeAt_fault hnode with ⟨cause, rfl⟩ | hnull
      · exact (hfile cause rfl).elim
      · exact hnull
  · rintro ⟨rfl, hnull⟩
    rw [lines, Host.node, Host.nodeAt_of_null h .target hnull]

end IgnoreCache

end Bindery

import Bindery.Proofs.Profile.Header
import Bindery.Proofs.Profile.Reading
import Bindery.Proofs.Text.Line

/-!
# Texts that are joined

Two profile files one after the other declare what the first declares, updated with what the second
declares.  This needs a seam that no block crosses: either the first text leaves no block open, or
the second begins with a header, which ends the block.

The scan of the second text does not depend on the profiles that are there when it begins, but only
puts its own into them.

* `Scan.onto`: a scan that began with some profiles, as a scan that began with none; every line
  keeps it: `Scan.foldl_feed_onto`.
* `Scan.BeginsWithHeader`: lines before which a block may be ended or left open alike:
  `Scan.BeginsWithHeader.commit_foldl_feed`.
* `Profile.readText_append_newline`: the profiles of two texts with a line feed between them.
-/

namespace Bindery

namespace Scan

/-! ## What a scan puts its profiles into -/

/-- A scan whose profiles are put into others. -/
def onto (es : Entries Profile) (s : Scan) : Scan :=
  ⟨es.merge s.profiles, s.block⟩

/-- Outside of a block a scan goes on as if it began, with the profiles that were read. -/
theorem onto_start {s : Scan} (hs : s.block = none) : start.onto s.profiles = s := by
  obtain ⟨profiles, block⟩ := s
  obtain rfl : block = none := hs
  rfl

section Onto

variable {root : Text} {es : Entries Profile} (hes : es.names.Nodup) {s : Scan}
include hes

theorem commit_onto (hs : s.Sound root) : (s.onto es).commit = s.commit.onto es := by
  obtain ⟨profiles, block⟩ := s
  cases block with
  | none => rfl
  | some p => exact congrArg (Scan.mk · none) (Entries.put_merge hes hs.nodup p.name p)

theorem openBlock_onto (hs : s.Sound root) (h : Header) :
    (s.onto es).openBlock root h = (s.openBlock root h).onto es := by
  rw [openBlock, openBlock, commit_onto hes hs]
  split
  · exact commit_onto hes (hs.filled h)
  · rfl

theorem bodyLine_onto (hs : s.Sound root) (line : Text) :
    (s.onto es).bodyLine line = (s.bodyLine line).onto es := by
  obtain ⟨profiles, block⟩ := s
  cases block with
  | none => rfl
  | some p =>
    have hcommit := commit_onto hes hs
    simp only [bodyLine, onto] at hcommit ⊢
    split
    · exact hcommit
    · rfl

theorem feed_onto (hs : s.Sound root) (line : Text) :
    feed root (s.onto es) line = (feed root s line).onto es := by
  rw [feed, feed]
  split
  · rfl
  · split
    · exact openBlock_onto hes hs _
    · exact bodyLine_onto hes hs line

/-- Lines do not depend on the profiles that are there when they are read. -/
theorem foldl_feed_onto (hs : s.Sound root) (lines : List Text) :
    lines.foldl (feed root) (s.onto es) = (lines.foldl (feed root) s).onto es := by
  induction lines generalizing s with
  | nil => rfl
  | cons line lines ih =>
    rw [List.foldl_cons, feed_onto hes hs, ih (hs.feed line)]
    rfl

end Onto

/-! ## Lines that begin with a header -/

/-- The first of the lines that is neither blank nor a comment is a header, if there is one. -/
def BeginsWithHeader (lines : List Text) : Prop :=
  ∀ line ∈ lines.find? isRead, Header.IsHeader line

instance (lines : List Text) : Decidable (BeginsWithHeader lines) :=
  inferInstanceAs (Decidable (∀ line ∈ lines.find? isRead, Header.IsHeader line))

theorem commit_of_block_eq_none {s : Scan} (hs : s.block = none) : s.commit = s := by
  rw [commit, hs]

/-- No block is open when one has ended. -/
@[simp] theorem block_commit (s : Scan) : s.commit.block = none := by
  unfold commit
  split
  · assumption
  · rfl

theorem commit_commit (s : Scan) : s.commit.commit = s.commit :=
  commit_of_block_eq_none s.block_commit

/-- A header ends the block that is open, so it may have been ended before. -/
theorem openBlock_commit (s : Scan) (root : Text) (h : Header) :
    s.commit.openBlock root h = s.openBlock root h := by
  rw [openBlock, openBlock, commit_commit]

/-- To end a block before lines that begin with a header makes no difference. -/
theorem BeginsWithHeader.commit_foldl_feed {lines : List Text} (hlines : BeginsWithHeader lines)
    (root : Text) (s : Scan) :
    (lines.foldl (feed root) s.commit).commit = (lines.foldl (feed root) s).commit := by
  induction lines with
  | nil => exact commit_commit s
  | cons line lines ih =>
    rw [List.foldl_cons, List.foldl_cons]
    cases hcounts : isRead line with
    | false =>
      have hrest : BeginsWithHeader lines := fun l hl =>
        hlines l (by rwa [List.find?_cons_of_neg (by simp [hcounts])])
      rw [feed_of_not_isRead hcounts, feed_of_not_isRead hcounts, ih hrest]
    | true =>
      have hheader : Header.IsHeader line := hlines line (List.find?_cons_of_pos hcounts)
      obtain ⟨h, hread⟩ := Header.isHeader_iff_exists.1 hheader
      rw [feed_of_read? hcounts hread, feed_of_read? hcounts hread, openBlock_commit]

/-! ## The seam -/

/-- The state after the lines of a text. -/
def after (root text : Text) : Scan :=
  ((Text.lines text).map Text.trim).foldl (feed root) start

theorem sound_after (root text : Text) : (after root text).Sound root :=
  (sound_start root).foldl_feed _

/-- An empty line is passed over. -/
theorem foldl_feed_blank {blank : List Text} (hblank : ∀ line ∈ blank, line = []) (root : Text)
    (s : Scan) : blank.foldl (feed root) s = s := by
  induction blank with
  | nil => rfl
  | cons line blank ih =>
    obtain ⟨rfl, hrest⟩ := List.forall_mem_cons.1 hblank
    exact ih hrest

/-- The lines of the second text are read where those of the first end. -/
theorem after_append_newline (root first second : Text) :
    after root (first ++ '\n' :: second) =
      ((Text.lines second).map Text.trim).foldl (feed root) (after root first) := by
  obtain ⟨blank, hblank, hlines⟩ := Text.lines_append_newline first second
  have htrim : ∀ line ∈ blank.map Text.trim, line = [] := by
    intro line hline
    obtain ⟨raw, hraw, rfl⟩ := List.mem_map.1 hline
    rw [hblank raw hraw]
    rfl
  rw [after, hlines, List.map_append, List.map_append, List.foldl_append, List.foldl_append,
    foldl_feed_blank htrim, ← after]

end Scan

namespace Profile

open Scan (after)

variable {root first second : Text}

/-- Where no block crosses the seam, the second text is read as it is read alone. -/
theorem readText_append_newline_eq_merge (hseam : (after root first).block = none ∨
      Scan.BeginsWithHeader ((Text.lines second).map Text.trim)) :
    readText root (first ++ '\n' :: second) =
      (readText root first).merge (readText root second) := by
  have hfirst := (sound_readText root first).1
  have hnone : (after root first).commit.block = none := Scan.block_commit _
  -- At the seam no block is open, or the header that follows ends it anyway.
  have hended : (after root (first ++ '\n' :: second)).commit =
      (((Text.lines second).map Text.trim).foldl (Scan.feed root)
        (after root first).commit).commit := by
    rw [Scan.after_append_newline]
    rcases hseam with hopen | hheader
    · rw [Scan.commit_of_block_eq_none hopen]
    · exact (hheader.commit_foldl_feed root _).symm
  calc readText root (first ++ '\n' :: second)
      = (after root (first ++ '\n' :: second)).commit.profiles := rfl
    _ = (((Text.lines second).map Text.trim).foldl (Scan.feed root)
          (Scan.start.onto (readText root first))).commit.profiles := by
        rw [hended, ← Scan.onto_start hnone]
        rfl
    _ = ((after root second).onto (readText root first)).commit.profiles := by
        rw [Scan.foldl_feed_onto hfirst (Scan.sound_start root)]
        rfl
    _ = (readText root first).merge (readText root second) := by
        rw [Scan.commit_onto hfirst (Scan.sound_after root second)]
        rfl

/-- **Two texts with a line feed between them** declare what the first declares, updated with what
the second declares: a profile of the second counts, in the place of the one of the same name in the
first if there is one, new names follow in the order of the second, and all else is as in the first.
This holds where the first text leaves no block open, and where the second begins with a header. -/
theorem readText_append_newline (hseam : (after root first).block = none ∨
      Scan.BeginsWithHeader ((Text.lines second).map Text.trim)) :
    readText root (first ++ '\n' :: second) =
        (readText root first).merge (readText root second) ∧
      (readText root (first ++ '\n' :: second)).names = (readText root first).names ++
        (readText root second).names.filter (· ∉ (readText root first).names) ∧
      ∀ name, (readText root (first ++ '\n' :: second)).get? name =
        ((readText root second).get? name).or ((readText root first).get? name) := by
  have hfirst := (sound_readText root first).1
  have hsecond := (sound_readText root second).1
  have hmerge := readText_append_newline_eq_merge hseam
  rw [hmerge]
  exact ⟨rfl, Entries.names_merge hfirst hsecond, Entries.get?_merge _ _ hsecond⟩

/-- Elsewhere a pattern may go to a block that the first text leaves open. -/
example :
    readText [] "a \x7b\nx".toList = [("a".toList, ⟨"a".toList, [], [], ["x".toList], []⟩)] ∧
      readText [] "y".toList = [] ∧
      readText [] "a \x7b\nx\ny".toList =
        [("a".toList, ⟨"a".toList, [], [], ["x".toList, "y".toList], []⟩)] := by
  decide

/-- The first text leaves a block open and ends in half a line break; the second begins with a
comment and declares the open block again. -/
theorem readText_append_newline_openBlock :
    let first := "a \x7b x \x7d\nb \x7b\n  y\r".toList
    let second := "# more\nc, d \x7b\nb: a \x7b !z \x7d".toList
    (after [] first).block ≠ none ∧
      readText [] (first ++ '\n' :: second) =
        [("a".toList, ⟨"a".toList, [], [], ["x".toList], []⟩),
          ("b".toList, ⟨"b".toList, [], ["a".toList], [], ["z".toList]⟩),
          ("c, d".toList, ⟨"c, d".toList, [], [], [], []⟩)] := by
  intro first second
  have hheader : Scan.BeginsWithHeader ((Text.lines second).map Text.trim) := by decide
  refine ⟨by decide, ?_⟩
  rw [(readText_append_newline (Or.inr hheader)).1]
  decide

end Profile

end Bindery

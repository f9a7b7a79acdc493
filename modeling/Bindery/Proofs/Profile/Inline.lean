import Bindery.Proofs.Profile.Header
import Bindery.Proofs.Profile.Reading
import Bindery.Proofs.Text.Words

/-!
# Blocks on one line

A block may stand on the line of its header, or have a line for each of its patterns and one for the
brace that ends it.  Patterns that are words are read alike both ways, braces, commas and marks in
them included.  The words to leave out are those that are something else on a line of their own.

* `IsPatternWord`: the words in question.
* `Profile.inlineBlock`, `Profile.spreadBlock`: a block on one line, and on several.
* `Profile.readText_inlineBlock`: both declare the same.
-/

namespace Bindery

open Text (IsWord)

/-- A word that is a pattern on a line of its own. -/
structure IsPatternWord (s : Text) : Prop extends IsWord s where
  not_comment : s.head? ≠ some '#'
  not_close : s ≠ ['}']
  not_header : ¬Header.IsHeader s

theorem isPatternWord_iff {s : Text} :
    IsPatternWord s ↔ IsWord s ∧ s.head? ≠ some '#' ∧ s ≠ ['}'] ∧ ¬Header.IsHeader s :=
  ⟨fun ⟨hword, hcomment, hclose, hheader⟩ => ⟨hword, hcomment, hclose, hheader⟩,
    fun ⟨hword, hcomment, hclose, hheader⟩ => ⟨hword, hcomment, hclose, hheader⟩⟩

instance (s : Text) : Decidable (IsPatternWord s) :=
  decidable_of_iff _ isPatternWord_iff.symm

/-! ## The line of a header -/

namespace Header

/-- Words behind the brace of a header, and a brace that ends the block. -/
def inlineBody (words : List Text) : Text :=
  List.intercalate [' '] words ++ ['}']

variable {words : List Text} (hwords : ∀ w ∈ words, IsWord w)
include hwords

theorem trim_inlineBody : Text.trim (inlineBody words) = inlineBody words := by
  have hblank : isBlank '}' = false := by decide
  rw [inlineBody, Text.trim_append (List.cons_ne_nil _ _) (by simpa using hblank)
    (by simpa using hblank), Text.trimLeft_intercalate hwords]

variable {h : Header} (hbody : h.body = inlineBody words)
include hbody

/-- The last brace of the line ends the block, also behind a word that ends in a brace. -/
theorem closes_of_inlineBody : h.closes = true := by
  rw [closes, hbody, trim_inlineBody hwords, inlineBody, List.getLast?_concat]
  rfl

theorem patterns_of_inlineBody : h.patterns = words := by
  rw [patterns, if_pos (closes_of_inlineBody hwords hbody), hbody, trim_inlineBody hwords,
    inlineBody, List.dropLast_concat]
  exact Text.words_intercalate (by decide) hwords

end Header

/-! ## Lines of words -/

namespace Scan

variable {root : Text}

/-- In a block a word is added to the patterns; outside of one it does nothing. -/
theorem feed_patternWord {w : Text} (hw : IsPatternWord w) (s : Scan) :
    feed root s w = ⟨s.profiles, s.block.map (·.addPattern w)⟩ := by
  have hread : Header.read? w = none := Header.read?_eq_none_iff.2 hw.not_header
  obtain ⟨profiles, block⟩ := s
  rw [feed_of_read?_eq_none (isRead_iff.2 ⟨hw.ne_nil, hw.not_comment⟩) hread]
  cases block with
  | none => rfl
  | some p => exact if_neg hw.not_close

theorem foldl_feed_patternWords {words : List Text} (hwords : ∀ w ∈ words, IsPatternWord w)
    (s : Scan) :
    words.foldl (feed root) s =
      ⟨s.profiles, s.block.map fun p => words.foldl Profile.addPattern p⟩ := by
  induction words generalizing s with
  | nil =>
    obtain ⟨profiles, block⟩ := s
    cases block <;> rfl
  | cons w words ih =>
    rw [List.forall_mem_cons] at hwords
    rw [List.foldl_cons, feed_patternWord hwords.1, ih hwords.2, Option.map_map]
    rfl

/-- A brace on a line of its own ends the block that is open. -/
theorem feed_close (s : Scan) : feed root s ['}'] = s.commit := by
  obtain ⟨profiles, block⟩ := s
  cases block <;> rfl

/-! ## One line and several -/

/-- Only what stands before the brace decides whether the line of a header counts. -/
theorem isRead_append_brace (front body : Text) :
    isRead (front ++ '{' :: body) = isRead (front ++ ['{']) := by
  cases front <;> rfl

variable {front : Text} (hfront : '{' ∉ front) {words : List Text}
  (hwords : ∀ w ∈ words, IsPatternWord w)
include hfront

/-- A header with nothing behind its brace opens its block. -/
theorem feed_header (hcounts : isRead (front ++ ['{']) = true) {h : Header}
    (hread : Header.read? (front ++ ['{']) = some h) (s : Scan) :
    feed root s (front ++ ['{']) = ⟨s.commit.profiles, some (h.opened root)⟩ := by
  obtain ⟨-, -, hbody⟩ := (Header.read?_append_brace_eq_some_iff hfront).1 hread
  rw [feed_of_read? hcounts hread, openBlock_of_body_eq_nil hbody.symm]

/-- A header with words and a brace behind its own opens its block, fills and ends it, whatever the
words are on lines of their own. -/
theorem feed_inline_of_isWord {words : List Text} (hwords : ∀ w ∈ words, IsWord w)
    (hcounts : isRead (front ++ ['{']) = true) {h : Header}
    (hread : Header.read? (front ++ ['{']) = some h) (s : Scan) :
    feed root s (front ++ '{' :: Header.inlineBody words) =
      commit ⟨s.commit.profiles, some (words.foldl Profile.addPattern (h.opened root))⟩ := by
  have hinline : Header.read? (front ++ '{' :: Header.inlineBody words) =
      some { h with body := Header.inlineBody words } := by
    rw [Header.read?_append_brace hfront [], hread, Option.map_some]
  rw [feed_of_read? ((isRead_append_brace front _).trans hcounts) hinline, openBlock,
    Header.closes_of_inlineBody hwords rfl, Header.patterns_of_inlineBody hwords rfl]
  rfl

include hwords

/-- A header with words and a brace behind its own opens its block, fills and ends it. -/
theorem feed_inline (hcounts : isRead (front ++ ['{']) = true) {h : Header}
    (hread : Header.read? (front ++ ['{']) = some h) (s : Scan) :
    feed root s (front ++ '{' :: Header.inlineBody words) =
      commit ⟨s.commit.profiles, some (words.foldl Profile.addPattern (h.opened root))⟩ :=
  feed_inline_of_isWord hfront (fun w hw => (hwords w hw).toIsWord) hcounts hread s

/-- **A block on one line and on several** has the same effect wherever it stands. -/
theorem foldl_feed_spread (hcounts : isRead (front ++ ['{']) = true)
    (hheader : Header.IsHeader (front ++ ['{'])) (s : Scan) :
    ((front ++ ['{']) :: (words ++ [['}']])).foldl (feed root) s =
      feed root s (front ++ '{' :: Header.inlineBody words) := by
  obtain ⟨h, hread⟩ := Header.isHeader_iff_exists.1 hheader
  rw [List.foldl_cons, feed_header hfront hcounts hread, List.foldl_append,
    foldl_feed_patternWords hwords, List.foldl_cons, feed_close,
    feed_inline hfront hwords hcounts hread]
  rfl

/-- Outside of a block neither of them does anything if the first line opens none. -/
theorem foldl_feed_spread_of_not_header (root : Text)
    (hnot : ¬(isRead (front ++ ['{']) = true ∧ Header.IsHeader (front ++ ['{']))) {s : Scan}
    (hs : s.block = none) :
    ((front ++ ['{']) :: (words ++ [['}']])).foldl (feed root) s = s ∧
      feed root s (front ++ '{' :: Header.inlineBody words) = s := by
  have hfeed (body : Text) : feed root s (front ++ '{' :: body) = s := by
    cases hcounts : isRead (front ++ '{' :: body) with
    | false => exact feed_of_not_isRead hcounts s
    | true =>
      have hnone : Header.read? (front ++ ['{']) = none := Header.read?_eq_none_iff.2 fun hheader =>
        hnot ⟨(isRead_append_brace front body).symm.trans hcounts, hheader⟩
      have hline : Header.read? (front ++ '{' :: body) = none := by
        rw [Header.read?_append_brace hfront [], hnone, Option.map_none]
      rw [feed_of_read?_eq_none hcounts hline, bodyLine, hs]
  refine ⟨?_, hfeed _⟩
  obtain ⟨profiles, block⟩ := s
  obtain rfl : block = none := hs
  rw [List.foldl_cons, hfeed, List.foldl_append, foldl_feed_patternWords hwords]
  rfl

end Scan

namespace Profile

/-! ## Texts of a block -/

/-- A block on one line: what stands before the brace of its header, and its patterns. -/
def inlineBlock (front : Text) (words : List Text) : Text :=
  front ++ '{' :: Header.inlineBody words

/-- The block with a line for each pattern and one for the brace that ends it. -/
def spreadBlock (front : Text) (words : List Text) : Text :=
  List.intercalate ['\n'] ((front ++ ['{']) :: (words ++ [['}']]))

theorem trim_append_brace (front : Text) :
    Text.trim (front ++ ['{']) = Text.trimLeft front ++ ['{'] := by
  have hblank : isBlank '{' = false := by decide
  exact Text.trim_append (List.cons_ne_nil _ _) (by simpa using hblank) (by simpa using hblank) front

section Texts

variable {front : Text} {words : List Text} (hbreak : ∀ c ∈ front, isLineBreak c = false)
  (hwords : ∀ w ∈ words, IsWord w)
include hbreak hwords

/-- The line of a block on one line. -/
theorem map_trim_lines_inlineBlock :
    (Text.lines (inlineBlock front words)).map Text.trim =
      [Text.trimLeft front ++ '{' :: Header.inlineBody words] := by
  have hbody : ∀ c ∈ List.intercalate [' '] words, isLineBreak c = false := by
    intro c hc
    rcases Text.mem_of_mem_intercalate hc with rfl | ⟨w, hw, hc⟩
    · decide
    · exact (hwords w hw).isLine.no_break c hc
  have hline : ∀ c ∈ inlineBlock front words, isLineBreak c = false :=
    List.forall_mem_append.2 ⟨hbreak, List.forall_mem_cons.2 ⟨by decide,
      List.forall_mem_append.2 ⟨hbody, List.forall_mem_singleton.2 (by decide)⟩⟩⟩
  have hlast : ('{' :: Header.inlineBody words).getLast? = some '}' := by
    rw [Header.inlineBody, ← List.cons_append, List.getLast?_concat]
  rw [Text.lines_eq_singleton (by simp [inlineBlock]) hline, List.map_singleton, inlineBlock,
    Text.trim_append (List.cons_ne_nil _ _)]
  · rintro c ⟨⟩
    decide
  · rw [hlast]
    rintro c ⟨⟩
    decide

/-- The lines of a block on several. -/
theorem map_trim_lines_spreadBlock :
    (Text.lines (spreadBlock front words)).map Text.trim =
      (Text.trimLeft front ++ ['{']) :: (words ++ [['}']]) := by
  have hheader : ∀ c ∈ front ++ ['{'], isLineBreak c = false :=
    List.forall_mem_append.2 ⟨hbreak, List.forall_mem_singleton.2 (by decide)⟩
  have hmap : words.map Text.trim = words :=
    (List.map_congr_left fun w hw => (hwords w hw).isLine.trimmed).trans (List.map_id _)
  rw [spreadBlock, Text.lines_intercalate, List.map_cons, List.map_append, trim_append_brace, hmap]
  · rfl
  · refine List.forall_mem_cons.2 ⟨⟨by simp, hheader⟩, List.forall_mem_append.2 ⟨fun w hw => ?_,
      List.forall_mem_singleton.2 ⟨by decide, List.forall_mem_singleton.2 (by decide)⟩⟩⟩
    exact ⟨(hwords w hw).ne_nil, (hwords w hw).isLine.no_break⟩

end Texts

/-- **A block on one line and on several** declares the same.  It is the profile that its header
opens, with the words as its patterns; where the first line is a comment or no header, it is
nothing. -/
theorem readText_inlineBlock (root : Text) {front : Text} {words : List Text} (hfront : '{' ∉ front)
    (hbreak : ∀ c ∈ front, isLineBreak c = false) (hwords : ∀ w ∈ words, IsPatternWord w) :
    readText root (inlineBlock front words) = readText root (spreadBlock front words) ∧
      ∀ h, Header.read? (Text.trim (front ++ ['{'])) = some h →
        Scan.isRead (Text.trim (front ++ ['{'])) = true →
          readText root (spreadBlock front words) =
            [(Text.trim h.name, words.foldl addPattern (h.opened root))] := by
  have hisWord : ∀ w ∈ words, IsWord w := fun w hw => (hwords w hw).toIsWord
  have htrimmed : '{' ∉ Text.trimLeft front := fun hmem =>
    hfront ((List.dropWhile_suffix _).mem hmem)
  -- Trimmed, the texts are one line and a list of lines, which the scan reads alike from its start.
  rw [readText, readText, map_trim_lines_inlineBlock hbreak hisWord,
    map_trim_lines_spreadBlock hbreak hisWord, trim_append_brace, List.foldl_cons, List.foldl_nil]
  constructor
  · by_cases hheader : Scan.isRead (Text.trimLeft front ++ ['{']) = true ∧
        Header.IsHeader (Text.trimLeft front ++ ['{'])
    · rw [Scan.foldl_feed_spread htrimmed hwords hheader.1 hheader.2]
    · obtain ⟨hspread, hinline⟩ := Scan.foldl_feed_spread_of_not_header htrimmed hwords root
        hheader (rfl : Scan.start.block = none)
      rw [hspread, hinline]
  · intro h hread hcounts
    have hheader := Header.isHeader_of_read? hread
    have hname : (words.foldl addPattern (h.opened root)).name = Text.trim h.name :=
      congrArg Prod.snd (key_foldl_addPattern words (h.opened root))
    rw [Scan.foldl_feed_spread htrimmed hwords hcounts hheader,
      Scan.feed_inline htrimmed hwords hcounts hread, ← hname]
    rfl

/-- Words with braces, commas and marks; the last one ends in a brace. -/
theorem readText_inlineBlock_braces :
    let front := "  web: base ".toList
    let words := ["**/*.\x7bts,tsx\x7d".toList, "!a.ts".toList, "!".toList, "/\x7d".toList]
    inlineBlock front words = "  web: base \x7b**/*.\x7bts,tsx\x7d !a.ts ! /\x7d\x7d".toList ∧
      spreadBlock front words =
        "  web: base \x7b\n**/*.\x7bts,tsx\x7d\n!a.ts\n!\n/\x7d\n\x7d".toList ∧
      readText "/proj".toList (inlineBlock front words) =
        readText "/proj".toList (spreadBlock front words) ∧
      readText "/proj".toList (spreadBlock front words) =
        [("web".toList, ⟨"web".toList, "/proj".toList, ["base".toList],
          ["**/*.\x7bts,tsx\x7d".toList, "/\x7d".toList], ["a.ts".toList]⟩)] := by
  intro front words
  have hwords : ∀ w ∈ words, IsPatternWord w := by decide
  have hbreak : ∀ c ∈ front, isLineBreak c = false := by
    have hall : front.all (!isLineBreak ·) = true := by decide
    simpa using hall
  obtain ⟨hsame, hdeclared⟩ := readText_inlineBlock "/proj".toList (by decide) hbreak hwords
  refine ⟨by decide, by decide, hsame, ?_⟩
  exact hdeclared ⟨"web".toList, some " base ".toList, []⟩ (by decide) (by decide)

end Profile

end Bindery

import Bindery.Glob.Braces
import Bindery.Proofs.Profile.Inline
import Bindery.Proofs.Profile.Joined

/-!
# Brace groups at the end of a line

A pattern may end in a brace group, and so may a header whose block is on one line.  Which of the
two a line of an open block is taken for depends only on the characters before the group: a pattern
if one of them cannot stand in a name, and otherwise a header, although the line was meant as one of
the patterns of the block.

* `Glob.Group.IsTrailing`, `IsGlobLine`: the lines in question.
* `Scan.feed_trailing_pattern`, `Scan.feed_trailing_header`: what such a line does in a block.
* `Scan.after_trailingGroup`: what it does behind any text that leaves a block open.
-/

namespace Bindery

open Text (IsWord)

/-- A group at the end of a pattern that has no other braces; there is something before it, and it
has two options or more. -/
structure Glob.Group.IsTrailing (g : Glob.Group) : Prop where
  before_ne_nil : g.before ≠ []
  before_plain : ∀ c ∈ g.before, Glob.isBrace c = false
  two_le_length : 2 ≤ g.options.length
  options_plain : ∀ option ∈ g.options, ∀ c ∈ option, Glob.isBrace c = false ∧ c ≠ ','
  after_eq_nil : g.after = []

/-- A line that consists of a pattern with a group at its end: no blanks and no colons in it, and
not a comment. -/
structure IsGlobLine (line : Text) (g : Glob.Group) : Prop extends g.IsTrailing where
  line_eq : line = g.toText
  no_blank : ∀ c ∈ line, isBlank c = false
  no_colon : ':' ∉ line
  not_comment : line.head? ≠ some '#'

/-- Whether a line is one of these can be computed. -/
theorem isGlobLine_of_all {line : Text} {g : Glob.Group}
    (hgroup : g.before ≠ [] ∧ 2 ≤ g.options.length ∧ g.after = [])
    (hplain : (g.before.all (!Glob.isBrace ·) &&
      g.options.all (·.all fun c => !Glob.isBrace c && c != ',')) = true)
    (hline : line = g.toText ∧ ':' ∉ line ∧ line.head? ≠ some '#')
    (hblank : line.all (!isBlank ·) = true) : IsGlobLine line g where
  before_ne_nil := hgroup.1
  before_plain := by
    rw [Bool.and_eq_true] at hplain
    simpa using hplain.1
  two_le_length := hgroup.2.1
  options_plain := by
    rw [Bool.and_eq_true] at hplain
    simpa using hplain.2
  after_eq_nil := hgroup.2.2
  line_eq := hline.1
  no_blank := by simpa using hblank
  no_colon := hline.2.1
  not_comment := hline.2.2

namespace IsGlobLine

variable {line : Text} {g : Glob.Group} (hline : IsGlobLine line g)
include hline

theorem brace_notMem : '{' ∉ g.before :=
  fun hmem => absurd (hline.before_plain _ hmem) (by decide)

/-- The line is that of a block with the options, joined by commas, as its one word. -/
theorem eq_inlineBody :
    line = g.before ++ '{' :: Header.inlineBody [List.intercalate [','] g.options] := by
  rw [hline.line_eq, Glob.Group.toText, hline.after_eq_nil, Header.inlineBody,
    List.intercalate_singleton, List.append_assoc]
  rfl

theorem isWord : IsWord line := by
  refine ⟨?_, hline.no_blank⟩
  rw [hline.eq_inlineBody]
  simp

theorem isRead : Scan.isRead line = true :=
  Scan.isRead_iff.2 ⟨hline.isWord.ne_nil, hline.not_comment⟩

theorem ne_close : line ≠ ['}'] := by
  rw [hline.eq_inlineBody]
  intro hclose
  have hmem : '{' ∈ ['}'] := hclose ▸ List.mem_append_right _ List.mem_cons_self
  exact absurd hmem (by decide)

theorem isWord_before : IsWord g.before := by
  refine ⟨hline.before_ne_nil, fun c hc => hline.no_blank c ?_⟩
  rw [hline.eq_inlineBody]
  exact List.mem_append_left _ hc

theorem isWord_options : IsWord (List.intercalate [','] g.options) := by
  constructor
  · -- Two options have a comma between them.
    obtain ⟨first, second, rest, hoptions⟩ : ∃ first second rest,
        g.options = first :: second :: rest := by
      match hoptions : g.options, hline.two_le_length with
      | first :: second :: rest, _ => exact ⟨first, second, rest, rfl⟩
    rw [hoptions, List.intercalate_cons_cons]
    simp
  · intro c hc
    refine hline.no_blank c ?_
    rw [hline.eq_inlineBody, Header.inlineBody, List.intercalate_singleton]
    exact List.mem_append_right _ (List.mem_cons_of_mem _ (List.mem_append_left _ hc))

/-- A character that cannot stand in a name keeps the line from being a header. -/
theorem read?_eq_none (hreserved : ∃ c ∈ g.before, c ∈ Header.reserved) :
    Header.read? line = none := by
  obtain ⟨c, hc, hmem⟩ := hreserved
  have hcolon : ':' ∉ g.before := by
    intro hcolon
    refine hline.no_colon ?_
    rw [hline.eq_inlineBody]
    exact List.mem_append_left _ hcolon
  rw [hline.eq_inlineBody]
  refine Option.eq_none_iff_forall_ne_some.2 fun h hread => ?_
  obtain ⟨hproper, hfront, -⟩ := (Header.read?_append_brace_eq_some_iff hline.brace_notMem).1 hread
  rw [Header.front] at hfront
  split at hfront
  · have hname : Header.isNameChar c = true := hproper.name_chars c (hfront ▸ hc)
    simp [Header.isNameChar, hmem] at hname
  · exact hcolon (hfront ▸ by simp)

/-- Without one, the text before the group is the name of a header. -/
theorem read?_eq_some (hname : ∀ c ∈ g.before, c ∉ Header.reserved) :
    Header.read? (g.before ++ ['{']) = some ⟨g.before, none, []⟩ :=
  Header.read?_append hline.before_ne_nil (fun c hc => by simp [Header.isNameChar, hname c hc]) []

end IsGlobLine

/-! ## Lines of a block -/

/-- A word with an exclamation mark in front and text behind it is an exclude pattern, any other an
include pattern. -/
theorem Profile.addPattern_of_isWord (p : Profile) {line : Text} (hline : IsWord line) :
    (line.head? = some '!' → line.tail ≠ [] →
        p.addPattern line = { p with excludes := p.excludes ++ [line.tail] }) ∧
      (line.head? ≠ some '!' →
        p.addPattern line = { p with includes := p.includes ++ [line] }) := by
  obtain ⟨c, r, rfl⟩ := List.exists_cons_of_ne_nil hline.ne_nil
  constructor
  · intro hmark hne
    obtain rfl : c = '!' := Option.some.inj hmark
    have hrest : IsWord r := ⟨hne, fun c hc => hline.no_blank c (List.mem_cons_of_mem _ hc)⟩
    have htrim : Text.trim r = r := hrest.isLine.trimmed
    rw [List.tail_cons] at hne ⊢
    simp only [addPattern, htrim]
    exact if_neg (by simpa using hne)
  · intro hmark
    rw [addPattern]
    · exact List.cons_ne_nil c r
    · rintro r' heq
      obtain ⟨rfl, -⟩ := List.cons.inj heq
      exact hmark rfl

namespace Scan

section Feed

variable {root line : Text} {g : Glob.Group} (hline : IsGlobLine line g) (es : Entries Profile)
  (p : Profile)
include hline

/-- Where a character before the group cannot stand in a name, the line is a pattern of the open
block, which stays open. -/
theorem feed_trailing_pattern (hreserved : ∃ c ∈ g.before, c ∈ Header.reserved) :
    ∃ q, feed root ⟨es, some p⟩ line = ⟨es, some q⟩ ∧
      (line.head? = some '!' → q = { p with excludes := p.excludes ++ [line.tail] }) ∧
      (line.head? ≠ some '!' → q = { p with includes := p.includes ++ [line] }) := by
  obtain ⟨hexclude, hinclude⟩ := p.addPattern_of_isWord hline.isWord
  refine ⟨_, feed_pattern hline.isRead (hline.read?_eq_none hreserved) hline.ne_close es p,
    fun hmark => hexclude hmark ?_, hinclude⟩
  -- Behind the mark there is the group at least.
  obtain ⟨c, r, hbefore⟩ := List.exists_cons_of_ne_nil hline.before_ne_nil
  rw [hline.eq_inlineBody, hbefore]
  simp

/-- Where every character before the group can stand in a name, the line ends the open block and
declares a profile of its own, with the options as its one pattern. -/
theorem feed_trailing_header (hname : ∀ c ∈ g.before, c ∉ Header.reserved) :
    feed root ⟨es, some p⟩ line =
      ⟨(es.put p.name p).put g.before (Profile.addPattern ⟨g.before, root, [], [], []⟩
        (List.intercalate [','] g.options)), none⟩ := by
  have hcounts : isRead (g.before ++ ['{']) = true := by
    rw [← isRead_append_brace, ← hline.eq_inlineBody]
    exact hline.isRead
  have hopened : Header.opened ⟨g.before, none, []⟩ root = ⟨g.before, root, [], [], []⟩ := by
    rw [Header.opened, hline.isWord_before.isLine.trimmed]
    rfl
  have hkey := Profile.key_addPattern ⟨g.before, root, [], [], []⟩
    (List.intercalate [','] g.options)
  rw [hline.eq_inlineBody, feed_inline_of_isWord hline.brace_notMem
    (List.forall_mem_singleton.2 hline.isWord_options) hcounts (hline.read?_eq_some hname), hopened]
  exact congrArg (fun name => Scan.mk ((es.put p.name p).put name _) none) (congrArg Prod.snd hkey)

end Feed

/-- **A line with a brace group at its end**, behind a text that leaves a block open.  If a
character before the group cannot stand in a name, the line is one more pattern of the block, no
profile is opened, and the block stays open.  If all of them can, the block ends, and what was to be
its pattern is taken for a profile. -/
theorem after_trailingGroup (root : Text) {text raw : Text} {es : Entries Profile} {p : Profile}
    (hopen : after root text = ⟨es, some p⟩) (hraw : ∀ c ∈ raw, isLineBreak c = false)
    {g : Glob.Group} (hline : IsGlobLine (Text.trim raw) g) :
    ((∃ c ∈ g.before, c ∈ Header.reserved) →
      ∃ q, after root (text ++ '\n' :: raw) = ⟨es, some q⟩ ∧
        (g.toText.head? = some '!' → q = { p with excludes := p.excludes ++ [g.toText.tail] }) ∧
        (g.toText.head? ≠ some '!' → q = { p with includes := p.includes ++ [g.toText] })) ∧
    ((∀ c ∈ g.before, c ∉ Header.reserved) →
      after root (text ++ '\n' :: raw) =
        ⟨(es.put p.name p).put g.before (Profile.addPattern ⟨g.before, root, [], [], []⟩
          (List.intercalate [','] g.options)), none⟩) := by
  have hne : raw ≠ [] := by
    rintro rfl
    exact hline.isWord.ne_nil rfl
  have hafter : after root (text ++ '\n' :: raw) = feed root ⟨es, some p⟩ (Text.trim raw) := by
    rw [after_append_newline, Text.lines_eq_singleton hne hraw, hopen]
    rfl
  rw [hafter, ← hline.line_eq]
  exact ⟨feed_trailing_pattern hline es p, feed_trailing_header hline es p⟩

/-- An exclude pattern whose wildcard keeps it from being a header. -/
theorem after_trailingGroup_wildcard :
    let g : Glob.Group := ⟨"!*.".toList, ["ts".toList, "tsx".toList], []⟩
    let raw := "\t!*.\x7bts,tsx\x7d ".toList
    let block : Profile := ⟨"web".toList, ['/'], [], ["a.ts".toList], []⟩
    after ['/'] "web \x7b\n  a.ts".toList = ⟨[], some block⟩ ∧ (∀ c ∈ raw, isLineBreak c = false) ∧
      IsGlobLine (Text.trim raw) g ∧
      after ['/'] ("web \x7b\n  a.ts".toList ++ '\n' :: raw) =
        ⟨[], some { block with excludes := ["*.\x7bts,tsx\x7d".toList] }⟩ := by
  intro g raw block
  have hopen : after ['/'] "web \x7b\n  a.ts".toList = ⟨[], some block⟩ := by decide
  have hraw : ∀ c ∈ raw, isLineBreak c = false := by
    have hall : raw.all (!isLineBreak ·) = true := by decide
    simpa using hall
  have hline : IsGlobLine (Text.trim raw) g :=
    isGlobLine_of_all (by decide) (by decide) (by decide) (by decide)
  obtain ⟨q, hafter, hexclude, -⟩ :=
    (after_trailingGroup ['/'] hopen hraw hline).1 ⟨'*', by decide, by decide⟩
  refine ⟨hopen, hraw, hline, ?_⟩
  rw [hafter, hexclude (by decide)]
  decide

/-- A line without wildcards is no pattern of the block that it stands in: it ends the block, and
the text before its group is the name of a profile. -/
theorem after_trailingGroup_plain :
    let g : Glob.Group := ⟨"main.".toList, ["ts".toList, "tsx".toList], []⟩
    let line := "main.\x7bts,tsx\x7d".toList
    let block : Profile := ⟨"web".toList, ['/'], [], [], []⟩
    IsGlobLine line g ∧ after ['/'] "web \x7b".toList = ⟨[], some block⟩ ∧
      (∀ q, after ['/'] ("web \x7b".toList ++ '\n' :: line) ≠ ⟨[], some q⟩) ∧
      Profile.readText ['/'] ("web \x7b".toList ++ '\n' :: (line ++ "\n\x7d".toList)) =
        [("web".toList, block),
          ("main.".toList, ⟨"main.".toList, ['/'], [], ["ts,tsx".toList], []⟩)] := by
  intro g line block
  have hafter : (after ['/'] ("web \x7b".toList ++ '\n' :: line)).block = none := by decide
  refine ⟨isGlobLine_of_all (by decide) (by decide) (by decide) (by decide), by decide,
    fun q hq => ?_, by decide⟩
  rw [hq] at hafter
  cases hafter

end Scan

end Bindery

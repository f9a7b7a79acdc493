import Bindery.Proofs.Profile.Header
import Bindery.Proofs.Profile.Reading
import Bindery.Proofs.Text.Words

/-!
# Profiles of a text are well formed

Whatever a text says, it is read to its end, and every profile that it declares is well formed: its
name is one that a header can have, its parents and patterns are lines of their own, it is not its
own parent, and what stands among the include patterns is not meant to exclude.

The scan keeps the block that is open, and that is all it keeps of being in a block.  A scan that
keeps the two apart might be in a block without having one, and a pattern would be lost on it; this
never happens.

* `Profile.WellFormed`, and `Scan.WellFormed` between two lines: every line keeps it.
* `TwoStateScan`: the scan that keeps apart whether it is in a block and which block that is.
* `Profile.readText_wellFormed`: both for every text.
-/

namespace Bindery

open Text (IsLine IsWord)

/-! ## Well-formed profiles -/

namespace Profile

/-- What reading makes sure of. -/
structure WellFormed (root : Text) (p : Profile) : Prop where
  root_eq : p.root = root
  name : IsLine p.name
  name_begin : p.name.head? ≠ some '#'
  name_chars : ∀ c ∈ p.name, Header.isNameChar c = true
  parents : ∀ q ∈ p.parents, IsLine q ∧ ',' ∉ q ∧ '{' ∉ q ∧ q ≠ p.name
  includes : ∀ i ∈ p.includes, IsLine i ∧ i.head? ≠ some '!'
  excludes : ∀ e ∈ p.excludes, IsLine e

variable {root : Text} {p : Profile}

/-- A line that is added as a pattern is an include pattern, or an exclude pattern less its mark. -/
theorem WellFormed.addPattern (hp : p.WellFormed root) {pattern : Text}
    (hpattern : IsLine pattern) : (p.addPattern pattern).WellFormed root := by
  rw [addPattern.eq_def]
  split
  · exact hp
  · next r =>
    dsimp only
    split
    · exact hp
    · next hne =>
      rw [List.isEmpty_iff] at hne
      have hbreak : ∀ c ∈ r, isLineBreak c = false := fun c hc =>
        hpattern.no_break c (List.mem_cons_of_mem _ hc)
      exact { hp with
        excludes := List.forall_mem_append.2
          ⟨hp.excludes, List.forall_mem_singleton.2 (Text.isLine_trim hne hbreak)⟩ }
  · next hmark =>
    have hinclude : pattern.head? ≠ some '!' := by
      intro hhead
      obtain ⟨r, rfl⟩ := List.head?_eq_some_iff.1 hhead
      exact hmark r rfl
    exact { hp with
      includes := List.forall_mem_append.2
        ⟨hp.includes, List.forall_mem_singleton.2 ⟨hpattern, hinclude⟩⟩ }

theorem WellFormed.foldl_addPattern (hp : p.WellFormed root) {patterns : List Text}
    (hpatterns : ∀ pattern ∈ patterns, IsLine pattern) :
    (patterns.foldl Profile.addPattern p).WellFormed root :=
  List.foldlRecOn patterns _ hp fun _ hq pattern hpattern =>
    hq.addPattern (hpatterns pattern hpattern)

end Profile

namespace Header

/-- The patterns behind the brace of a header are words. -/
theorem isLine_of_mem_patterns {h : Header} {pattern : Text} (hpattern : pattern ∈ h.patterns) :
    IsLine pattern :=
  (Text.isWord_of_mem_words hpattern).1.isLine

/-- A parent is what stands between two commas, less the blanks around it. -/
theorem exists_of_mem_parentNames {h : Header} {q : Text} (hq : q ∈ h.parentNames) :
    q ≠ [] ∧ q ≠ Text.trim h.name ∧
      ∃ parents part, h.parents = some parents ∧ part ∈ parents.splitOn ',' ∧
        q = Text.trim part := by
  rw [parentNames, List.mem_filter, List.mem_map] at hq
  obtain ⟨⟨part, hpart, rfl⟩, hkeep⟩ := hq
  simp only [Bool.and_eq_true, Bool.not_eq_true', List.isEmpty_eq_false_iff, bne_iff_ne] at hkeep
  refine ⟨hkeep.1, hkeep.2, ?_⟩
  cases hparents : h.parents with
  | some parents =>
    rw [hparents] at hpart
    exact ⟨parents, part, rfl, hpart, rfl⟩
  | none =>
    rw [hparents] at hpart
    obtain rfl := List.mem_singleton.1 hpart
    exact absurd rfl hkeep.1

theorem name_isPrefix_front (h : Header) : h.name <+: h.front := by
  rw [front]
  split
  · exact List.prefix_rfl
  · exact List.prefix_append _ _

theorem mem_front_of_mem_parents {h : Header} {parents : Text} (hparents : h.parents = some parents)
    {c : Char} (hc : c ∈ parents) : c ∈ h.front := by
  rw [front, hparents]
  exact List.mem_append_right _ (List.mem_cons_of_mem _ hc)

/-- What a header line opens is well formed. -/
theorem wellFormed_opened {line : Text} {h : Header} (hline : IsLine line)
    (hbegin : line.head? ≠ some '#') (hread : read? line = some h) (root : Text) :
    (h.opened root).WellFormed root := by
  obtain ⟨hproper, rfl⟩ := isProper_of_read? hread
  have hbreak : ∀ d ∈ h.front, isLineBreak d = false := fun d hd =>
    hline.no_break d (List.mem_append_left _ hd)
  -- The line begins with the name, so the name does not begin with a blank, nor with a mark.
  obtain ⟨c, r, hname⟩ := List.exists_cons_of_ne_nil hproper.name_ne_nil
  have hhead : (h.front ++ '{' :: h.body).head? = some c := by
    obtain ⟨more, hmore⟩ := h.name_isPrefix_front
    rw [← hmore, hname]
    rfl
  have hblank : isBlank c = false := Text.isBlank_of_head? hline.trimmed hhead
  have htrim : Text.trim h.name = c :: Text.trimRight r := by
    rw [hname, Text.trim, Text.trimLeft, List.dropWhile_cons_of_neg (by simp [hblank]),
      Text.trimRight_cons hblank]
  constructor
  case root_eq => rfl
  case name =>
    refine Text.isLine_trim (htrim ▸ List.cons_ne_nil _ _) fun d hd => hbreak d ?_
    exact h.name_isPrefix_front.mem hd
  case name_begin =>
    have hopened : (h.opened root).name.head? = some c := congrArg List.head? htrim
    rwa [hopened, ← hhead]
  case name_chars => exact fun d hd => hproper.name_chars d ((Text.isInfix_trim h.name).mem hd)
  case parents =>
    intro q hq
    obtain ⟨hne, hself, parents, part, hparents, hpart, rfl⟩ := exists_of_mem_parentNames hq
    have hmem : ∀ d ∈ Text.trim part, d ∈ part := fun d hd => (Text.isInfix_trim part).mem hd
    refine ⟨Text.isLine_trim hne fun d hd => hbreak d ?_, fun hcomma => ?_, fun hbrace => ?_, hself⟩
    · exact mem_front_of_mem_parents hparents (Text.mem_of_mem_splitOn hpart hd)
    · exact Text.not_mem_of_mem_splitOn hpart (hmem _ hcomma)
    · exact hproper.brace_notMem parents hparents (Text.mem_of_mem_splitOn hpart (hmem _ hbrace))
  case includes => exact fun _ hi => absurd hi List.not_mem_nil
  case excludes => exact fun _ he => absurd he List.not_mem_nil

end Header

/-! ## Line by line -/

namespace Scan

/-- Between two lines, all profiles are well formed, the open one included. -/
structure WellFormed (root : Text) (s : Scan) : Prop where
  profiles : ∀ f ∈ s.profiles, f.2.WellFormed root
  block : ∀ p ∈ s.block, p.WellFormed root

namespace WellFormed

variable {root : Text} {s : Scan}

theorem start : Scan.start.WellFormed root :=
  ⟨fun _ hf => absurd hf List.not_mem_nil, fun _ hp => absurd hp nofun⟩

theorem commit (hs : s.WellFormed root) : s.commit.WellFormed root := by
  unfold Scan.commit
  split
  · exact hs
  · next p hblock =>
    refine ⟨fun f hf => ?_, fun _ hp => absurd hp nofun⟩
    rcases Entries.mem_of_mem_put hf with rfl | hf
    · exact hs.block p hblock
    · exact hs.profiles f hf

theorem openBlock (hs : s.WellFormed root) {h : Header}
    (hopened : (h.opened root).WellFormed root) : (s.openBlock root h).WellFormed root := by
  have hpatterns : ∀ pattern ∈ h.patterns, IsLine pattern := fun _ hpattern =>
    Header.isLine_of_mem_patterns hpattern
  have hblock := hopened.foldl_addPattern hpatterns
  have hnext : Scan.WellFormed root
      ⟨s.commit.profiles, some (h.patterns.foldl Profile.addPattern (h.opened root))⟩ :=
    ⟨hs.commit.profiles, fun p hp => Option.some.inj hp ▸ hblock⟩
  rw [Scan.openBlock]
  split
  · exact hnext.commit
  · exact hnext

theorem bodyLine (hs : s.WellFormed root) {line : Text} (hline : IsLine line) :
    (s.bodyLine line).WellFormed root := by
  unfold Scan.bodyLine
  split
  · exact hs
  · next p hblock =>
    split
    · exact hs.commit
    · exact ⟨hs.profiles, fun q hq => Option.some.inj hq ▸ (hs.block p hblock).addPattern hline⟩

/-- A line that was trimmed keeps all profiles well formed. -/
theorem feed (hs : s.WellFormed root) {line : Text} (hline : line ≠ [] → IsLine line) :
    (Scan.feed root s line).WellFormed root := by
  unfold Scan.feed
  split
  · exact hs
  · next hsays =>
    simp only [Bool.or_eq_true, List.isEmpty_iff, beq_iff_eq, not_or] at hsays
    split
    · next h hread =>
      exact hs.openBlock (Header.wellFormed_opened (hline hsays.1) hsays.2 hread root)
    · exact hs.bodyLine (hline hsays.1)

/-- The lines of a text keep all profiles well formed. -/
theorem foldl_feed (hs : s.WellFormed root) (text : Text) :
    (((Text.lines text).map Text.trim).foldl (Scan.feed root) s).WellFormed root := by
  refine List.foldlRecOn _ _ hs fun s hs line hline => hs.feed fun hne => ?_
  obtain ⟨raw, hraw, rfl⟩ := List.mem_map.1 hline
  exact Text.isLine_trim hne (Text.not_isLineBreak_of_mem_lines hraw)

end WellFormed

end Scan

theorem Profile.wellFormed_of_mem_readText {root text : Text} {f : Text × Profile}
    (hf : f ∈ readText root text) : f.2.WellFormed root :=
  (Scan.WellFormed.start.foldl_feed text).commit.profiles f hf

/-! ## Being in a block and having one -/

/-- The state between two lines where being in a block is kept apart from the block. -/
structure TwoStateScan where
  profiles : Entries Profile
  block : Option Profile
  inside : Bool
  deriving DecidableEq, Repr

namespace TwoStateScan

/-- The state before the first line. -/
def start : TwoStateScan := ⟨[], none, false⟩

/-- Ends the open block, if there is one. -/
def commit (s : TwoStateScan) : TwoStateScan :=
  match s.block with
  | none => ⟨s.profiles, none, false⟩
  | some p => ⟨s.profiles.put p.name p, none, false⟩

/-- Adds a pattern to the open block; without one this goes wrong. -/
def addPattern (s : TwoStateScan) (pattern : Text) : Option TwoStateScan :=
  s.block.map fun p => { s with block := some (p.addPattern pattern) }

/-- Reads a header line. -/
def openBlock (s : TwoStateScan) (root : Text) (h : Header) : Option TwoStateScan := do
  let opened : TwoStateScan := ⟨s.commit.profiles, some (h.opened root), true⟩
  let filled ← h.patterns.foldlM addPattern opened
  return if h.closes then filled.commit else filled

/-- Reads a line that is neither blank nor a comment nor a header. -/
def bodyLine (s : TwoStateScan) (line : Text) : Option TwoStateScan :=
  if s.inside then
    if line = ['}'] then some s.commit else s.addPattern line
  else some s

/-- Reads a line without blanks at its ends. -/
def feed (root : Text) (s : TwoStateScan) (line : Text) : Option TwoStateScan :=
  if line.isEmpty || line.head? == some '#' then some s
  else
    match Header.read? line with
    | some h => s.openBlock root h
    | none => s.bodyLine line

/-- The profiles that a text declares for a root, unless something goes wrong. -/
def readText (root text : Text) : Option (Entries Profile) :=
  (((Text.lines text).map Text.trim).foldlM (feed root) start).map fun s => s.commit.profiles

/-- A state of a scan that is in a block exactly if it has one. -/
def ofScan (s : Scan) : TwoStateScan :=
  ⟨s.profiles, s.block, s.block.isSome⟩

theorem commit_ofScan (s : Scan) : (ofScan s).commit = ofScan s.commit := by
  obtain ⟨profiles, block⟩ := s
  cases block <;> rfl

/-- In a block patterns are added one after the other. -/
theorem foldlM_addPattern (es : Entries Profile) (patterns : List Text) (p : Profile) :
    patterns.foldlM addPattern ⟨es, some p, true⟩ =
      some ⟨es, some (patterns.foldl Profile.addPattern p), true⟩ := by
  induction patterns generalizing p with
  | nil => rfl
  | cons pattern patterns ih => exact ih (p.addPattern pattern)

theorem openBlock_ofScan (s : Scan) (root : Text) (h : Header) :
    (ofScan s).openBlock root h = some (ofScan (s.openBlock root h)) := by
  have hfilled := foldlM_addPattern s.commit.profiles h.patterns (h.opened root)
  rw [openBlock, commit_ofScan]
  change ((h.patterns.foldlM addPattern ⟨s.commit.profiles, some (h.opened root), true⟩).bind
    fun filled => some (if h.closes then filled.commit else filled)) = _
  rw [hfilled, Option.bind_some, Scan.openBlock]
  by_cases hcloses : h.closes
  · rw [if_pos hcloses, if_pos hcloses]
    rfl
  · rw [if_neg hcloses, if_neg hcloses]
    rfl

theorem bodyLine_ofScan (s : Scan) (line : Text) :
    (ofScan s).bodyLine line = some (ofScan (s.bodyLine line)) := by
  obtain ⟨profiles, block⟩ := s
  cases block with
  | none => rfl
  | some p =>
    change (if line = ['}'] then some (ofScan ⟨profiles, some p⟩).commit
      else some (ofScan ⟨profiles, some (p.addPattern line)⟩)) = _
    rw [commit_ofScan, ← apply_ite some, ← apply_ite ofScan]
    rfl

/-- A line leads from a state of a scan to one, and nothing goes wrong on it. -/
theorem feed_ofScan (root : Text) (s : Scan) (line : Text) :
    feed root (ofScan s) line = some (ofScan (Scan.feed root s line)) := by
  rw [feed, Scan.feed]
  split
  · rfl
  · cases Header.read? line with
    | some h => exact openBlock_ofScan s root h
    | none => exact bodyLine_ofScan s line

theorem foldlM_feed_ofScan (root : Text) (lines : List Text) (s : Scan) :
    lines.foldlM (feed root) (ofScan s) = some (ofScan (lines.foldl (Scan.feed root) s)) := by
  induction lines generalizing s with
  | nil => rfl
  | cons line lines ih =>
    rw [List.foldlM_cons, feed_ofScan, List.foldl_cons]
    exact ih (Scan.feed root s line)

theorem readText_eq_some (root text : Text) :
    readText root text = some (Profile.readText root text) := by
  have hscan : start = ofScan Scan.start := rfl
  rw [readText, hscan, foldlM_feed_ofScan, Option.map_some, commit_ofScan]
  rfl

end TwoStateScan

/-- **What a text declares is well formed.**  Every text is read to its end, a pattern always finds
the block that it belongs to, and each profile stands under its own name and is well formed. -/
theorem Profile.readText_wellFormed (root text : Text) :
    TwoStateScan.readText root text = some (readText root text) ∧
      ∀ f ∈ readText root text, f.1 = f.2.name ∧ f.2.WellFormed root := by
  refine ⟨TwoStateScan.readText_eq_some root text, fun f hf => ⟨?_, wellFormed_of_mem_readText hf⟩⟩
  exact (congrArg Prod.snd ((sound_readText root text).2 f hf)).symm

end Bindery

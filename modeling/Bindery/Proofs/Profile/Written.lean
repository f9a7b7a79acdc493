import Bindery.Proofs.Profile.Header
import Bindery.Proofs.Profile.Reading
import Bindery.Proofs.Text.Line

/-!
# Profiles that are written and read again

Profiles whose names, parents and patterns cannot be taken for anything else are written block by
block, and read again as they were, in their order.  Every line that is written is read as what it
was written for: a header opens its block, a pattern is added to it, and a brace ends it.

* `Profile.IsWritable`: the profiles in question, `Profile.write` their text.
* `Profile.readText_write`: the way back.
-/

namespace Bindery

open Text (IsLine)

namespace Profile

/-! ## Writing -/

/-- The header line of a profile. -/
def headerLine (p : Profile) : Text :=
  match p.parents with
  | [] => p.name ++ " \x7b".toList
  | parents => p.name ++ ": ".toList ++ List.intercalate ", ".toList parents ++ " \x7b".toList

/-- The lines of a profile. -/
def blockLines (p : Profile) : List Text :=
  p.headerLine :: (p.includes ++ p.excludes.map ('!' :: ·) ++ [['}']])

/-- The text of profiles. -/
def write (ps : List Profile) : Text :=
  (ps.flatMap blockLines).flatMap (· ++ ['\n'])

/-- Nothing in a profile can be taken for anything else when it is written. -/
structure IsWritable (root : Text) (p : Profile) : Prop where
  root_eq : p.root = root
  name : IsLine p.name
  name_begin : p.name.head? ≠ some '#'
  name_chars : ∀ c ∈ p.name, Header.isNameChar c = true
  parents : ∀ q ∈ p.parents, IsLine q ∧ ',' ∉ q ∧ '{' ∉ q ∧ q ≠ p.name
  includes : ∀ i ∈ p.includes, IsLine i ∧ i.head? ≠ some '#' ∧ i.head? ≠ some '!' ∧ i ≠ ['}'] ∧
    ¬Header.IsHeader i
  excludes : ∀ e ∈ p.excludes, IsLine e

/-! ## Header lines -/

/-- The pieces between the commas are the parents, with blanks around them. -/
theorem map_trim_splitOn {parents : List Text} (hne : parents ≠ [])
    (hparents : ∀ q ∈ parents, IsLine q ∧ ',' ∉ q) :
    ((' ' :: List.intercalate ", ".toList parents ++ [' ']).splitOn ',').map Text.trim =
      parents := by
  have hblank : isBlank ' ' = true := by decide
  induction parents with
  | nil => exact (hne rfl).elim
  | cons q parents ih =>
    rw [List.forall_mem_cons] at hparents
    obtain ⟨⟨hq, hcomma⟩, hparents⟩ := hparents
    have hcomma' : ',' ∉ ' ' :: q := by simp [hcomma]
    cases parents with
    | nil =>
      have hlast : ',' ∉ ' ' :: q ++ [' '] := by simp [hcomma]
      rw [List.intercalate_singleton, List.splitOn_eq_singleton hlast, List.map_singleton,
        List.cons_append, Text.trim_cons_of_isBlank hblank, hq.trim_concat hblank]
    | cons q' parents =>
      have hsplit : ' ' :: List.intercalate ", ".toList (q :: q' :: parents) ++ [' '] =
          (' ' :: q) ++ ',' :: (' ' :: List.intercalate ", ".toList (q' :: parents) ++ [' ']) := by
        rw [List.intercalate_cons_cons]
        simp
      rw [hsplit, List.splitOn_append_cons_self, List.splitOn_eq_singleton hcomma', List.map_append,
        ih (List.cons_ne_nil _ _) hparents, List.map_singleton, Text.trim_cons_of_isBlank hblank,
        hq.trimmed]
      rfl

/-- Only parents, commas and blanks stand between the colon and the brace. -/
theorem mem_of_mem_parents {parents : List Text} {c : Char}
    (hc : c ∈ ' ' :: List.intercalate ", ".toList parents ++ [' ']) :
    c = ' ' ∨ c = ',' ∨ ∃ q ∈ parents, c ∈ q := by
  rw [List.mem_append, List.mem_cons, List.mem_singleton] at hc
  rcases hc with (hc | hc) | hc
  · exact Or.inl hc
  · rcases Text.mem_or_of_mem_intercalate hc with hsep | hparent
    · rcases List.mem_cons.1 hsep with hcomma | hblank
      · exact Or.inr (Or.inl hcomma)
      · exact Or.inl (List.mem_singleton.1 hblank)
    · exact Or.inr (Or.inr hparent)
  · exact Or.inl hc

variable {root : Text} {p : Profile}

theorem headerLine_of_nil (hnil : p.parents = []) :
    p.headerLine = p.name ++ [' '] ++ '{' :: [] := by
  rw [headerLine, hnil]
  simp

theorem headerLine_of_ne_nil (hne : p.parents ≠ []) :
    p.headerLine = p.name ++ ':' ::
      (' ' :: List.intercalate ", ".toList p.parents ++ [' '] ++ '{' :: []) := by
  rw [headerLine]
  split
  · next hnil => exact (hne hnil).elim
  · simp

namespace IsWritable

/-- A header line is read as the profile without its patterns. -/
theorem read?_headerLine (hp : p.IsWritable root) :
    ∃ h, Header.read? p.headerLine = some h ∧ h.body = [] ∧
      h.opened root = ⟨p.name, root, p.parents, [], []⟩ := by
  have hblank : isBlank ' ' = true := by decide
  by_cases hnil : p.parents = []
  · have hchars : ∀ c ∈ p.name ++ [' '], Header.isNameChar c = true :=
      List.forall_mem_append.2 ⟨hp.name_chars, List.forall_mem_singleton.2 (by decide)⟩
    refine ⟨⟨p.name ++ [' '], none, []⟩, ?_, rfl, ?_⟩
    · rw [headerLine_of_nil hnil]
      exact Header.read?_append (by simp) hchars []
    · rw [Header.opened, hp.name.trim_concat hblank, hnil]
      rfl
  · have hbrace : '{' ∉ ' ' :: List.intercalate ", ".toList p.parents ++ [' '] := by
      intro hmem
      rcases mem_of_mem_parents hmem with hblank | hcomma | ⟨q, hq, hmem⟩
      · exact absurd hblank (by decide)
      · exact absurd hcomma (by decide)
      · exact (hp.parents q hq).2.2.1 hmem
    refine ⟨⟨p.name, some (' ' :: List.intercalate ", ".toList p.parents ++ [' ']), []⟩, ?_, rfl,
      ?_⟩
    · rw [headerLine_of_ne_nil hnil]
      exact Header.read?_append_parents hp.name.ne_nil hp.name_chars hbrace []
    · have hnames := map_trim_splitOn hnil fun q hq =>
        ⟨(hp.parents q hq).1, (hp.parents q hq).2.1⟩
      rw [Header.opened, Header.parentNames]
      dsimp only
      rw [Option.getD_some, hnames, hp.name.trimmed]
      have hkeep : (p.parents.filter fun q => !q.isEmpty && q != p.name) = p.parents := by
        refine List.filter_eq_self.2 fun q hq => ?_
        obtain ⟨hline, -, -, hself⟩ := hp.parents q hq
        simp [hline.ne_nil, hself]
      rw [hkeep]

theorem isLine_headerLine (hp : p.IsWritable root) : IsLine p.headerLine := by
  obtain ⟨more, hmore, hlast, hbreak⟩ : ∃ more, p.headerLine = p.name ++ more ∧
      more.getLast? = some '{' ∧ ∀ c ∈ more, isLineBreak c = false := by
    by_cases hnil : p.parents = []
    · refine ⟨" \x7b".toList, ?_, rfl,
        List.forall_mem_cons.2 ⟨by decide, List.forall_mem_singleton.2 (by decide)⟩⟩
      rw [headerLine_of_nil hnil]
      simp
    · refine ⟨_, headerLine_of_ne_nil hnil, ?_, ?_⟩
      · rw [← List.cons_append, List.getLast?_append]
        rfl
      · refine List.forall_mem_cons.2 ⟨by decide, List.forall_mem_append.2 ⟨fun c hc => ?_,
          List.forall_mem_singleton.2 (by decide)⟩⟩
        rcases mem_of_mem_parents hc with rfl | rfl | ⟨q, hq, hc⟩
        · decide
        · decide
        · exact (hp.parents q hq).1.no_break c hc
  rw [hmore]
  refine ⟨List.append_ne_nil_of_left_ne_nil hp.name.ne_nil more, Text.trim_eq_self ?_ ?_, ?_⟩
  · intro c hc
    rw [List.head?_append_of_ne_nil _ hp.name.ne_nil] at hc
    exact Text.isBlank_of_head? hp.name.trimmed hc
  · intro c hc
    rw [List.getLast?_append, hlast] at hc
    obtain rfl := Option.some.inj hc
    decide
  · exact List.forall_mem_append.2 ⟨hp.name.no_break, hbreak⟩

/-! ## Reading lines -/

theorem feed_headerLine (hp : p.IsWritable root) (s : Scan) :
    Scan.feed root s p.headerLine =
      ⟨s.commit.profiles, some ⟨p.name, root, p.parents, [], []⟩⟩ := by
  obtain ⟨h, hread, hbody, hopened⟩ := hp.read?_headerLine
  have hbegin : p.headerLine.head? = p.name.head? := by
    by_cases hnil : p.parents = []
    · rw [headerLine_of_nil hnil, List.append_assoc,
        List.head?_append_of_ne_nil _ hp.name.ne_nil]
    · rw [headerLine_of_ne_nil hnil, List.head?_append_of_ne_nil _ hp.name.ne_nil]
  have hcounts : Scan.isRead p.headerLine = true :=
    Scan.isRead_iff.2 ⟨hp.isLine_headerLine.ne_nil, hbegin ▸ hp.name_begin⟩
  rw [Scan.feed_of_read? hcounts hread, Scan.openBlock_of_body_eq_nil hbody, hopened]

theorem feed_include (hp : p.IsWritable root) {i : Text} (hi : i ∈ p.includes)
    (es : Entries Profile) (q : Profile) :
    Scan.feed root ⟨es, some q⟩ i = ⟨es, some { q with includes := q.includes ++ [i] }⟩ := by
  obtain ⟨hline, hcomment, hexclude, hclose, hheader⟩ := hp.includes i hi
  rw [Scan.feed_pattern (Scan.isRead_iff.2 ⟨hline.ne_nil, hcomment⟩)
    (Header.read?_eq_none_iff.2 hheader) hclose]
  have hadd : q.addPattern i = { q with includes := q.includes ++ [i] } := by
    rw [addPattern.eq_def]
    split
    · exact (hline.ne_nil rfl).elim
    · exact (hexclude rfl).elim
    · rfl
  rw [hadd]

theorem feed_exclude (hp : p.IsWritable root) {e : Text} (he : e ∈ p.excludes)
    (es : Entries Profile) (q : Profile) :
    Scan.feed root ⟨es, some q⟩ ('!' :: e) =
      ⟨es, some { q with excludes := q.excludes ++ [e] }⟩ := by
  have hline := hp.excludes e he
  have hheader : Header.read? ('!' :: e) = none := rfl
  rw [Scan.feed_pattern (Scan.isRead_iff.2 ⟨List.cons_ne_nil _ _, by simp⟩) hheader (by simp),
    addPattern, hline.trimmed]
  simp [hline.ne_nil]

/-! ## Reading blocks -/

theorem foldl_feed_includes (hp : p.IsWritable root) (es : Entries Profile) (q : Profile)
    {patterns : List Text} (hpatterns : ∀ i ∈ patterns, i ∈ p.includes) :
    patterns.foldl (Scan.feed root) ⟨es, some q⟩ =
      ⟨es, some { q with includes := q.includes ++ patterns }⟩ := by
  induction patterns generalizing q with
  | nil => simp
  | cons i patterns ih =>
    rw [List.forall_mem_cons] at hpatterns
    rw [List.foldl_cons, hp.feed_include hpatterns.1, ih _ hpatterns.2]
    simp

theorem foldl_feed_excludes (hp : p.IsWritable root) (es : Entries Profile) (q : Profile)
    {patterns : List Text} (hpatterns : ∀ e ∈ patterns, e ∈ p.excludes) :
    (patterns.map ('!' :: ·)).foldl (Scan.feed root) ⟨es, some q⟩ =
      ⟨es, some { q with excludes := q.excludes ++ patterns }⟩ := by
  induction patterns generalizing q with
  | nil => simp
  | cons e patterns ih =>
    rw [List.forall_mem_cons] at hpatterns
    rw [List.map_cons, List.foldl_cons, hp.feed_exclude hpatterns.1, ih _ hpatterns.2]
    simp

/-- **A block.** The lines of a profile are read as the profile. -/
theorem foldl_feed_blockLines (hp : p.IsWritable root) (es : Entries Profile) :
    p.blockLines.foldl (Scan.feed root) ⟨es, none⟩ = ⟨es.put p.name p, none⟩ := by
  rw [blockLines, List.foldl_cons, hp.feed_headerLine, List.foldl_append, List.foldl_append,
    hp.foldl_feed_includes _ _ fun i hi => hi, hp.foldl_feed_excludes _ _ fun e he => he]
  obtain rfl := hp.root_eq
  rfl

/-- The lines of a profile are lines, and trimming leaves them as they are. -/
theorem isLine_of_mem_blockLines (hp : p.IsWritable root) :
    ∀ line ∈ p.blockLines, IsLine line := by
  have hmark : ∀ e ∈ p.excludes, IsLine ('!' :: e) := by
    intro e he
    have hline := hp.excludes e he
    refine ⟨List.cons_ne_nil _ _, Text.trim_eq_self ?_ ?_,
      List.forall_mem_cons.2 ⟨by decide, hline.no_break⟩⟩
    · intro c hc
      obtain rfl := Option.some.inj hc
      decide
    · intro c hc
      rw [List.getLast?_cons_of_ne_nil hline.ne_nil] at hc
      exact Text.isBlank_of_getLast? hline.trimmed hc
  rw [blockLines, List.forall_mem_cons, List.forall_mem_append, List.forall_mem_append]
  refine ⟨hp.isLine_headerLine, ⟨fun i hi => (hp.includes i hi).1, fun line hline => ?_⟩,
    List.forall_mem_singleton.2 (by decide)⟩
  obtain ⟨e, he, rfl⟩ := List.mem_map.1 hline
  exact hmark e he

end IsWritable

/-- The lines of profiles are read as the profiles, one after the other. -/
theorem foldl_feed_flatMap {root : Text} {ps : List Profile} (hps : ∀ p ∈ ps, p.IsWritable root)
    (hnames : (ps.map Profile.name).Nodup) (es : Entries Profile)
    (hes : ∀ p ∈ ps, p.name ∉ es.names) :
    (ps.flatMap blockLines).foldl (Scan.feed root) ⟨es, none⟩ =
      ⟨es ++ ps.map fun p => (p.name, p), none⟩ := by
  induction ps generalizing es with
  | nil => simp
  | cons p ps ih =>
    rw [List.forall_mem_cons] at hps hes
    rw [List.map_cons, List.nodup_cons] at hnames
    have hnext : ∀ q ∈ ps, q.name ∉ Entries.names (es ++ [(p.name, p)]) := by
      intro q hq
      rw [Entries.names, List.map_append, List.mem_append, not_or]
      refine ⟨hes.2 q hq, fun hmem => hnames.1 ?_⟩
      have hname : q.name = p.name := List.mem_singleton.1 hmem
      rw [← hname]
      exact List.mem_map_of_mem hq
    rw [List.flatMap_cons, List.foldl_append, hps.1.foldl_feed_blockLines,
      Entries.put_of_notMem hes.1, ih hps.2 hnames.2 _ hnext, List.append_assoc]
    rfl

/-- **Written profiles are read again**, as they were and in their order. -/
theorem readText_write {root : Text} {ps : List Profile} (hps : ∀ p ∈ ps, p.IsWritable root)
    (hnames : (ps.map Profile.name).Nodup) :
    readText root (write ps) = ps.map fun p => (p.name, p) := by
  have hlines : ∀ line ∈ ps.flatMap blockLines, IsLine line := by
    intro line hline
    obtain ⟨p, hp, hline⟩ := List.mem_flatMap.1 hline
    exact (hps p hp).isLine_of_mem_blockLines line hline
  have htrim : (ps.flatMap blockLines).map Text.trim = ps.flatMap blockLines :=
    (List.map_congr_left fun line hline => (hlines line hline).trimmed).trans (List.map_id _)
  rw [readText, write, Text.lines_flatMap fun line hline => (hlines line hline).no_break, htrim,
    Scan.start, foldl_feed_flatMap hps hnames [] fun _ _ => List.not_mem_nil]
  rfl

/-! ## Profiles that look like something else -/

/-- A profile whose parents and patterns have colons, braces and marks, and an empty one. -/
def trickyProfiles : List Profile :=
  [⟨"web #1".toList, "/proj".toList, ["base:".toList, "\x7d".toList],
      ["**/*.\x7bts,tsx\x7d".toList, "a: b".toList, "\x7d\x7d".toList],
      ["!kept".toList, "#x \x7b".toList, "\x7d".toList]⟩,
    ⟨"tiny".toList, "/proj".toList, [], [], []⟩]

/-- They are read again as they were. -/
theorem readText_write_trickyProfiles :
    (∀ p ∈ trickyProfiles, p.IsWritable "/proj".toList) ∧
      (trickyProfiles.map Profile.name).Nodup ∧
      write trickyProfiles = ("web #1: base:, \x7d \x7b\n**/*.\x7bts,tsx\x7d\na: b\n\x7d\x7d\n" ++
        "!!kept\n!#x \x7b\n!\x7d\n\x7d\ntiny \x7b\n\x7d\n").toList ∧
      readText "/proj".toList (write trickyProfiles) =
        trickyProfiles.map fun p => (p.name, p) := by
  have hwritable : ∀ p ∈ trickyProfiles, p.IsWritable "/proj".toList := by
    refine List.forall_mem_cons.2 ⟨?_, List.forall_mem_singleton.2 ?_⟩
    · exact ⟨rfl, by decide, by decide, List.all_eq_true.1 (by decide), by decide, by decide,
        by decide⟩
    · exact ⟨rfl, by decide, by decide, List.all_eq_true.1 (by decide), nofun, nofun, nofun⟩
  have hnames : (trickyProfiles.map Profile.name).Nodup := by decide
  exact ⟨hwritable, hnames, by decide, readText_write hwritable hnames⟩

end Profile

end Bindery

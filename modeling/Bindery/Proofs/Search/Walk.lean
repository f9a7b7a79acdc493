import Bindery.Proofs.Files.Named
import Bindery.Proofs.Outcome
import Bindery.Proofs.Path.Resolved
import Bindery.Search.Matcher

/-!
# Walking down from a root

A walk that passes over directories and leaves out ignored files finds what a walk without rules
finds, less what lies below a directory that is passed over and what is ignored itself.  So rules
and patterns for directories amount to a filter on the paths that lead to the files from the root.

* `Matcher.passesOver`, `Matcher.keeps`: the directories and the files in question.
* `IgnoreRule.mem_ancestors_iff`: the directories above a file.
* `Matcher.exists_filesBelow`: what a walk without rules finds.
* `Matcher.filesBelow_eq_filter`: any other walk.
-/

namespace Bindery

open Bindery.Path Bindery.Search

/-- The directories above a file are the beginnings of its names. -/
theorem IgnoreRule.mem_ancestors_iff {names : List Text} (hne : names ≠ [])
    (hnames : ∀ n ∈ names, IsName n) {d : Text} :
    d ∈ ancestors (List.intercalate ['/'] names) ↔
      ∃ above rest, above ≠ [] ∧ rest ≠ [] ∧ names = above ++ rest ∧
        d = List.intercalate ['/'] above := by
  rw [ancestors, List.splitOn_intercalate '/' (fun n hn => (hnames n hn).no_slash) hne,
    List.mem_map]
  constructor
  · rintro ⟨i, hi, rfl⟩
    rw [List.mem_range] at hi
    refine ⟨names.take (i + 1), names.drop (i + 1), ?_, ?_, (List.take_append_drop _ _).symm, rfl⟩
    · rw [Ne, List.take_eq_nil_iff]
      exact not_or.2 ⟨Nat.succ_ne_zero i, hne⟩
    · rw [Ne, List.drop_eq_nil_iff]
      omega
  · rintro ⟨above, rest, habove, hrest, rfl, rfl⟩
    have hpos := List.length_pos_iff.2 habove
    have hpos' := List.length_pos_iff.2 hrest
    refine ⟨above.length - 1, ?_, ?_⟩
    · rw [List.mem_range, List.length_append]
      omega
    · rw [Nat.sub_add_cancel hpos, List.take_left]

namespace Matcher

variable {h : Host} {root directory : Text} {names : List Text}
  {rules : Option (List IgnoreRule)} {pruned : Option Regex}

/-! ## One entry -/

/-- Whether a walk passes over a directory, given the path that leads to it from the root. -/
def passesOver (rules : Option (List IgnoreRule)) (pruned : Option Regex) (rel : Text) : Bool :=
  isMatched pruned rel || entryIgnored rules rel true

/-- Whether a walk keeps a file, given the path that leads to it from the root: it does not pass
over a directory above the file, and does not ignore the file itself. -/
def keeps (rules : Option (List IgnoreRule)) (pruned : Option Regex) (rel : Text) : Bool :=
  (IgnoreRule.ancestors rel).all (!passesOver rules pruned ·) && !entryIgnored rules rel false

/-- Whether a walk keeps the file at a path below a root. -/
def keepsPath (h : Host) (root : Text) (rules : Option (List IgnoreRule)) (pruned : Option Regex)
    (path : Text) : Bool :=
  (h.relativeTo path root).toOption.all (keeps rules pruned)

/-- Whether an entry of a directory is a file. -/
def isFileEntry (h : Host) (directory : Text) (e : Text × Node) : Bool :=
  e.2.isFile || h.isFile (Path.join directory e.1)

/-- What a walk finds at an entry of a directory. -/
def filesAt (h : Host) (root : Text) (rules : Option (List IgnoreRule)) (pruned : Option Regex)
    (depth : Nat) (directory : Text) (e : Text × Node) : Except Fault (List Text) := do
  let path := Path.normalize (Path.join directory e.1)
  let rel ← h.relativeTo path root
  if e.2.isDirectory then
    if passesOver rules pruned rel then return []
    filesBelow h root rules pruned depth path
  else if isFileEntry h directory e && !entryIgnored rules rel false then return [path]
  else return []

/-- A directory that cannot be listed has nothing in it; one that can is walked entry by entry. -/
theorem filesBelow_succ (depth : Nat) :
    filesBelow h root rules pruned (depth + 1) directory =
      match h.entries directory with
      | .error (.file _) => .ok []
      | .error e => .error e
      | .ok es => Except.map List.flatten <| (es.filter fun e => !isHidden e.1).mapM
          (filesAt h root rules pruned depth directory) := by
  rw [filesBelow]
  rfl

theorem filesAt_of_relativeTo {depth : Nat} {e : Text × Node} {rel : Text}
    (hrel : h.relativeTo (Path.normalize (Path.join directory e.1)) root = .ok rel) :
    filesAt h root rules pruned depth directory e =
      if e.2.isDirectory then
        if passesOver rules pruned rel then .ok []
        else filesBelow h root rules pruned depth (Path.normalize (Path.join directory e.1))
      else if isFileEntry h directory e && !entryIgnored rules rel false then
        .ok [Path.normalize (Path.join directory e.1)]
      else .ok [] := by
  rw [filesAt, hrel]
  rfl

/-! ## Walks without rules -/

/-- A file below a place: names that are not hidden lead to it. -/
def IsBelow (root : Text) (names : List Text) (f : Text) : Prop :=
  ∃ more, more ≠ [] ∧ (∀ n ∈ more, IsName n ∧ isHidden n = false) ∧
    f = placeBelow root (names ++ more)

theorem null_notMem_placeBelow {n : Text} (hnames : ∀ m ∈ names, IsName m) (hn : IsName n)
    (hnull : '\x00' ∉ placeBelow root names) : '\x00' ∉ placeBelow root (names ++ [n]) := by
  rw [← normalize_join_placeBelow root hnames hn]
  intro hmem
  rcases mem_of_mem_normalize hmem with hslash | hdot | hmem
  · exact absurd hslash (by decide)
  · exact absurd hdot (by decide)
  rcases mem_of_mem_join hmem with hslash | hmem | hmem
  · exact absurd hslash (by decide)
  · exact hnull hmem
  · exact hn.no_null hmem

/-- A walk without rules has a result, and what it finds lies below the place where it begins. -/
theorem exists_filesBelow (hnamed : h.IsNamed) (hwhere : h.KnowsWhere root) (depth : Nat)
    (hnames : ∀ n ∈ names, IsName n) (hnull : '\x00' ∉ placeBelow root names) :
    ∃ files, filesBelow h root none none depth (placeBelow root names) = .ok files ∧
      ∀ f ∈ files, IsBelow root names f := by
  induction depth generalizing names with
  | zero => exact ⟨[], rfl, nofun⟩
  | succ depth ih =>
    rw [filesBelow_succ]
    cases hes : h.entries (placeBelow root names) with
    | error e =>
      obtain ⟨cause, rfl⟩ := (Host.entries_fault hes).resolve_right fun h => hnull h.2
      exact ⟨[], rfl, nofun⟩
    | ok es =>
      have hentry : ∀ e ∈ es.filter fun e => !isHidden e.1,
          ∃ fs, filesAt h root none none depth (placeBelow root names) e = .ok fs ∧
            ∀ f ∈ fs, IsBelow root names f := by
        intro e he
        obtain ⟨he, hhidden⟩ := List.mem_filter.1 he
        rw [Bool.not_eq_true'] at hhidden
        have hn := hnamed.isName_of_mem_entries hes e he
        have hall := List.forall_mem_append.2 ⟨hnames, List.forall_mem_singleton.2 hn⟩
        have hplace := normalize_join_placeBelow root hnames hn
        have hrel := Host.relativeTo_placeBelow hwhere (by simp : names ++ [e.1] ≠ []) hall
        rw [filesAt_of_relativeTo (hplace ▸ hrel), hplace]
        split
        · obtain ⟨fs, hfs, hbelow⟩ := ih hall (null_notMem_placeBelow hnames hn hnull)
          refine ⟨fs, hfs, fun f hf => ?_⟩
          obtain ⟨more, -, hmore, rfl⟩ := hbelow f hf
          exact ⟨e.1 :: more, by simp, List.forall_mem_cons.2 ⟨⟨hn, hhidden⟩, hmore⟩, by simp⟩
        · have hself : IsBelow root names (placeBelow root (names ++ [e.1])) :=
            ⟨[e.1], by simp, List.forall_mem_singleton.2 ⟨hn, hhidden⟩, rfl⟩
          split
          · exact ⟨_, rfl, List.forall_mem_singleton.2 hself⟩
          · exact ⟨[], rfl, nofun⟩
      obtain ⟨files, hfiles, hmem⟩ := exists_flatten_eq_ok _ _ fun e he =>
        (hentry e he).imp fun _ h => h.1
      refine ⟨files, hfiles, fun f hf => ?_⟩
      obtain ⟨e, he, fs, hfs, hf⟩ := (hmem f).1 hf
      obtain ⟨fs', hfs', hbelow⟩ := hentry e he
      obtain rfl := Except.ok.inj (hfs.symm.trans hfs')
      exact hbelow f hf

/-- The same from the root itself. -/
theorem exists_filesBelow_root (hnamed : h.IsNamed) (hwhere : h.KnowsWhere root) (depth : Nat)
    (hnull : '\x00' ∉ root) :
    ∃ files, filesBelow h root none none depth root = .ok files ∧
      ∀ f ∈ files, IsBelow root [] f :=
  @exists_filesBelow h root [] hnamed hwhere depth nofun hnull

/-! ## Walks with rules -/

/-- A walk that comes to a place has passed over no directory on the way. -/
def IsOpen (rules : Option (List IgnoreRule)) (pruned : Option Regex) (names : List Text) : Prop :=
  ∀ above rest, above ≠ [] → names = above ++ rest →
    passesOver rules pruned (List.intercalate ['/'] above) = false

/-- A file in a directory that a walk comes to is kept unless it is ignored. -/
theorem keeps_of_isOpen {n : Text} (hnames : ∀ m ∈ names ++ [n], IsName m)
    (hopen : IsOpen rules pruned names) :
    keeps rules pruned (List.intercalate ['/'] (names ++ [n])) =
      !entryIgnored rules (List.intercalate ['/'] (names ++ [n])) false := by
  have hall : (IgnoreRule.ancestors (List.intercalate ['/'] (names ++ [n]))).all
      (!passesOver rules pruned ·) = true := by
    rw [List.all_eq_true]
    intro d hd
    obtain ⟨above, rest, habove, hrest, hsplit, rfl⟩ :=
      (IgnoreRule.mem_ancestors_iff (by simp) hnames).1 hd
    obtain ⟨init, last, rfl⟩ := (List.eq_nil_or_concat' rest).resolve_left hrest
    rw [← List.append_assoc] at hsplit
    rw [hopen above init habove (List.append_inj' hsplit rfl).1]
    rfl
  rw [keeps, hall, Bool.true_and]

/-- Nothing below a directory that is passed over is kept. -/
theorem keeps_of_passesOver {more : List Text} (hnames : ∀ m ∈ names ++ more, IsName m)
    (hne : names ≠ []) (hmore : more ≠ [])
    (hpasses : passesOver rules pruned (List.intercalate ['/'] names) = true) :
    keeps rules pruned (List.intercalate ['/'] (names ++ more)) = false := by
  have hmem := (IgnoreRule.mem_ancestors_iff (List.append_ne_nil_of_left_ne_nil hne more) hnames).2
    ⟨names, more, hne, hmore, rfl, rfl⟩
  rw [keeps, Bool.and_eq_false_iff, List.all_eq_false]
  exact Or.inl ⟨_, hmem, by simp [hpasses]⟩

theorem keepsPath_placeBelow (hwhere : h.KnowsWhere root) (hne : names ≠ [])
    (hnames : ∀ n ∈ names, IsName n) :
    keepsPath h root rules pruned (placeBelow root names) =
      keeps rules pruned (List.intercalate ['/'] names) := by
  rw [keepsPath, Host.relativeTo_placeBelow hwhere hne hnames]
  rfl

/-- From a place that it comes to, a walk finds what a walk without rules finds and it keeps. -/
theorem filesBelow_placeBelow_eq_filter (hnamed : h.IsNamed) (hwhere : h.KnowsWhere root)
    (depth : Nat) (hnames : ∀ n ∈ names, IsName n) (hopen : IsOpen rules pruned names) :
    filesBelow h root rules pruned depth (placeBelow root names) =
      (filesBelow h root none none depth (placeBelow root names)).map
        (List.filter (keepsPath h root rules pruned)) := by
  induction depth generalizing names with
  | zero => rfl
  | succ depth ih =>
    rw [filesBelow_succ, filesBelow_succ]
    cases hes : h.entries (placeBelow root names) with
    | error e => cases e <;> rfl
    | ok es =>
      have hnull := Host.null_notMem_of_nodeAt (Host.entries_eq_ok_iff.1 hes)
      refine flatten_mapM_eq_filter fun e he => ?_
      have hn := hnamed.isName_of_mem_entries hes e (List.mem_of_mem_filter he)
      have hall := List.forall_mem_append.2 ⟨hnames, List.forall_mem_singleton.2 hn⟩
      have hne : names ++ [e.1] ≠ [] := by simp
      have hplace := normalize_join_placeBelow root hnames hn
      have hrel := Host.relativeTo_placeBelow hwhere hne hall
      rw [filesAt_of_relativeTo (hplace ▸ hrel), filesAt_of_relativeTo (hplace ▸ hrel), hplace]
      have hself : keepsPath h root rules pruned (placeBelow root (names ++ [e.1])) =
          keeps rules pruned (List.intercalate ['/'] (names ++ [e.1])) :=
        keepsPath_placeBelow hwhere hne hall
      by_cases hdir : e.2.isDirectory = true
      · rw [if_pos hdir, if_pos hdir, if_neg (show ¬passesOver none none _ = true from nofun)]
        by_cases hpasses : passesOver rules pruned (List.intercalate ['/'] (names ++ [e.1])) = true
        · -- All that is below has the directory above it.
          obtain ⟨fs, hfs, hbelow⟩ :=
            exists_filesBelow hnamed hwhere depth hall (null_notMem_placeBelow hnames hn hnull)
          rw [if_pos hpasses, hfs]
          refine congrArg Except.ok (List.filter_eq_nil_iff.2 fun f hf => ?_).symm
          obtain ⟨more, hmore, hmoreNames, rfl⟩ := hbelow f hf
          have hmany := List.forall_mem_append.2 ⟨hall, fun n hn => (hmoreNames n hn).1⟩
          rw [keepsPath_placeBelow hwhere (by simp) hmany,
            keeps_of_passesOver hmany hne hmore hpasses]
          exact Bool.false_ne_true
        · rw [if_neg hpasses]
          refine ih hall fun above rest habove hsplit => ?_
          by_cases hrest : rest = []
          · rw [hrest, List.append_nil] at hsplit
            rw [← hsplit]
            simpa using hpasses
          · obtain ⟨init, last, rfl⟩ := (List.eq_nil_or_concat' rest).resolve_left hrest
            rw [← List.append_assoc] at hsplit
            exact hopen above init habove (List.append_inj' hsplit rfl).1
      · rw [if_neg hdir, if_neg hdir]
        rw [keeps_of_isOpen hall hopen] at hself
        cases hfile : isFileEntry h (placeBelow root names) e with
        | false => rfl
        | true =>
          cases hignored : entryIgnored rules (List.intercalate ['/'] (names ++ [e.1])) false with
          | false =>
            rw [hignored] at hself
            exact congrArg Except.ok (by simp [hself])
          | true =>
            rw [hignored] at hself
            exact congrArg Except.ok (by simp [hself])

/-- **Rules are filters.** A walk down from any root finds what a walk without rules finds and it
keeps; where one has no result, neither has the other. -/
theorem filesBelow_eq_filter (hnamed : h.IsNamed) (root : Text) (rules : Option (List IgnoreRule))
    (pruned : Option Regex) (depth : Nat) :
    filesBelow h root rules pruned depth root =
      (filesBelow h root none none depth root).map
        (List.filter (keepsPath h root rules pruned)) := by
  by_cases hwhere : h.KnowsWhere root
  · have hopen : IsOpen rules pruned [] := fun above rest habove hsplit =>
      absurd (List.append_eq_nil_iff.1 hsplit.symm).1 habove
    exact filesBelow_placeBelow_eq_filter hnamed hwhere depth (List.forall_mem_nil _) hopen
  · -- No entry can be told from the root, so no walk gets beyond the first one.
    cases depth with
    | zero => rfl
    | succ depth =>
      rw [filesBelow_succ, filesBelow_succ]
      cases hes : h.entries root with
      | error e => cases e <;> rfl
      | ok es =>
        refine flatten_mapM_eq_filter fun e he => ?_
        rw [filesAt, filesAt, Host.relativeTo_of_not_knowsWhere hwhere (normalize_ne_nil _)]
        rfl

end Matcher

end Bindery

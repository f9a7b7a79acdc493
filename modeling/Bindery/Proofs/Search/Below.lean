import Bindery.Proofs.Search.Expand
import Bindery.Proofs.Search.Found

/-!
# Staying below the root

Whatever the tree, links or not, expanding patterns gives files whose paths lead from the root
downwards, as long as no alternative of a pattern is absolute or leads upwards.  Only the slashes in
front of a pattern are dropped, not those that come to be in front of an alternative; such an
alternative counts from the root of the file system.

* `Matcher.IsFileBelow`: a file at the root or below it.
* `Matcher.isFileBelow_of_mem_expand`: what is expanded below a root.
* `Matcher.mem_candidates_of_absolute`: what an absolute alternative finds.
-/

namespace Bindery.Matcher

open Bindery.Path Bindery.Search

/-- A path leads to a file; it is the root or goes on below it by names. -/
structure IsFileBelow (h : Host) (root f : Text) : Prop where
  isFile : h.isFile f = true
  below : f = root ∨ ∃ names, names ≠ [] ∧ (∀ n ∈ names, IsName n) ∧
    f = Path.join root (List.intercalate ['/'] names)

/-- No alternative of a pattern has `..` among its components. -/
def NeverAscends (p : Text) : Prop :=
  ∀ alt ∈ Glob.expandBraces p, ['.', '.'] ∉ Path.components alt

/-- No alternative of a pattern, without the slashes in front of the pattern, is absolute. -/
def IsRelative (p : Text) : Prop :=
  ∀ alt ∈ Glob.expandBraces (belowRoot p), isAbsolute alt = false

instance (p : Text) : Decidable (NeverAscends p) :=
  inferInstanceAs (Decidable (∀ _ ∈ _, _))

instance (p : Text) : Decidable (IsRelative p) :=
  inferInstanceAs (Decidable (∀ _ ∈ _, _))

variable {h : Host} {front p : Text} {names : List Text}

/-! ## Alternatives -/

/-- The slashes in front of a pattern are not part of any component. -/
theorem NeverAscends.belowRoot (hp : NeverAscends p) :
    ∀ alt ∈ Glob.expandBraces (belowRoot p), ['.', '.'] ∉ Path.components alt := by
  intro alt halt
  have hslashes : ∀ c ∈ p.takeWhile (· == '/'), c = '/' := fun c hc => by
    simpa using List.mem_takeWhile_imp hc
  have hbrace : '{' ∉ p.takeWhile (· == '/') := fun hmem =>
    absurd (hslashes '{' hmem) (by decide)
  have happ : p.takeWhile (· == '/') ++ Matcher.belowRoot p = p := List.takeWhile_append_dropWhile
  have hmem : p.takeWhile (· == '/') ++ alt ∈ Glob.expandBraces p := by
    have hall := Glob.expandBraces_append hbrace (Matcher.belowRoot p)
    rw [happ] at hall
    rw [hall]
    exact List.mem_map_of_mem halt
  have habove := hp _ hmem
  rwa [components_slashes_append hslashes] at habove

/-- A pattern that never ascends does not do so where its braces are left as they are. -/
theorem NeverAscends.notMem_components (hp : NeverAscends p) :
    ['.', '.'] ∉ Path.components (Matcher.belowRoot p) := by
  intro hmem
  have hsplit := List.mem_of_mem_filter hmem
  have hne : Matcher.belowRoot p ≠ [] := by
    intro hnil
    rw [hnil] at hsplit
    exact absurd hsplit (by decide)
  obtain ⟨alt, halt, -, habove⟩ := Glob.exists_alternative_of_mem_splitOn hne hsplit (by simp)
  exact hp.belowRoot alt halt (List.mem_filter.2 ⟨habove, rfl⟩)

/-! ## Normalized paths -/

/-- A file whose components begin with the names of the root is below the root. -/
theorem isFileBelow_normalize (hfront : IsFront front) (hnames : ∀ n ∈ names, IsName n) {q : Text}
    {more : List Text} (hroot : rootOf q = front) (hcomps : Path.components q = names ++ more)
    (hmore : ['.', '.'] ∉ more) (hfile : h.isFile (normalize q) = true) :
    IsFileBelow h (ofNames front names) (normalize q) := by
  have habs := isAbsolute_of_rootOf hfront hroot
  have habove : ['.', '.'] ∉ Path.components q := by
    rw [hcomps, List.mem_append, not_or]
    exact ⟨fun hmem => (hnames _ hmem).ne_above rfl, hmore⟩
  have hnull : '\x00' ∉ normalize q := by
    obtain ⟨bytes, stamp, hn⟩ := Host.isFile_iff.1 hfile
    exact Host.null_notMem_of_nodeAt hn
  have hall := Host.isName_of_mem_components habs habove hnull
  have hkeep : names.filter (· != ['.']) = names := by
    rw [List.filter_eq_self]
    intro n hn
    simpa using (hnames n hn).ne_here
  have hpath : normalize q = ofNames front (names ++ more.filter (· != ['.'])) := by
    rw [normalize_eq_ofNames habs habove, hroot, hcomps, List.filter_append, hkeep]
  rw [hcomps, List.filter_append, hkeep] at hall
  have hrest := (List.forall_mem_append.1 hall).2
  refine ⟨hfile, ?_⟩
  rw [hpath]
  by_cases hnil : more.filter (· != ['.']) = []
  · left
    rw [hnil, List.append_nil]
  · refine Or.inr ⟨_, hnil, hrest, ?_⟩
    rw [join_ofNames hfront hnames (isAbsolute_intercalate hrest), ofNames_append_intercalate hnil]

/-! ## Searches -/

/-- The files of a pattern are what the search for it finds, normalized. -/
theorem exists_path_of_mem_filesMatching {pattern f : Text} {files : List Text}
    (hfiles : filesMatching h pattern = .ok files) (hf : f ∈ files) :
    ∃ ps q, paths h false pattern = .ok ps ∧ q ∈ ps ∧ h.isFile q = true ∧ f = normalize q := by
  obtain ⟨ps, hps, rfl⟩ := map_eq_ok_iff.1 hfiles
  obtain ⟨q, hq, rfl⟩ := List.mem_map.1 hf
  obtain ⟨hq, hfile⟩ := List.mem_filter.1 hq
  exact ⟨ps, q, hps, hq, hfile, rfl⟩

/-- What a search below an escaped root finds is below the root. -/
theorem isFileBelow_of_mem_filesMatching (hnamed : h.IsNamed) (hfront : IsFront front)
    (hnames : ∀ n ∈ names, IsName n) {pattern : Text} {cs : List Text}
    (hroot : rootOf pattern = front)
    (hcomps : Path.components pattern = names.map NamePattern.escape ++ cs)
    (hcs : ['.', '.'] ∉ cs) {files : List Text} (hfiles : filesMatching h pattern = .ok files) :
    ∀ f ∈ files, IsFileBelow h (ofNames front names) f := by
  have habs := isAbsolute_of_rootOf hfront hroot
  intro f hf
  obtain ⟨ps, q, hps, hq, hfile, rfl⟩ := exists_path_of_mem_filesMatching hfiles hf
  have hstands := (paths_outcome hnamed false habs).sound ps hps q hq
  obtain ⟨xs, more, hsplit, hxs, -⟩ := stands_append_iff.1 (hcomps ▸ hstands.stands)
  obtain rfl := stands_escape_iff.1 hxs
  -- Only what the pattern spells out itself could be `..`, and it does not.
  have habove : ['.', '.'] ∉ Path.components q := by
    intro hmem
    rcases hstands.parts _ hmem with hname | hpart
    · exact hname.ne_above rfl
    · rw [hcomps, List.mem_append] at hpart
      rcases hpart with hescaped | hpart
      · exact (isName_escaped hnames _ hescaped).ne_above rfl
      · exact hcs hpart
  refine isFileBelow_normalize hfront hnames (hstands.root.trans hroot) hsplit ?_
    (Host.isFile_normalize (hstands.isAbsolute_eq.trans habs) habove hfile)
  exact fun hmem => habove (hsplit ▸ List.mem_append_right _ hmem)

/-- The patterns that the alternatives become are searched for in turn. -/
theorem mem_filesMatchingAny {patterns files : List Text}
    (hfiles : filesMatchingAny h patterns = .ok files) (f : Text) :
    f ∈ files ↔ ∃ q ∈ patterns, ∃ found, filesMatching h q = .ok found ∧ f ∈ found := by
  obtain ⟨found, hfound, rfl⟩ := map_eq_ok_iff.1 hfiles
  exact mem_flatten_of_mapM_eq_ok hfound f

/-- What the alternatives find, joined to the escaped root with more components behind them. -/
theorem isFileBelow_of_mem_filesMatchingAny (hnamed : h.IsNamed) (hfront : IsFront front)
    (hnames : ∀ n ∈ names, IsName n) (habove : NeverAscends p) (hrelative : IsRelative p)
    (more : List Text) {search : Text → Text} (hmore : ['.', '.'] ∉ more)
    (hsearch : ∀ alt, isAbsolute alt = false → rootOf (search alt) = front ∧
      Path.components (search alt) = names.map NamePattern.escape ++ (Path.components alt ++ more))
    {files : List Text}
    (hfiles : filesMatchingAny h ((Glob.expandBraces (belowRoot p)).map search) = .ok files) :
    ∀ f ∈ files, IsFileBelow h (ofNames front names) f := by
  intro f hf
  obtain ⟨q, hq, found, hfound, hf⟩ := (mem_filesMatchingAny hfiles f).1 hf
  obtain ⟨alt, halt, rfl⟩ := List.mem_map.1 hq
  obtain ⟨hroot, hcomps⟩ := hsearch alt (hrelative alt halt)
  refine isFileBelow_of_mem_filesMatching hnamed hfront hnames hroot hcomps ?_ hfound f hf
  rw [List.mem_append, not_or]
  exact ⟨habove.belowRoot alt halt, hmore⟩

/-- A relative pattern joined to the escaped root has the components of both. -/
theorem join_escape (hfront : IsFront front) (hnames : ∀ n ∈ names, IsName n) {alt : Text}
    (halt : isAbsolute alt = false) :
    rootOf (Path.join (NamePattern.escape (ofNames front names)) alt) = front ∧
      Path.components (Path.join (NamePattern.escape (ofNames front names)) alt) =
        names.map NamePattern.escape ++ Path.components alt := by
  have hescaped := isName_escaped hnames
  rw [NamePattern.escape_ofNames hfront]
  constructor
  · rw [rootOf_join (isAbsolute_ofNames hfront _) halt, rootOf_ofNames hfront hescaped]
  · rw [components_join _ halt, components_ofNames hfront hescaped]

theorem isFileBelow_of_mem_candidates (hnamed : h.IsNamed) (hfront : IsFront front)
    (hnames : ∀ n ∈ names, IsName n) (habove : NeverAscends p) (hrelative : IsRelative p)
    {files : List Text} (hfiles : candidates h (ofNames front names) p = .ok files) :
    ∀ f ∈ files, IsFileBelow h (ofNames front names) f := by
  rw [candidates] at hfiles
  dsimp only at hfiles
  split at hfiles
  · refine isFileBelow_of_mem_filesMatchingAny hnamed hfront hnames habove hrelative
      ["**".toList, "*".toList] (by decide) (fun alt halt => ?_) hfiles
    obtain ⟨hroot, hcomps⟩ := join_escape hfront hnames halt
    have hany : rootOf (Path.join _ "**".toList) = front :=
      (rootOf_join (isAbsolute_of_rootOf hfront hroot) rfl).trans hroot
    refine ⟨(rootOf_join (isAbsolute_of_rootOf hfront hany) rfl).trans hany, ?_⟩
    rw [components_join _ rfl, components_join _ rfl, hcomps, List.append_assoc, List.append_assoc]
    rfl
  split at hfiles
  · next hfile =>
    obtain rfl := Except.ok.inj hfiles
    have hbelow : isAbsolute (belowRoot p) = false := isAbsolute_dropWhile p
    rw [List.forall_mem_singleton]
    refine isFileBelow_normalize hfront hnames ?_ ?_ habove.notMem_components hfile
    · exact (rootOf_join (isAbsolute_ofNames hfront names) hbelow).trans
        (rootOf_ofNames hfront hnames)
    · exact (components_join _ hbelow).trans (by rw [components_ofNames hfront hnames])
  · refine isFileBelow_of_mem_filesMatchingAny hnamed hfront hnames habove hrelative
      [] List.not_mem_nil (fun alt halt => ?_) hfiles
    rw [List.append_nil]
    exact join_escape hfront hnames halt

/-! ## Expanding patterns -/

/-- **Patterns stay below the root.** Whatever patterns are expanded to are files at the root or
below it, if no alternative leads upwards or is absolute. -/
theorem isFileBelow_of_mem_expand (m : Matcher) (cache : IgnoreCache) {patterns : List Text}
    {root : Text} (hnamed : h.IsNamed) (hroot : IsNormal root)
    (habove : ∀ p ∈ patterns, NeverAscends p) (hrelative : ∀ p ∈ patterns, IsRelative p)
    {files : List Text} (hfiles : (m.expand h cache patterns root).result = .ok files) :
    ∀ f ∈ files, IsFileBelow h root f := by
  obtain ⟨front, names, hfront, hnames, rfl⟩ := hroot.exists_ofNames
  rw [expand, Reported.result_bind] at hfiles
  obtain ⟨rules, -, hfiles⟩ := bind_eq_ok_iff.1 hfiles
  rw [Reported.result_ofExcept, expandWith] at hfiles
  obtain ⟨found, hfound, rfl⟩ := map_eq_ok_iff.1 hfiles
  intro f hf
  obtain ⟨p, hp, kept, hkept, hf⟩ := (mem_flatten_of_mapM_eq_ok hfound f).1 hf
  have hp := List.mem_of_mem_filter hp
  obtain ⟨candidates, hcandidates, rfl⟩ := map_eq_ok_iff.1 hkept
  exact isFileBelow_of_mem_candidates hnamed hfront hnames (habove p hp) (hrelative p hp)
    hcandidates f (List.mem_of_mem_filter hf)

/-- Two directories, with a link from one to the other. -/
def neighbours : Host where
  tree := .directory
    [("proj".toList, .directory
      [("a.txt".toList, .file [] (.given 0)), ("far".toList, .link "/other".toList)]),
    ("other".toList, .directory [("b.txt".toList, .file [] (.given 0))])]
  directory := []
  lost := 0
  home := ['/']
  users := []
  clock := 0

/-- How files are found there. -/
def neighbourMatcher : Matcher := ⟨true, ".gitignore".toList⟩

/-- Slashes in front make no difference, and what a link leads to is named through the link. -/
theorem isFileBelow_neighbours :
    neighbours.IsNamed ∧ IsNormal "/proj".toList ∧
      (∀ p ∈ ["//\x7b.,far\x7d/*.txt".toList], NeverAscends p) ∧
      (∀ p ∈ ["//\x7b.,far\x7d/*.txt".toList], IsRelative p) ∧
      (neighbourMatcher.expand neighbours .empty ["//\x7b.,far\x7d/*.txt".toList]
        "/proj".toList).result = .ok ["/proj/a.txt".toList, "/proj/far/b.txt".toList] ∧
      ∀ f ∈ ["/proj/a.txt".toList, "/proj/far/b.txt".toList],
        IsFileBelow neighbours "/proj".toList f := by
  have hnamed : neighbours.IsNamed := ⟨by cbv⟩
  have hroot : IsNormal "/proj".toList := ⟨rfl, by cbv, by decide⟩
  have habove : ∀ p ∈ ["//\x7b.,far\x7d/*.txt".toList], NeverAscends p := by decide
  have hrelative : ∀ p ∈ ["//\x7b.,far\x7d/*.txt".toList], IsRelative p := by decide
  have hfiles : (neighbourMatcher.expand neighbours .empty ["//\x7b.,far\x7d/*.txt".toList]
      "/proj".toList).result = .ok ["/proj/a.txt".toList, "/proj/far/b.txt".toList] := by
    cbv
  exact ⟨hnamed, hroot, habove, hrelative, hfiles,
    isFileBelow_of_mem_expand neighbourMatcher .empty hnamed hroot habove hrelative hfiles⟩

/-- An absolute alternative is searched for in the whole tree, wherever the root is. -/
theorem mem_candidates_of_absolute {root alt : Text} {files found : List Text}
    (hfile : isDirectoryPattern p = false)
    (hliteral : h.isFile (normalize (Path.join root (belowRoot p))) = false)
    (hfiles : candidates h root p = .ok files) (halt : alt ∈ Glob.expandBraces (belowRoot p))
    (habs : isAbsolute alt = true) (hfound : filesMatching h alt = .ok found) :
    ∀ f ∈ found, f ∈ files := by
  intro f hf
  rw [candidates] at hfiles
  dsimp only at hfiles
  rw [if_neg (by simpa [isDirectoryPattern] using hfile)] at hfiles
  split at hfiles
  · next hnamed => cases hnamed.symm.trans hliteral
  · have hself : Path.join (NamePattern.escape root) alt = alt := if_pos habs
    refine (mem_filesMatchingAny hfiles f).2 ⟨alt, ?_, found, hfound, hf⟩
    rw [← hself]
    exact List.mem_map_of_mem halt

/-- An alternative that begins with a slash finds a file of the other directory. -/
theorem expand_neighbours_absolute :
    neighbours.IsNamed ∧ IsNormal "/proj".toList ∧
      NeverAscends "\x7b/other/*,a.txt\x7d".toList ∧
      (neighbourMatcher.expand neighbours .empty ["\x7b/other/*,a.txt\x7d".toList]
        "/proj".toList).result = .ok ["/other/b.txt".toList, "/proj/a.txt".toList] ∧
      ¬IsFileBelow neighbours "/proj".toList "/other/b.txt".toList := by
  refine ⟨⟨by cbv⟩, ⟨rfl, by cbv, by decide⟩, by decide, by cbv, ?_⟩
  rintro ⟨-, hroot | ⟨names, -, hnames, hjoin⟩⟩
  · exact absurd hroot (by decide)
  · rw [Path.join, isAbsolute_intercalate hnames] at hjoin
    exact absurd (List.cons.inj (List.cons.inj hjoin).2).1 (by decide)

end Bindery.Matcher

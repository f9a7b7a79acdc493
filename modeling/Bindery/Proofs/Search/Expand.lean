import Bindery.Proofs.Glob.Braces
import Bindery.Proofs.Search.Paths
import Bindery.Search.Matcher
import Mathlib

/-!
# The files of a pattern

Below a root of a tree without links, a pattern stands for the files whose names match the
components of one of its alternatives, less those that the rules ignore.  The root itself is
escaped, so whatever it is called it stands for itself only.

* `Search.NamesMatch`: when components match the names of a file.
* `Matcher.exists_filesMatching`: the files that match one pattern over the whole tree.
* `Matcher.mem_expand_iff`: the files of a pattern below a root.
-/

namespace Bindery

open Bindery.Path

namespace Search

/-- Components match the names of a file: each takes its own names, the last at least one. -/
def NamesMatch (cs names : List Text) : Prop :=
  ∃ init c xs ys, cs = init ++ [c] ∧ names = xs ++ ys ∧ Stands init xs ∧ Takes c ys ∧ ys ≠ []

theorem NamesMatch.ne_nil {cs names : List Text} (h : NamesMatch cs names) : names ≠ [] := by
  obtain ⟨_, _, xs, ys, -, rfl, -, -, hys⟩ := h
  exact List.append_ne_nil_of_right_ne_nil xs hys

/-! ## Escaped names -/

theorem isHidden_escape (s : Text) : isHidden (NamePattern.escape s) = isHidden s := by
  cases s with
  | nil => rfl
  | cons c s =>
    rw [NamePattern.escape_cons, NamePattern.escapeChar]
    split
    · next hc => rcases hc with rfl | rfl | rfl <;> rfl
    · rfl

theorem escape_ne_anyDepth (s : Text) : NamePattern.escape s ≠ anyDepth := by
  cases s with
  | nil =>
    intro heq
    cases heq
  | cons c s =>
    rw [NamePattern.escape_cons, NamePattern.escapeChar]
    split
    · intro heq
      cases heq
    · next hc =>
      intro heq
      exact hc (Or.inl (List.cons.inj heq).1)

theorem isName_escape {n : Text} (hn : IsName n) : IsName (NamePattern.escape n) := by
  have hplain : ∀ t, NamePattern.hasMagic t = false → t ≠ n → NamePattern.escape n ≠ t := by
    intro t ht hne heq
    rw [← heq] at ht
    exact hne (heq.symm.trans (NamePattern.escape_eq_self ht))
  exact
    { ne_nil := hplain [] rfl hn.ne_nil.symm
      ne_here := hplain ['.'] rfl hn.ne_here.symm
      ne_above := hplain ['.', '.'] rfl hn.ne_above.symm
      no_slash := by
        rw [NamePattern.mem_escape_iff_of_plain (by decide)]
        exact hn.no_slash
      no_null := by
        rw [NamePattern.mem_escape_iff_of_plain (by decide)]
        exact hn.no_null }

/-- An escaped name takes the name itself. -/
theorem takes_escape_iff {n : Text} {ns : List Text} :
    Takes (NamePattern.escape n) ns ↔ ns = [n] := by
  constructor
  · intro h
    generalize hc : NamePattern.escape n = c at h
    cases h with
    | anyDepth _ => exact (escape_ne_anyDepth n hc).elim
    | one _ _ hmatch _ =>
      rw [← hc] at hmatch
      rw [NamePattern.matchesName_escape_iff.1 hmatch]
    | self hmagic =>
      rw [← hc] at hmagic ⊢
      rw [NamePattern.escape_eq_self hmagic]
  · rintro rfl
    by_cases hmagic : NamePattern.hasMagic (NamePattern.escape n) = true
    · exact .one (escape_ne_anyDepth n) hmagic (NamePattern.matchesName_escape_iff.2 rfl)
        fun hhidden => (isHidden_escape n).trans hhidden
    · rw [Bool.not_eq_true] at hmagic
      have hself := Takes.self hmagic
      rwa [NamePattern.escape_eq_self hmagic] at hself ⊢

theorem stands_escape_iff {names xs : List Text} :
    Stands (names.map NamePattern.escape) xs ↔ xs = names := by
  induction names generalizing xs with
  | nil =>
    constructor
    · intro h
      cases h
      rfl
    · rintro rfl
      exact .nil
  | cons n names ih =>
    rw [List.map_cons]
    constructor
    · intro h
      cases h with
      | cons htake h =>
        rw [takes_escape_iff.1 htake, ih.1 h]
        rfl
    · rintro rfl
      exact .cons (takes_escape_iff.2 rfl) (ih.2 rfl)

/-- Below an escaped root, the names of the root come first. -/
theorem namesMatch_escape_append_iff {root cs names : List Text} (hcs : cs ≠ []) :
    NamesMatch (root.map NamePattern.escape ++ cs) names ↔
      ∃ rest, names = root ++ rest ∧ NamesMatch cs rest := by
  obtain ⟨init, c, rfl⟩ := (List.eq_nil_or_concat' cs).resolve_left hcs
  rw [← List.append_assoc]
  constructor
  · rintro ⟨init', c', xs, ys, hsplit, rfl, hxs, hys, hne⟩
    obtain ⟨rfl, hc⟩ := List.append_inj' hsplit rfl
    obtain rfl := List.singleton_inj.1 hc
    obtain ⟨us, vs, rfl, hus, hvs⟩ := stands_append_iff.1 hxs
    obtain rfl := stands_escape_iff.1 hus
    exact ⟨vs ++ ys, by simp, init, c, vs, ys, rfl, rfl, hvs, hys, hne⟩
  · rintro ⟨_, rfl, init', c', xs, ys, hsplit, rfl, hxs, hys, hne⟩
    obtain ⟨rfl, hc⟩ := List.append_inj' hsplit rfl
    obtain rfl := List.singleton_inj.1 hc
    exact ⟨_, c, root ++ xs, ys, rfl, by simp, (stands_escape_iff.2 rfl).append hxs, hys, hne⟩

end Search

open Search

/-- The text of an escaped path is the path of the escaped names. -/
theorem NamePattern.escape_ofNames {front : Text} (hfront : IsFront front) (names : List Text) :
    escape (ofNames front names) = ofNames front (names.map escape) := by
  have hslash : escape front = front := by
    rcases hfront with rfl | rfl <;> rfl
  rw [ofNames, escape_append, hslash, ofNames]
  congr 1
  induction names with
  | nil => rfl
  | cons n names ih =>
    cases names with
    | nil => simp
    | cons m names =>
      rw [List.intercalate_cons_cons, escape_append, escape_append, ih, List.map_cons (a := n),
        List.intercalate_cons_of_ne_nil (by simp)]
      rfl

namespace Matcher

variable {h : Host} {front : Text}

/-! ## The files that match a pattern -/

/-- A pattern over the whole tree stands for the files whose names its components match. -/
theorem exists_filesMatching (hplain : h.IsPlain) (hfront : IsFront front) {cs : List Text}
    (hne : cs ≠ []) (hcs : ∀ c ∈ cs, IsName c) :
    ∃ files, filesMatching h (ofNames front cs) = .ok files ∧
      ∀ f, f ∈ files ↔ ∃ names, NamesMatch cs names ∧ (∀ n ∈ names, IsName n) ∧
        f = ofNames front names ∧ h.isFile f = true := by
  obtain ⟨init, c, rfl⟩ := (List.eq_nil_or_concat' cs).resolve_left hne
  obtain ⟨hinit, hc⟩ := List.forall_mem_append.1 hcs
  obtain ⟨ps, hps, hfind⟩ :=
    paths_spec hplain hfront hinit false (List.forall_mem_singleton.1 hc)
  refine ⟨_, by rw [filesMatching, hps]; rfl, fun f => ?_⟩
  rw [List.mem_map]
  constructor
  · rintro ⟨q, hq, rfl⟩
    obtain ⟨hq, hfile⟩ := List.mem_filter.1 hq
    obtain ⟨names, ns, hstands, htake, hproper, rfl⟩ := hfind.sound q hq
    by_cases hns : ns = []
    · subst hns
      rw [List.append_nil] at hproper
      -- Where the last component takes nothing, there is a slash at the end and no file.
      rw [List.intercalate_nil, hplain.isFile_ofNames_slash hfront hproper] at hfile
      exact absurd hfile nofun
    · rw [ofNames_append_intercalate hns] at hfile ⊢
      rw [normalize_ofNames hfront hproper]
      exact ⟨names ++ ns, ⟨init, c, names, ns, rfl, rfl, hstands, htake, hns⟩, hproper, rfl, hfile⟩
  · rintro ⟨_, ⟨init', c', xs, ys, hsplit, rfl, hxs, hys, hysne⟩, hproper, rfl, hfile⟩
    obtain ⟨rfl, hc'⟩ := List.append_inj' hsplit rfl
    obtain rfl := List.singleton_inj.1 hc'
    have hjoin : ofNames front (xs ++ [List.intercalate ['/'] ys]) = ofNames front (xs ++ ys) :=
      ofNames_append_intercalate hysne
    obtain ⟨bytes, stamp, hn⟩ := Host.isFile_iff.1 hfile
    refine ⟨ofNames front (xs ++ ys), List.mem_filter.2 ⟨?_, hfile⟩,
      normalize_ofNames hfront hproper⟩
    rw [← hjoin] at hn ⊢
    exact hfind.complete xs ys _ hxs hys hproper hn nofun

/-- A path that has nothing in the place of its last name is no file. -/
theorem filesMatching_slash (hplain : h.IsPlain) (hfront : IsFront front) {cs : List Text}
    (hcs : ∀ c ∈ cs, IsName c) : filesMatching h (ofNames front (cs ++ [[]])) = .ok [] := by
  have hnone : ∀ ps, paths h false (ofNames front (cs ++ [[]])) = .ok ps →
      (∀ q ∈ ps, h.isFile q = false) → filesMatching h (ofNames front (cs ++ [[]])) = .ok [] := by
    intro ps hps hfile
    have hfilter : ps.filter h.isFile = [] :=
      List.filter_eq_nil_iff.2 fun q hq => by simp [hfile q hq]
    rw [filesMatching, hps]
    change Except.ok ((ps.filter h.isFile).map normalize) = _
    rw [hfilter]
    rfl
  -- Whether it is searched or only looked up, all that can be found ends in a slash.
  by_cases hmagic : NamePattern.hasMagic (ofNames front (cs ++ [[]])) = true
  · obtain ⟨ds, hds, hfind⟩ := exists_directoriesOf hplain hfront hcs
    have hfindIn : ∀ d, findIn h false d [] = .ok (if h.isDirectory d then [[]] else []) :=
      fun d => rfl
    obtain ⟨ps, hps, hmem⟩ := exists_flatten_eq_ok
      (fun d => (findIn h false d []).map (·.map (Path.join d ·))) ds
      fun d _ => ⟨_, by rw [hfindIn]; rfl⟩
    refine hnone ps ?_ fun q hq => ?_
    · rw [paths_concat hfront hcs false List.not_mem_nil hmagic, hds]
      exact hps
    · obtain ⟨d, hd, found, hfound, hq⟩ := (hmem q).1 hq
      obtain ⟨names, -, hnames, hspell⟩ := hfind.sound d hd
      rw [hfindIn] at hfound
      obtain rfl := Except.ok.inj hfound
      obtain ⟨x, hx, rfl⟩ := List.mem_map.1 hq
      have hx : x = [] := by
        split at hx
        · exact List.mem_singleton.1 hx
        · exact absurd hx List.not_mem_nil
      rw [hx, hspell.join hfront hnames rfl]
      exact hplain.isFile_ofNames_slash hfront hnames
  · rw [Bool.not_eq_true] at hmagic
    refine hnone (if h.isDirectory (ofNames front cs) then [ofNames front (cs ++ [[]])] else []) ?_
      fun q hq => ?_
    · rw [paths.eq_def]
      simp only [split_ofNames hfront hcs List.not_mem_nil, hmagic, if_true, List.isEmpty_nil]
    · split at hq
      · rw [List.mem_singleton.1 hq]
        exact hplain.isFile_ofNames_slash hfront hcs
      · exact absurd hq List.not_mem_nil

end Matcher

/-! ## Alternatives of a pattern -/

namespace Glob

/-- The components of an alternative, without the slash at the end of a directory pattern.  The
empty alternative has none. -/
def components (directory : Bool) (alt : Text) : List Text :=
  if alt = [] then []
  else if directory then (alt.splitOn '/').dropLast
  else alt.splitOn '/'

theorem mem_splitOn_of_mem_components {directory : Bool} {alt c : Text}
    (hc : c ∈ components directory alt) : c ∈ alt.splitOn '/' := by
  rw [components] at hc
  split at hc
  · exact absurd hc List.not_mem_nil
  · split at hc
    · exact List.dropLast_subset _ hc
    · exact hc

/-- An absolute alternative has an empty component. -/
theorem nil_mem_components {directory : Bool} {alt : Text} (halt : isAbsolute alt = true) :
    [] ∈ components directory alt := by
  cases alt with
  | nil => exact absurd halt nofun
  | cons c r =>
    obtain rfl : c = '/' := by simpa [isAbsolute] using halt
    obtain ⟨first, more, hr⟩ := List.exists_cons_of_ne_nil (List.splitOn_ne_nil '/' r)
    have hsplit : ('/' :: r).splitOn '/' = [] :: first :: more := by
      rw [List.splitOn_cons_eq_if_modifyHead, if_pos (by simp), hr]
    rw [components, if_neg (List.cons_ne_nil _ _), hsplit]
    split <;> simp

variable {front : Text} {names : List Text}

/-- An alternative of a directory pattern is joined to a path component by component, and a slash
stays at the end. -/
theorem join_alternative_directory (hfront : IsFront front) (hnames : ∀ n ∈ names, IsName n)
    {alt : Text} (halt : alt = [] ∨ alt.getLast? = some '/')
    (hcomps : ∀ c ∈ components true alt, IsName c) :
    Path.join (ofNames front names) alt = ofNames front (names ++ components true alt ++ [[]]) := by
  have hrel : isAbsolute alt = false := by
    rw [← Bool.not_eq_true]
    exact fun habs => (hcomps [] (nil_mem_components habs)).ne_nil rfl
  rw [join_ofNames hfront hnames hrel]
  rcases halt with rfl | halt
  · rw [components, if_pos rfl, List.append_nil]
  · obtain ⟨s, rfl⟩ : ∃ s, alt = s ++ ['/'] := by
      rw [List.getLast?_eq_some_iff] at halt
      exact halt
    have hsplit : (s ++ ['/']).splitOn '/' = s.splitOn '/' ++ [[]] := by
      rw [List.splitOn_append_cons_self]
      rfl
    have hcomponents : components true (s ++ ['/']) = s.splitOn '/' := by
      rw [components, if_neg (by simp), if_pos rfl, hsplit, List.dropLast_concat]
    have hjoined : s ++ ['/'] = List.intercalate ['/'] (s.splitOn '/' ++ [[]]) := by
      rw [← hsplit, List.intercalate_splitOn]
    rw [hcomponents, List.append_assoc, hjoined, ofNames_append_intercalate (by simp)]

/-- Any other alternative that is not empty is joined to a path component by component. -/
theorem join_alternative_file (hfront : IsFront front) (hnames : ∀ n ∈ names, IsName n) {alt : Text}
    (halt : alt ≠ []) (hcomps : ∀ c ∈ components false alt, IsName c) :
    Path.join (ofNames front names) alt = ofNames front (names ++ components false alt) := by
  have hrel : isAbsolute alt = false := by
    rw [← Bool.not_eq_true]
    exact fun habs => (hcomps [] (nil_mem_components habs)).ne_nil rfl
  have hcomponents : components false alt = alt.splitOn '/' := by
    rw [components, if_neg halt, if_neg Bool.false_ne_true]
  have hjoined : List.intercalate ['/'] (alt.splitOn '/') = alt := List.intercalate_splitOn '/'
  rw [join_ofNames hfront hnames hrel, hcomponents,
    ← ofNames_append_intercalate (List.splitOn_ne_nil '/' alt), hjoined]

end Glob

namespace Matcher

/-- A pattern without the slashes that it begins with. -/
def belowRoot (p : Text) : Text :=
  p.dropWhile (· == '/')

/-- Whether a pattern is one for a directory. -/
def isDirectoryPattern (p : Text) : Bool :=
  p.getLast? == some '/'

/-- A pattern whose alternatives have no components that are empty or lead elsewhere. -/
structure IsProperPattern (p : Text) : Prop where
  ne_nil : p ≠ []
  no_null : '\x00' ∉ p
  components : ∀ alt ∈ Glob.expandBraces (belowRoot p),
    ∀ c ∈ Glob.components (isDirectoryPattern p) alt, c ≠ [] ∧ c ≠ ['.'] ∧ c ≠ ['.', '.']

namespace IsProperPattern

variable {p : Text}

theorem mem_of_mem_belowRoot {c : Char} (hc : c ∈ belowRoot p) : c ∈ p :=
  (List.dropWhile_sublist _).subset hc

theorem isName_of_mem (hp : IsProperPattern p) {alt : Text}
    (halt : alt ∈ Glob.expandBraces (belowRoot p)) :
    ∀ c ∈ Glob.components (isDirectoryPattern p) alt, IsName c := by
  intro c hc
  obtain ⟨hne, hhere, habove⟩ := hp.components alt halt c hc
  have hmem := Glob.mem_splitOn_of_mem_components hc
  refine ⟨hne, hhere, habove, Text.not_mem_of_mem_splitOn hmem, fun hnull => hp.no_null ?_⟩
  exact mem_of_mem_belowRoot
    (Glob.mem_of_mem_expandBraces halt (Text.mem_of_mem_splitOn hmem hnull))

/-- What is left of a directory pattern is empty or ends in a slash, and so are its alternatives. -/
theorem eq_nil_or_getLast? (hdir : isDirectoryPattern p = true) {alt : Text}
    (halt : alt ∈ Glob.expandBraces (belowRoot p)) : alt = [] ∨ alt.getLast? = some '/' := by
  have hlast : p.getLast? = some '/' := by simpa [isDirectoryPattern] using hdir
  by_cases hnil : belowRoot p = []
  · refine Or.inl (List.eq_nil_iff_forall_not_mem.2 fun c hc => ?_)
    have hmem := Glob.mem_of_mem_expandBraces halt hc
    rw [hnil] at hmem
    exact List.not_mem_nil hmem
  · refine Or.inr (Glob.getLast?_of_mem_expandBraces halt ?_)
    have happ : p.takeWhile (· == '/') ++ belowRoot p = p := List.takeWhile_append_dropWhile
    rw [← happ, List.getLast?_append_of_ne_nil _ hnil] at hlast
    exact hlast

/-- A pattern that is not one for a directory does not vanish with its first slashes. -/
theorem belowRoot_ne_nil (hp : IsProperPattern p) (hdir : isDirectoryPattern p = false) :
    belowRoot p ≠ [] := by
  intro hnil
  obtain ⟨s, c, rfl⟩ := (List.eq_nil_or_concat' p).resolve_left hp.ne_nil
  have hall := List.dropWhile_eq_nil_iff.1 hnil c (by simp)
  rw [isDirectoryPattern, List.getLast?_concat] at hdir
  simp at hall hdir
  exact hdir hall

/-- The pattern itself is made of names if it is not one for a directory: a component that is no
name would be left in some alternative. -/
theorem isName_of_mem_splitOn (hp : IsProperPattern p) (hdir : isDirectoryPattern p = false) :
    ∀ c ∈ (belowRoot p).splitOn '/', IsName c := by
  intro c hc
  have hne := hp.belowRoot_ne_nil hdir
  have hkeep : (∀ x ∈ ['{', ',', '}'], x ∉ c) → c ≠ [] ∧ c ≠ ['.'] ∧ c ≠ ['.', '.'] := by
    intro hplain
    obtain ⟨alt, halt, haltne, hmem⟩ := Glob.exists_alternative_of_mem_splitOn hne hc hplain
    refine hp.components alt halt c ?_
    rw [hdir, Glob.components, if_neg haltne, if_neg Bool.false_ne_true]
    exact hmem
  exact
    { ne_nil := fun heq => (hkeep (by simp [heq])).1 heq
      ne_here := fun heq => (hkeep (by simp [heq])).2.1 heq
      ne_above := fun heq => (hkeep (by simp [heq])).2.2 heq
      no_slash := Text.not_mem_of_mem_splitOn hc
      no_null := fun hnull => hp.no_null (mem_of_mem_belowRoot (Text.mem_of_mem_splitOn hc hnull)) }

end IsProperPattern

/-! ## The files below a root -/

/-- The components that the files of an alternative match. -/
def fileComponents (p alt : Text) : List Text :=
  Glob.components (isDirectoryPattern p) alt ++
    if isDirectoryPattern p then [anyDepth, ['*']] else []

/-- A pattern is not one for a directory and names a file outright. -/
def IsNamed (h : Host) (root p : Text) : Prop :=
  isDirectoryPattern p = false ∧ h.isFile (Path.join root (belowRoot p)) = true

instance (h : Host) (root p : Text) : Decidable (IsNamed h root p) :=
  inferInstanceAs (Decidable (_ ∧ _))

variable {p : Text} {names : List Text}

/-- The pattern over the whole tree that an alternative becomes: its components below the escaped
root, or nothing in their place. -/
def searchText (front : Text) (names : List Text) (p alt : Text) : Text :=
  ofNames front (names.map NamePattern.escape ++
    if fileComponents p alt = [] then [[]] else fileComponents p alt)

/-- A file below a root whose names match an alternative of a pattern. -/
def IsMatch (h : Host) (front : Text) (names : List Text) (p f : Text) : Prop :=
  ∃ rest, (∀ n ∈ rest, IsName n) ∧ f = ofNames front (names ++ rest) ∧ h.isFile f = true ∧
    ∃ alt ∈ Glob.expandBraces (belowRoot p), NamesMatch (fileComponents p alt) rest

theorem isName_escaped (hnames : ∀ n ∈ names, IsName n) :
    ∀ n ∈ names.map NamePattern.escape, IsName n := by
  intro n hn
  obtain ⟨m, hm, rfl⟩ := List.mem_map.1 hn
  exact isName_escape (hnames m hm)

/-- The files of one alternative. -/
theorem exists_filesMatching_searchText (hplain : h.IsPlain) (hfront : IsFront front)
    (hnames : ∀ n ∈ names, IsName n) (hp : IsProperPattern p) {alt : Text}
    (halt : alt ∈ Glob.expandBraces (belowRoot p)) :
    ∃ files, filesMatching h (searchText front names p alt) = .ok files ∧
      ∀ f, f ∈ files ↔ ∃ rest, (∀ n ∈ rest, IsName n) ∧ f = ofNames front (names ++ rest) ∧
        h.isFile f = true ∧ NamesMatch (fileComponents p alt) rest := by
  have hescaped := isName_escaped hnames
  have hproper : ∀ c ∈ fileComponents p alt, IsName c := by
    rw [fileComponents]
    refine List.forall_mem_append.2 ⟨hp.isName_of_mem halt, ?_⟩
    split <;> decide
  rw [searchText]
  split
  · next hnil =>
    -- Without components there is a slash behind the root, and nothing matches.
    refine ⟨[], filesMatching_slash hplain hfront hescaped, fun f => ?_⟩
    constructor
    · exact fun hf => absurd hf List.not_mem_nil
    · rintro ⟨rest, -, -, -, init, c, xs, ys, hsplit, -⟩
      rw [hnil] at hsplit
      exact absurd hsplit.symm (by simp)
  · next hne =>
    obtain ⟨files, hfiles, hmem⟩ := exists_filesMatching hplain hfront
      (List.append_ne_nil_of_right_ne_nil _ hne) (List.forall_mem_append.2 ⟨hescaped, hproper⟩)
    refine ⟨files, hfiles, fun f => ?_⟩
    rw [hmem]
    constructor
    · rintro ⟨all, hescape, hall, rfl, hfile⟩
      obtain ⟨rest, rfl, hmatch⟩ := (namesMatch_escape_append_iff hne).1 hescape
      exact ⟨rest, (List.forall_mem_append.1 hall).2, rfl, hfile, hmatch⟩
    · rintro ⟨rest, hrest, rfl, hfile, hmatch⟩
      exact ⟨names ++ rest, (namesMatch_escape_append_iff hne).2 ⟨rest, rfl, hmatch⟩,
        List.forall_mem_append.2 ⟨hnames, hrest⟩, rfl, hfile⟩

/-- The files of all alternatives. -/
theorem exists_filesMatchingAny (hplain : h.IsPlain) (hfront : IsFront front)
    (hnames : ∀ n ∈ names, IsName n) (hp : IsProperPattern p) :
    ∃ files, filesMatchingAny h
        ((Glob.expandBraces (belowRoot p)).map (searchText front names p)) = .ok files ∧
      ∀ f, f ∈ files ↔ IsMatch h front names p f := by
  have hone := fun alt (halt : alt ∈ Glob.expandBraces (belowRoot p)) =>
    exists_filesMatching_searchText hplain hfront hnames hp halt
  obtain ⟨files, hfiles, hmem⟩ := exists_flatten_eq_ok (filesMatching h)
    ((Glob.expandBraces (belowRoot p)).map (searchText front names p)) (by
      intro q hq
      obtain ⟨alt, halt, rfl⟩ := List.mem_map.1 hq
      obtain ⟨files, hfiles, -⟩ := hone alt halt
      exact ⟨files, hfiles⟩)
  refine ⟨files, hfiles, fun f => ?_⟩
  rw [hmem]
  constructor
  · rintro ⟨q, hq, files', hfiles', hf⟩
    obtain ⟨alt, halt, rfl⟩ := List.mem_map.1 hq
    obtain ⟨found, hfound, hiff⟩ := hone alt halt
    rw [hfound] at hfiles'
    obtain rfl := Except.ok.inj hfiles'
    obtain ⟨rest, hrest, hf, hfile, hmatch⟩ := (hiff f).1 hf
    exact ⟨rest, hrest, hf, hfile, alt, halt, hmatch⟩
  · rintro ⟨rest, hrest, hf, hfile, alt, halt, hmatch⟩
    obtain ⟨found, hfound, hiff⟩ := hone alt halt
    exact ⟨_, List.mem_map_of_mem halt, found, hfound, (hiff f).2 ⟨rest, hrest, hf, hfile, hmatch⟩⟩

/-- A directory pattern is searched for by its alternatives, with any file below each. -/
theorem candidates_of_directory (hfront : IsFront front) (hnames : ∀ n ∈ names, IsName n)
    (hp : IsProperPattern p) (hdir : isDirectoryPattern p = true) :
    candidates h (ofNames front names) p = filesMatchingAny h
      ((Glob.expandBraces (belowRoot p)).map (searchText front names p)) := by
  have hescaped := isName_escaped hnames
  have htext : ∀ alt ∈ Glob.expandBraces (belowRoot p),
      Path.join (Path.join (Path.join (NamePattern.escape (ofNames front names)) alt) "**".toList)
        "*".toList = searchText front names p alt := by
    intro alt halt
    have hcomps := hp.isName_of_mem halt
    rw [hdir] at hcomps
    have hall := List.forall_mem_append.2 ⟨hescaped, hcomps⟩
    have hany : IsName "**".toList := by decide
    have hfile : fileComponents p alt = Glob.components true alt ++ ["**".toList, "*".toList] := by
      rw [fileComponents, hdir, if_pos rfl]
      rfl
    rw [NamePattern.escape_ofNames hfront, Glob.join_alternative_directory hfront hescaped
        (IsProperPattern.eq_nil_or_getLast? hdir halt) hcomps, join_ofNames_slash hfront rfl,
      join_ofNames hfront (List.forall_mem_append.2 ⟨hall, List.forall_mem_singleton.2 hany⟩) rfl,
      searchText, hfile, if_neg (by simp)]
    simp only [List.append_assoc, List.cons_append, List.nil_append]
  rw [← List.map_congr_left htext, candidates]
  exact if_pos hdir

/-- Any other pattern is the file that it names, or is searched for by its alternatives. -/
theorem candidates_of_file (hfront : IsFront front) (hnames : ∀ n ∈ names, IsName n)
    (hp : IsProperPattern p) (hdir : isDirectoryPattern p = false) :
    candidates h (ofNames front names) p =
      if h.isFile (Path.join (ofNames front names) (belowRoot p)) = true then
        .ok [Path.join (ofNames front names) (belowRoot p)]
      else filesMatchingAny h
        ((Glob.expandBraces (belowRoot p)).map (searchText front names p)) := by
  have hescaped := isName_escaped hnames
  have hbelow := hp.belowRoot_ne_nil hdir
  -- The path is normalized before it is tested, which leaves that of a proper pattern as it is.
  have hnormal : Path.normalize (Path.join (ofNames front names) (belowRoot p)) =
      Path.join (ofNames front names) (belowRoot p) := by
    have hcomps := hp.isName_of_mem_splitOn hdir
    have hcomponents : Glob.components false (belowRoot p) = (belowRoot p).splitOn '/' := by
      rw [Glob.components, if_neg hbelow, if_neg Bool.false_ne_true]
    rw [← hcomponents] at hcomps
    rw [Glob.join_alternative_file hfront hnames hbelow hcomps,
      normalize_ofNames hfront (List.forall_mem_append.2 ⟨hnames, hcomps⟩)]
  have htext : ∀ alt ∈ Glob.expandBraces (belowRoot p),
      Path.join (NamePattern.escape (ofNames front names)) alt = searchText front names p alt := by
    intro alt halt
    have hfile : fileComponents p alt = Glob.components false alt := by
      rw [fileComponents, hdir, if_neg Bool.false_ne_true, List.append_nil]
    have hcomps := hp.isName_of_mem halt
    rw [hdir] at hcomps
    rw [NamePattern.escape_ofNames hfront, searchText, hfile]
    by_cases hnil : alt = []
    · rw [hnil]
      exact join_ofNames hfront hescaped rfl
    · have hne : Glob.components false alt ≠ [] := by
        rw [Glob.components, if_neg hnil, if_neg Bool.false_ne_true]
        exact List.splitOn_ne_nil _ _
      rw [if_neg hne]
      exact Glob.join_alternative_file hfront hescaped hnil hcomps
  rw [← List.map_congr_left htext, candidates]
  refine (if_neg ?_).trans ?_
  · exact fun hd => Bool.false_ne_true (hdir.symm.trans hd)
  · change (if h.isFile (Path.normalize (Path.join (ofNames front names) (belowRoot p))) = true
      then Except.ok [Path.normalize (Path.join (ofNames front names) (belowRoot p))] else _) = _
    rw [hnormal]
    rfl

/-- The files of a pattern below a root: the file that it names, or all that match. -/
theorem exists_candidates (hplain : h.IsPlain) (hfront : IsFront front)
    (hnames : ∀ n ∈ names, IsName n) (hp : IsProperPattern p) :
    ∃ files, candidates h (ofNames front names) p = .ok files ∧ ∀ f, f ∈ files ↔
      (IsNamed h (ofNames front names) p ∧ f = Path.join (ofNames front names) (belowRoot p)) ∨
      (¬IsNamed h (ofNames front names) p ∧ IsMatch h front names p f) := by
  obtain ⟨files, hfiles, hmem⟩ := exists_filesMatchingAny hplain hfront hnames hp
  by_cases hnamed : IsNamed h (ofNames front names) p
  · refine ⟨_, (candidates_of_file hfront hnames hp hnamed.1).trans (if_pos hnamed.2), fun f => ?_⟩
    simp only [hnamed, List.mem_singleton, true_and, not_true_eq_false, false_and, or_false]
  · refine ⟨files, ?_, fun f => ?_⟩
    · cases hdir : isDirectoryPattern p with
      | true => rw [candidates_of_directory hfront hnames hp hdir, hfiles]
      | false =>
        rw [candidates_of_file hfront hnames hp hdir, if_neg fun hfile => hnamed ⟨hdir, hfile⟩,
          hfiles]
    · rw [hmem]
      simp only [hnamed, false_and, not_false_eq_true, true_and, false_or]

/-! ## Ignored files -/

/-- Whether rules, if there are any, ignore a file, given the path that leads to it from the
root. -/
def ignoresPath (rules : Option (List IgnoreRule)) (rel : Text) : Bool :=
  rules.any (IgnoreRule.isPathIgnored · rel)

theorem relativeTo_ofNames (h : Host) (hfront : IsFront front) {rest : List Text}
    (hrest : rest ≠ []) (hall : ∀ n ∈ names ++ rest, IsName n) :
    h.relativeTo (ofNames front (names ++ rest)) (ofNames front names) =
      .ok (List.intercalate ['/'] rest) := by
  have habs : ∀ ns, (∀ n ∈ ns, IsName n) →
      h.absolute (ofNames front ns) = .ok (ofNames front ns) := by
    intro ns hns
    rw [Host.absolute, if_pos (isAbsolute_ofNames hfront ns), normalize_ofNames hfront hns]
  rw [Host.relativeTo, if_neg (by simpa using ofNames_ne_nil hfront _), habs _ hall,
    habs _ (List.forall_mem_append.1 hall).1]
  exact congrArg Except.ok (leading_ofNames hfront hrest hall)

/-- A path made of names does not lead upwards. -/
theorem not_leads_up {rest : List Text} (hrest : ∀ n ∈ rest, IsName n) (hne : rest ≠ []) :
    ¬(List.intercalate ['/'] rest = "..".toList ∨
      "../".toList.isPrefixOf (List.intercalate ['/'] rest) = true) := by
  have hsplit := List.splitOn_intercalate '/' (fun n hn => (hrest n hn).no_slash) hne
  have habove : ∀ ns, rest ≠ ['.', '.'] :: ns := by
    rintro ns rfl
    exact (hrest _ List.mem_cons_self).ne_above rfl
  rintro (heq | hprefix)
  · rw [heq] at hsplit
    exact habove [] hsplit.symm
  · obtain ⟨t, ht⟩ := List.isPrefixOf_iff_prefix.1 hprefix
    have htext : ['.', '.'] ++ '/' :: t = List.intercalate ['/'] rest := ht
    rw [← htext, List.splitOn_append_cons_self] at hsplit
    exact habove (t.splitOn '/') hsplit.symm

/-- Rules ignore a file below the root by its path from there. -/
theorem isIgnored_ofNames (h : Host) (rules : Option (List IgnoreRule)) (hfront : IsFront front)
    {rest : List Text} (hrest : rest ≠ []) (hall : ∀ n ∈ names ++ rest, IsName n) :
    isIgnored h rules (ofNames front names) (ofNames front (names ++ rest)) =
      ignoresPath rules (List.intercalate ['/'] rest) := by
  cases rules with
  | none => rfl
  | some rules =>
    rw [isIgnored, relativeTo_ofNames h hfront hrest hall]
    exact if_neg (not_leads_up (List.forall_mem_append.1 hall).2 hrest)

/-! ## The files of a pattern -/

/-- Expanding one pattern filters its candidates. -/
theorem expand_singleton {m : Matcher} {cache : IgnoreCache} {root : Text}
    {rules : Option (List IgnoreRule)} (hrules : (m.rules h cache root).result = .ok rules)
    (hp : p ≠ []) {files : List Text} (hfiles : candidates h root p = .ok files) :
    (m.expand h cache [p] root).result =
      .ok (files.filter fun f => !isIgnored h rules root f) := by
  have hfilter : [p].filter (!·.isEmpty) = [p] := by simpa using hp
  rw [expand, Reported.result_bind, hrules]
  change expandWith h rules [p] root = _
  rw [expandWith, hfilter, List.mapM_cons, hfiles]
  simp [Except.map, bind, Except.bind, pure, Except.pure]

/-- **The files of a pattern.** A pattern that names a file outright stands for that file.  Any
other stands for the files below the root whose names match the components of one of its
alternatives.  In both cases a file that is ignored by its path is left out. -/
theorem mem_expand_iff (m : Matcher) (h : Host) (cache : IgnoreCache) (root p : Text)
    (rules : Option (List IgnoreRule)) (hplain : h.IsPlain) (hroot : IsNormal root)
    (hrules : (m.rules h cache root).result = .ok rules) (hp : IsProperPattern p) :
    ∃ files, (m.expand h cache [p] root).result = .ok files ∧ ∀ f, f ∈ files ↔
      if IsNamed h root p then
        f = Path.join root (belowRoot p) ∧ ignoresPath rules (belowRoot p) = false
      else
        ∃ names, (∀ n ∈ names, IsName n) ∧
          f = Path.join root (List.intercalate ['/'] names) ∧ h.isFile f = true ∧
          ignoresPath rules (List.intercalate ['/'] names) = false ∧
          ∃ alt ∈ Glob.expandBraces (belowRoot p), NamesMatch (fileComponents p alt) names := by
  obtain ⟨front, names, hfront, hnames, rfl⟩ := hroot.exists_ofNames
  obtain ⟨files, hfiles, hmem⟩ := exists_candidates hplain hfront hnames hp
  refine ⟨_, expand_singleton hrules hp.ne_nil hfiles, fun f => ?_⟩
  rw [List.mem_filter, hmem, Bool.not_eq_true']
  have hjoin : ∀ rest, (∀ n ∈ rest, IsName n) → rest ≠ [] →
      Path.join (ofNames front names) (List.intercalate ['/'] rest) =
        ofNames front (names ++ rest) := by
    intro rest hrest hne
    rw [join_ofNames hfront hnames (isAbsolute_intercalate hrest), ofNames_append_intercalate hne]
  have hignored : ∀ rest, (∀ n ∈ rest, IsName n) → rest ≠ [] →
      isIgnored h rules (ofNames front names) (ofNames front (names ++ rest)) =
        ignoresPath rules (List.intercalate ['/'] rest) := fun rest hrest hne =>
    isIgnored_ofNames h rules hfront hne (List.forall_mem_append.2 ⟨hnames, hrest⟩)
  by_cases hnamed : IsNamed h (ofNames front names) p
  · rw [if_pos hnamed]
    simp only [hnamed, true_and, not_true_eq_false, false_and, or_false]
    refine and_congr_right ?_
    rintro rfl
    have hcomps := hp.isName_of_mem_splitOn hnamed.1
    have hne := List.splitOn_ne_nil '/' (belowRoot p)
    have htext : List.intercalate ['/'] ((belowRoot p).splitOn '/') = belowRoot p :=
      List.intercalate_splitOn '/'
    have hfile := hjoin _ hcomps hne
    have hrule := hignored _ hcomps hne
    rw [htext] at hfile hrule
    rw [hfile, hrule]
  · rw [if_neg hnamed]
    simp only [hnamed, false_and, not_false_eq_true, true_and, false_or]
    constructor
    · rintro ⟨⟨rest, hrest, rfl, hfile, alt, halt, hmatch⟩, hkeep⟩
      have hne : rest ≠ [] := hmatch.ne_nil
      rw [hignored rest hrest hne] at hkeep
      exact ⟨rest, hrest, (hjoin rest hrest hne).symm, hfile, hkeep, alt, halt, hmatch⟩
    · rintro ⟨rest, hrest, rfl, hfile, hkeep, alt, halt, hmatch⟩
      have hne : rest ≠ [] := hmatch.ne_nil
      rw [hjoin rest hrest hne] at hfile ⊢
      exact ⟨⟨rest, hrest, rfl, hfile, alt, halt, hmatch⟩, (hignored rest hrest hne).trans hkeep⟩

/-! ## A root with special characters -/

/-- A root whose name has special characters, with hidden and ignored files in it. -/
def projectHost : Host where
  tree := .directory
    [("p[1]".toList, .directory
      [(".gitignore".toList, .file "lib/".toUTF8.toList (.given 0)),
      ("src".toList, .directory
        [("main.py".toList, .file [] (.given 0)), (".main.py".toList, .file [] (.given 0)),
        (".note".toList, .file [] (.given 0)),
        ("lib".toList, .directory [("util.py".toList, .file [] (.given 0))])])])]
  directory := []
  lost := 0
  home := ['/']
  users := []
  clock := 0

/-- How files are found in the project. -/
def projectMatcher : Matcher := ⟨false, ".gitignore".toList⟩

/-- A pattern with two alternatives, one over any directories and one for a hidden file. -/
def projectPattern : Text := "src/\x7b**/*.py,.note\x7d".toList

theorem isProperPattern_projectPattern : IsProperPattern projectPattern := by
  have hcomponents : ((Glob.expandBraces (belowRoot projectPattern)).all fun alt =>
      (Glob.components (isDirectoryPattern projectPattern) alt).all fun c =>
        decide (c ≠ [] ∧ c ≠ ['.'] ∧ c ≠ ['.', '.'])) = true := by cbv
  refine ⟨by decide, by decide, fun alt halt c hc => ?_⟩
  exact of_decide_eq_true (List.all_eq_true.1 (List.all_eq_true.1 hcomponents alt halt) c hc)

/-- What is ignored is left out, and a hidden file is found where the pattern asks for it. -/
theorem mem_expand_project :
    projectHost.IsPlain ∧ IsNormal "/p[1]".toList ∧ IsProperPattern projectPattern ∧
      ∃ rules files, (projectMatcher.rules projectHost .empty "/p[1]".toList).result = .ok rules ∧
        (projectMatcher.expand projectHost .empty [projectPattern] "/p[1]".toList).result =
          .ok files ∧
        files = ["/p[1]/src/main.py".toList, "/p[1]/src/.note".toList] ∧
        ∀ f, f ∈ files ↔
          if IsNamed projectHost "/p[1]".toList projectPattern then
            f = Path.join "/p[1]".toList (belowRoot projectPattern) ∧
              ignoresPath rules (belowRoot projectPattern) = false
          else
            ∃ names, (∀ n ∈ names, IsName n) ∧
              f = Path.join "/p[1]".toList (List.intercalate ['/'] names) ∧
              projectHost.isFile f = true ∧
              ignoresPath rules (List.intercalate ['/'] names) = false ∧
              ∃ alt ∈ Glob.expandBraces (belowRoot projectPattern),
                NamesMatch (fileComponents projectPattern alt) names := by
  have hplain : projectHost.IsPlain := ⟨rfl, by cbv⟩
  have hroot : IsNormal "/p[1]".toList := ⟨rfl, by cbv, by decide⟩
  have hrules : (projectMatcher.rules projectHost .empty "/p[1]".toList).result.isOk = true := by
    cbv
  have hexpand : (projectMatcher.expand projectHost .empty [projectPattern]
      "/p[1]".toList).result = .ok ["/p[1]/src/main.py".toList, "/p[1]/src/.note".toList] := by
    cbv
  obtain ⟨rules, hrules⟩ := exists_of_isOk hrules
  obtain ⟨files, hfiles, hmem⟩ := mem_expand_iff projectMatcher projectHost .empty "/p[1]".toList
    projectPattern rules hplain hroot hrules isProperPattern_projectPattern
  exact ⟨hplain, hroot, isProperPattern_projectPattern, rules, files, hrules, hfiles,
    Except.ok.inj (hfiles.symm.trans hexpand), hmem⟩

end Matcher

end Bindery

import Bindery.Proofs.Path.LongestPrefix
import Bindery.Proofs.Path.Resolved
import Bindery.Proofs.Render.Content

/-!
# Paths relative to the deepest root

The trie of roots cuts paths at backslashes too, which the file system does not.  Where that makes
no difference to what lies above what, a path is shown relative to the deepest root that it equals
or lies below, and as it is outside of all roots.

* `Trie.components_eq_flatMap`: the components of the trie are those of the path, cut once more.
* `Renderer.CutsAlike`: the additional cuts make no difference to what lies above what.
* `Renderer.ShownAs`, `Renderer.relativePath_shownAs`: what a path is shown as;
  `Renderer.relativePath_backslash` shows a root that is taken for another directory.
-/

namespace Bindery.Trie

variable {p q : Text}

theorem components_append_slash (p q : Text) :
    components (p ++ '/' :: q) = components p ++ components q := by
  rw [components, List.map_append, List.map_cons]
  exact Path.components_append_cons _ _

theorem components_intercalate {parts : List Text} :
    components (List.intercalate ['/'] parts) = parts.flatMap components := by
  induction parts with
  | nil => rfl
  | cons part parts ih =>
    cases parts with
    | nil => rw [List.intercalate_singleton, List.flatMap_singleton]
    | cons next parts =>
      rw [List.intercalate_cons_cons, List.append_assoc, List.singleton_append,
        components_append_slash, ih]
      rfl

/-- Cutting at both kinds of slashes is cutting at slashes and then cutting what is left. -/
theorem components_eq_flatMap (p : Text) :
    components p = (Path.components p).flatMap components := by
  have hkept : ∀ parts : List Text,
      (parts.filter (!·.isEmpty)).flatMap components = parts.flatMap components := by
    intro parts
    induction parts with
    | nil => rfl
    | cons part parts ih => cases part <;> simp [ih, components]
  have hp : List.intercalate ['/'] (p.splitOn '/') = p := List.intercalate_splitOn '/'
  rw [Path.components, hkept, ← components_intercalate, hp]

/-- What lies above a path lies above it for the trie too. -/
theorem components_isPrefix (h : Path.components p <+: Path.components q) :
    components p <+: components q := by
  obtain ⟨rest, hrest⟩ := h
  rw [components_eq_flatMap p, components_eq_flatMap q, ← hrest, List.flatMap_append]
  exact List.prefix_append _ _

theorem components_of_notMem (hp : '\\' ∉ p) : components p = Path.components p := by
  have hsame : p.map (fun c => if c = '\\' then '/' else c) = p := by
    refine (List.map_congr_left fun c hc => if_neg fun hslash => ?_).trans (List.map_id' p)
    exact hp (hslash ▸ hc)
  rw [components, hsame, Path.components]

end Bindery.Trie

namespace Bindery.Renderer

variable {options : RenderOptions} {roots : List Text} {path : Text}

/-- Cutting at backslashes too makes no difference to which of the roots lie above the path and
which of those are one directory. -/
structure CutsAlike (roots : List Text) (path : Text) : Prop where
  above : ∀ root ∈ roots, Trie.components root <+: Trie.components path →
    Path.components root <+: Path.components path
  apart : ∀ root ∈ roots, ∀ other ∈ roots, Trie.components root <+: Trie.components path →
    Trie.components root = Trie.components other → Path.components root = Path.components other

/-- Where there are no backslashes nothing else is cut. -/
theorem cutsAlike_of_notMem (hroots : ∀ root ∈ roots, '\\' ∉ root) (hpath : '\\' ∉ path) :
    CutsAlike roots path where
  above root hroot h := by
    rwa [Trie.components_of_notMem (hroots root hroot), Trie.components_of_notMem hpath] at h
  apart root hroot other hother _ h := by
    rwa [Trie.components_of_notMem (hroots root hroot),
      Trie.components_of_notMem (hroots other hother)] at h

/-- A root is the deepest one that the path equals or lies below. -/
structure IsDeepest (roots : List Text) (path root : Text) : Prop where
  mem : root ∈ roots
  above : Path.components root <+: Path.components path
  deepest : ∀ other ∈ roots, Path.components other <+: Path.components path →
    (Path.components other).length ≤ (Path.components root).length

/-- What a path is shown as among roots. -/
inductive ShownAs (roots : List Text) (path : Text) : Text → Prop
  | root {root : Text} (hroot : IsDeepest roots path root)
      (hpath : Path.components path = Path.components root) : ShownAs roots path ['.']
  | below {root : Text} {names : List Text} (hroot : IsDeepest roots path root)
      (hpath : Path.components path = Path.components root ++ names) (hne : names ≠ []) :
      ShownAs roots path (List.intercalate ['/'] names)
  | outside (hroots : ∀ root ∈ roots, ¬Path.components root <+: Path.components path) :
      ShownAs roots path path

/-- The root that the trie finds is the deepest one. -/
theorem isDeepest_of_isLongest {root : Text} (hcuts : CutsAlike roots path)
    (hlongest : Trie.IsLongest roots path (some root)) : IsDeepest roots path root := by
  obtain ⟨hlatest, habove, hlongest⟩ := hlongest
  have hroot := (Trie.of_latest?_eq_some hlatest).1
  have hprefix := hcuts.above root hroot habove
  refine ⟨hroot, hprefix, fun other hother hover => ?_⟩
  rcases List.prefix_or_prefix_of_prefix hover hprefix with hle | hle
  · exact hle.length_le
  · -- The trie takes both for one, as it found none that is longer.
    have hsame := (Trie.components_isPrefix hle).eq_of_length_le
      (hlongest other hother (Trie.components_isPrefix hover))
    rw [hcuts.apart root hroot other hother habove hsame]

/-- What leads from a root to a path at it or below it. -/
theorem shownAs_relativeTo {h : Host} {root : Text} (hroot : IsDeepest roots path root)
    (horigin : h.absolute root = .ok root) (htarget : h.absolute path = .ok path)
    (hne : path ≠ []) :
    ∃ shown, h.relativeTo path root = .ok shown ∧ ShownAs roots path shown := by
  obtain ⟨names, hnames⟩ := hroot.above
  by_cases hnil : names = []
  · rw [hnil, List.append_nil] at hnames
    refine ⟨['.'], ?_, .root hroot hnames.symm⟩
    have hshared := Path.commonBeginning_append (Path.components root) []
    rw [List.append_nil] at hshared
    rw [Host.relativeTo, if_neg (by simpa using hne), horigin, htarget]
    refine congrArg Except.ok ?_
    rw [Path.leading, ← hnames, hshared, Nat.sub_self, List.drop_length]
    rfl
  · exact ⟨_, Host.relativeTo_eq_intercalate hne horigin htarget hnames.symm hnil,
      .below hroot hnames.symm hnil⟩

/-- **Paths relative to roots.** Where backslashes make no difference to what lies above what, every
path is shown relative to the deepest root that it equals or lies below, and as it is outside of all
roots. -/
theorem relativePath_shownAs (h : Host)
    (hroots : ∀ root ∈ options.roots, Path.isAbsolute root = true ∧ Path.normalize root = root)
    (hpath : Path.isAbsolute path = true ∧ Path.normalize path = path)
    (hmarks : ∀ p ∈ path :: options.roots, Trie.markName ∉ Trie.components p)
    (hcuts : CutsAlike options.roots path) :
    ∃ r shown, ofOptions options = .ok r ∧ r.relativePath h path = .ok shown ∧
      ShownAs options.roots path shown := by
  have hnonempty : ∀ p : Text, Path.isAbsolute p = true → p ≠ [] := fun p hp hnil => by
    rw [hnil] at hp
    cases hp
  have hfixed : ∀ p : Text, Path.isAbsolute p = true ∧ Path.normalize p = p →
      h.absolute p = .ok p := fun p hp => by rw [Host.absolute, if_pos hp.1, hp.2]
  rw [List.forall_mem_cons] at hmarks
  obtain ⟨t, hall, ht, htmarks⟩ :=
    Trie.exists_foldlM_insert (fun p hp => hnonempty p (hroots p hp).1) hmarks.2
  have hruns : ¬Trie.RunsIntoMark (Trie.latest? options.roots) (Trie.components path) := by
    rintro ⟨place, rest, -, hsplit, -⟩
    exact hmarks.1 (hsplit ▸ List.mem_append_right place List.mem_cons_self)
  obtain ⟨found, hfound, hlongest⟩ :=
    ht.longestPrefix?_isLongest htmarks (hnonempty path hpath.1) hruns
  have hr : ofOptions options = .ok ⟨options, t⟩ := by
    rw [ofOptions, hall]
    rfl
  refine ⟨⟨options, t⟩, ?_⟩
  rw [relativePath, hfound]
  cases found with
  | none =>
    refine ⟨path, hr, rfl, .outside fun root hroot hover => ?_⟩
    exact hlongest root hroot (Trie.components_isPrefix hover)
  | some root =>
    have hdeepest := isDeepest_of_isLongest hcuts hlongest
    obtain ⟨shown, hshown, hshownAs⟩ := shownAs_relativeTo hdeepest
      (hfixed root (hroots root hdeepest.mem)) (hfixed path hpath) (hnonempty path hpath.1)
    refine ⟨shown, hr, ?_, hshownAs⟩
    obtain ⟨c, rest, rfl⟩ :=
      List.exists_cons_of_ne_nil (hnonempty root (hroots root hdeepest.mem).1)
    exact hshown

/-- A root in a root, and a file whose name has a backslash. -/
def nestedRoots : RenderOptions := { roots := ["/ws".toList, "/ws/pkg".toList] }

theorem relativePath_nestedRoots :
    (∀ root ∈ nestedRoots.roots, Path.isAbsolute root = true ∧ Path.normalize root = root) ∧
      (Path.isAbsolute "/ws/pkg/a\\b".toList = true ∧
        Path.normalize "/ws/pkg/a\\b".toList = "/ws/pkg/a\\b".toList) ∧
      (∀ p ∈ "/ws/pkg/a\\b".toList :: nestedRoots.roots, Trie.markName ∉ Trie.components p) ∧
      CutsAlike nestedRoots.roots "/ws/pkg/a\\b".toList ∧
      ∃ r shown, ofOptions nestedRoots = .ok r ∧
        r.relativePath bytesHost "/ws/pkg/a\\b".toList = .ok shown ∧
        ShownAs nestedRoots.roots "/ws/pkg/a\\b".toList shown :=
  have hroots : ∀ root ∈ nestedRoots.roots,
    Path.isAbsolute root = true ∧ Path.normalize root = root := by decide
  have hpath : Path.isAbsolute "/ws/pkg/a\\b".toList = true ∧
    Path.normalize "/ws/pkg/a\\b".toList = "/ws/pkg/a\\b".toList := by decide
  have hmarks : ∀ p ∈ "/ws/pkg/a\\b".toList :: nestedRoots.roots,
    Trie.markName ∉ Trie.components p := by decide
  have hcuts : CutsAlike nestedRoots.roots "/ws/pkg/a\\b".toList := ⟨by decide, by decide⟩
  ⟨hroots, hpath, hmarks, hcuts, relativePath_shownAs bytesHost hroots hpath hmarks hcuts⟩

example : (ofOptions nestedRoots).bind (·.relativePath bytesHost "/ws/pkg/a\\b".toList) =
    .ok "a\\b".toList := by
  cbv

/-- The trie takes the root `/w/a\b` for the directory `/w/a/b`, and a path below that directory,
which is outside of the root, is not shown as it is. -/
theorem relativePath_backslash :
    ¬Path.components "/w/a\\b".toList <+: Path.components "/w/a/b/f".toList ∧
      (ofOptions { roots := ["/w/a\\b".toList] }).bind
        (·.relativePath bytesHost "/w/a/b/f".toList) = .ok "../a/b/f".toList :=
  ⟨by decide, by cbv⟩

end Bindery.Renderer

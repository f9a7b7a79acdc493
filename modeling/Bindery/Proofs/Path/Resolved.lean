import Bindery.Files.Host
import Bindery.Proofs.Path.Components
import Mathlib.Data.List.Induction

/-!
# Paths below any directory

Normalizing a path resolves its components, and what is resolved once stays as it is.  So names
that are joined to a directory, however its path is spelled, and normalized at every step end up
where they would if they were joined at once, and lead back to themselves from there.

* `Path.components_normalize`, `Path.rootOf_normalize`: what is left of a path.
* `Path.foldl_components_normalize`: resolving a path again.
* `Path.placeBelow`: where names lead from a directory, name by name.
* `Host.KnowsWhere`, `Host.relativeTo_placeBelow`: the way back.
-/

namespace Bindery.Path

/-! ## Resolved components -/

/-- What is left of the components of a path, the nearest first. -/
def resolved (rooted : Bool) (parts : List Text) : List Text :=
  parts.foldl (addComponent rooted) []

theorem resolved_append (rooted : Bool) (parts more : List Text) :
    resolved rooted (parts ++ more) = more.foldl (addComponent rooted) (resolved rooted parts) :=
  List.foldl_append

theorem addComponent_nil (rooted : Bool) (before : List Text) :
    addComponent rooted before [] = before := by
  rw [addComponent.eq_def, if_pos (Or.inl rfl)]

/-- Empty components make no difference. -/
theorem foldl_splitOn (rooted : Bool) (before : List Text) (p : Text) :
    (p.splitOn '/').foldl (addComponent rooted) before =
      (components p).foldl (addComponent rooted) before := by
  rw [components]
  induction p.splitOn '/' generalizing before with
  | nil => rfl
  | cons c cs ih =>
    rw [List.foldl_cons, ih]
    cases c with
    | nil => rw [addComponent_nil, List.filter_cons_of_neg (by simp)]
    | cons a s => rw [List.filter_cons_of_pos (by simp), List.foldl_cons]

/-- What is left is neither empty nor `.`. -/
theorem ne_of_mem_resolved {rooted : Bool} {parts : List Text} {n : Text}
    (hn : n ∈ resolved rooted parts) : n ≠ [] ∧ n ≠ ['.'] := by
  induction parts using List.reverseRecOn with
  | nil => exact absurd hn List.not_mem_nil
  | append_singleton parts c ih =>
    rw [resolved_append, List.foldl_cons, List.foldl_nil, addComponent.eq_def] at hn
    split at hn
    · exact ih hn
    next hskip =>
    rw [not_or] at hskip
    have hcons : n ∈ c :: resolved rooted parts → n ≠ [] ∧ n ≠ ['.'] := by
      intro hmem
      rcases List.mem_cons.1 hmem with rfl | hmem
      · exact hskip
      · exact ih hmem
    split at hn
    · next habove =>
      cases hbefore : resolved rooted parts with
      | nil =>
        rw [hbefore] at hn hcons
        cases rooted with
        | false => exact hcons hn
        | true => exact absurd hn List.not_mem_nil
      | cons d r =>
        rw [hbefore] at hn hcons ih
        dsimp only at hn
        split at hn
        · exact hcons hn
        · exact ih (List.mem_cons_of_mem d hn)
    · exact hcons hn

/-- Components that are resolved already are resolved as they were before.  What leads out of a
rooted path is lost when it is resolved, so there nothing may come before it. -/
theorem foldl_resolved {rooted rooted' : Bool} {before : List Text}
    (hbefore : rooted = true → rooted' = true ∧ before = []) (parts : List Text) :
    (resolved rooted parts).reverse.foldl (addComponent rooted') before =
      parts.foldl (addComponent rooted') before := by
  induction parts using List.reverseRecOn with
  | nil => rfl
  | append_singleton parts c ih =>
    rw [resolved_append, List.foldl_cons, List.foldl_nil, List.foldl_append, List.foldl_cons,
      List.foldl_nil, ← ih]
    have hpush : (c :: resolved rooted parts).reverse.foldl (addComponent rooted') before =
        addComponent rooted'
          ((resolved rooted parts).reverse.foldl (addComponent rooted') before) c := by
      rw [List.reverse_cons, List.foldl_append, List.foldl_cons, List.foldl_nil]
    rw [addComponent.eq_def rooted]
    split
    · next hskip => rw [addComponent.eq_def, if_pos hskip]
    next hskip =>
    split
    · next habove =>
      cases hresolved : resolved rooted parts with
      | nil =>
        rw [hresolved] at hpush
        cases rooted with
        | false => exact hpush
        | true =>
          obtain ⟨rfl, rfl⟩ := hbefore rfl
          rw [habove]
          rfl
      | cons d r =>
        rw [hresolved] at hpush
        dsimp only
        split
        · exact hpush
        · -- The component that is taken away was put there by what is resolved.
          next hd =>
          have hproper := ne_of_mem_resolved (hresolved ▸ List.mem_cons_self : d ∈ resolved _ _)
          have hlast : ∀ st, addComponent rooted' st d = d :: st := by
            intro st
            rw [addComponent.eq_def, if_neg (not_or.2 hproper), if_neg hd]
          rw [List.reverse_cons, List.foldl_append, List.foldl_cons, List.foldl_nil, hlast,
            addComponent.eq_def, if_neg hskip, if_pos habove]
          exact (if_neg hd).symm
    · exact hpush

/-! ## Normalized paths -/

variable {p q : Text}

theorem not_isEmpty_rootOf (p : Text) : (!(rootOf p).isEmpty) = isAbsolute p := by
  rw [Bool.eq_iff_iff, isAbsolute_iff_rootOf]
  simp

theorem normalize_eq (p : Text) :
    normalize p =
      match rootOf p ++ List.intercalate ['/']
        (resolved (!(rootOf p).isEmpty) (components p)).reverse with
      | [] => ['.']
      | q => q := by
  rw [normalize, foldl_splitOn]
  rfl

/-- The slashes in front and what is left of the components make the normalized path. -/
theorem normalize_congr (hroot : rootOf p = rootOf q)
    (hcomps : resolved (isAbsolute q) (components p) = resolved (isAbsolute q) (components q)) :
    normalize p = normalize q := by
  rw [normalize_eq, normalize_eq, hroot, not_isEmpty_rootOf, hcomps]

/-- What is left of the components of a path has text and no slashes. -/
theorem part_of_mem_resolved {rooted : Bool} {n : Text}
    (hn : n ∈ (resolved rooted (components p)).reverse) : n ≠ [] ∧ '/' ∉ n := by
  rw [List.mem_reverse] at hn
  have hpart := (mem_foldl_addComponent hn).resolve_left List.not_mem_nil
  exact ⟨(ne_of_mem_resolved hn).1, Text.not_mem_of_mem_splitOn (List.mem_of_mem_filter hpart)⟩

theorem components_intercalate_resolved (rooted : Bool) (p : Text) :
    components (List.intercalate ['/'] (resolved rooted (components p)).reverse) =
      (resolved rooted (components p)).reverse :=
  components_intercalate_of_ne_nil fun _ => part_of_mem_resolved

theorem rootOf_rootOf (p : Text) : rootOf (rootOf p) = rootOf p := by
  by_cases hp : isAbsolute p = true
  · rcases isFront_rootOf hp with h | h <;> rw [h] <;> rfl
  · rw [isAbsolute_iff_rootOf, not_not] at hp
    rw [hp]
    rfl

/-- A normalized path is the single dot, or the slashes in front and what is left of the
components. -/
theorem normalize_cases (p : Text) :
    (rootOf p = [] ∧ resolved false (components p) = [] ∧ normalize p = ['.']) ∨
      normalize p = rootOf p ++ List.intercalate ['/']
        (resolved (!(rootOf p).isEmpty) (components p)).reverse := by
  rw [normalize_eq]
  split
  · next hnil =>
    obtain ⟨hroot, hjoined⟩ := List.append_eq_nil_iff.1 hnil
    refine Or.inl ⟨hroot, ?_, rfl⟩
    rw [hroot] at hjoined
    rw [← List.reverse_eq_nil_iff, ← components_intercalate_resolved]
    exact congrArg components hjoined
  · exact Or.inr rfl

theorem rootOf_normalize (p : Text) : rootOf (normalize p) = rootOf p := by
  rcases normalize_cases p with ⟨hroot, -, hdot⟩ | hnormal
  · rw [hdot, hroot]
    rfl
  · rw [hnormal, rootOf_append, rootOf_rootOf]
    exact Or.inl (isAbsolute_intercalate_of_ne_nil fun _ => part_of_mem_resolved)

theorem isAbsolute_normalize_eq (p : Text) : isAbsolute (normalize p) = isAbsolute p := by
  rw [Bool.eq_iff_iff, isAbsolute_iff_rootOf, isAbsolute_iff_rootOf, rootOf_normalize]

/-- The components of a normalized path, but for the one of the single dot. -/
theorem components_normalize (p : Text) :
    (isAbsolute p = false ∧ resolved false (components p) = [] ∧
        components (normalize p) = [['.']]) ∨
      components (normalize p) = (resolved (isAbsolute p) (components p)).reverse := by
  rcases normalize_cases p with ⟨hroot, hnone, hdot⟩ | hnormal
  · refine Or.inl ⟨?_, hnone, by rw [hdot]; rfl⟩
    rw [← not_isEmpty_rootOf, hroot]
    rfl
  · right
    rw [hnormal, not_isEmpty_rootOf,
      components_slashes_append fun c hc => eq_slash_of_mem_rootOf hc]
    exact components_intercalate_resolved _ _

theorem components_normalize_of_isAbsolute (hp : isAbsolute p = true) :
    components (normalize p) = (resolved true (components p)).reverse := by
  rcases components_normalize p with ⟨hrel, -, -⟩ | hcomps
  · cases hp.symm.trans hrel
  · rw [hcomps, hp]

/-- A normalized path is resolved as it was before. -/
theorem foldl_components_normalize {rooted : Bool} {before : List Text}
    (hbefore : isAbsolute p = true → rooted = true ∧ before = []) :
    (components (normalize p)).foldl (addComponent rooted) before =
      (components p).foldl (addComponent rooted) before := by
  rcases components_normalize p with ⟨hrel, hnone, hdot⟩ | hcomps
  · have hsame : (resolved false (components p)).reverse.foldl (addComponent rooted) before =
        (components p).foldl (addComponent rooted) before :=
      @foldl_resolved false rooted before nofun (components p)
    rw [hnone] at hsame
    rw [hdot, ← hsame]
    rfl
  · rw [hcomps]
    exact foldl_resolved hbefore (components p)

theorem normalize_normalize (p : Text) : normalize (normalize p) = normalize p :=
  normalize_congr (rootOf_normalize p) (foldl_components_normalize fun habs => ⟨habs, rfl⟩)

/-- Slashes are dropped from the end of a normalized path only if there is nothing else. -/
theorem stripTrailing_normalize (hp : isAbsolute p = true) :
    stripTrailing (normalize p) = ['/'] ∨
      stripTrailing (normalize p) = normalize p := by
  rcases normalize_cases p with ⟨hroot, -, -⟩ | hnormal
  · exact absurd hroot (isAbsolute_iff_rootOf.1 hp)
  · by_cases hnone : (resolved (!(rootOf p).isEmpty) (components p)).reverse = []
    · left
      rw [hnormal, hnone, List.intercalate_nil, List.append_nil]
      rcases isFront_rootOf hp with hroot | hroot <;> rw [hroot] <;> rfl
    · right
      rw [hnormal]
      exact stripTrailing_of_parts _ hnone fun n hn => part_of_mem_resolved hn

theorem isAbsolute_join_iff {base : Text} (hp : isAbsolute p = false) :
    isAbsolute (join base p) = true ↔ isAbsolute base = true := by
  constructor
  · intro hjoin
    rw [join, if_neg (by simp [hp])] at hjoin
    cases base with
    | nil => cases hp.symm.trans hjoin
    | cons c base =>
      split at hjoin
      · exact hjoin
      · exact hjoin
  · exact fun hbase => isAbsolute_join hbase p

theorem rootOf_eq_nil (hp : isAbsolute p = false) : rootOf p = [] := by
  by_contra hne
  cases hp.symm.trans (isAbsolute_iff_rootOf.2 hne)

/-- What a relative path is joined to has the slashes in front. -/
theorem rootOf_join_eq {base : Text} (hp : isAbsolute p = false) :
    rootOf (join base p) = rootOf base := by
  by_cases hbase : isAbsolute base = true
  · exact rootOf_join hbase hp
  · have hjoin : ¬isAbsolute (join base p) = true := fun h => hbase ((isAbsolute_join_iff hp).1 h)
    rw [Bool.not_eq_true] at hbase hjoin
    rw [rootOf_eq_nil hjoin, rootOf_eq_nil hbase]

/-- A path may be normalized before something is joined to it. -/
theorem normalize_join_normalize {n : Text} (hn : isAbsolute n = false) (base : Text) :
    normalize (join (normalize base) n) = normalize (join base n) := by
  refine normalize_congr ?_ ?_
  · rw [rootOf_join_eq hn, rootOf_join_eq hn, rootOf_normalize]
  · rw [components_join _ hn, components_join _ hn, resolved_append, resolved_append, resolved,
      foldl_components_normalize fun hbase => ⟨(isAbsolute_join_iff hn).2 hbase, rfl⟩]
    rfl

/-! ## Below a directory -/

/-- Where names lead from a directory; the path is normalized unless it is that of the directory. -/
def placeBelow (directory : Text) : List Text → Text
  | [] => directory
  | n :: names => normalize (join directory (List.intercalate ['/'] (n :: names)))

theorem placeBelow_of_ne_nil (directory : Text) {names : List Text} (hne : names ≠ []) :
    placeBelow directory names = normalize (join directory (List.intercalate ['/'] names)) := by
  cases names with
  | nil => exact (hne rfl).elim
  | cons n names => rfl

/-- One name after the other leads to the same place. -/
theorem normalize_join_placeBelow (directory : Text) {names : List Text} {n : Text}
    (hnames : ∀ m ∈ names, IsName m) (hn : IsName n) :
    normalize (join (placeBelow directory names) n) = placeBelow directory (names ++ [n]) := by
  have hrel := isAbsolute_eq_false hn.no_slash
  have hall := List.forall_mem_append.2 ⟨hnames, List.forall_mem_singleton.2 hn⟩
  rw [placeBelow_of_ne_nil directory (by simp : names ++ [n] ≠ [])]
  by_cases hne : names = []
  · rw [hne, List.nil_append, List.intercalate_singleton]
    rfl
  · have hbefore := isAbsolute_intercalate hnames
    rw [placeBelow_of_ne_nil directory hne, normalize_join_normalize hrel]
    refine normalize_congr ?_ ?_
    · rw [rootOf_join_eq hrel, rootOf_join_eq hbefore, rootOf_join_eq (isAbsolute_intercalate hall)]
    · rw [components_join _ hrel, components_join _ hbefore,
        components_join _ (isAbsolute_intercalate hall), components_intercalate hnames,
        components_intercalate hall, components_of_notMem hn.no_slash, if_neg hn.ne_nil,
        List.append_assoc]

theorem normalize_ne_nil (p : Text) : normalize p ≠ [] := by
  rw [normalize_eq]
  split
  · exact List.cons_ne_nil _ _
  · assumption

end Bindery.Path

namespace Bindery.Host

open Bindery.Path

variable {h : Host} {directory : Text} {names : List Text}

/-- Where a directory is can be told: its path is absolute, or there is a working directory. -/
def KnowsWhere (h : Host) (directory : Text) : Prop :=
  isAbsolute directory = true ∨ h.lost = 0

/-- From a directory that is nowhere nothing leads to a path. -/
theorem relativeTo_of_not_knowsWhere (hwhere : ¬h.KnowsWhere directory) {p : Text} (hp : p ≠ []) :
    h.relativeTo p directory = .error (.file .notFound) := by
  obtain ⟨hrel, hlost⟩ := not_or.1 hwhere
  rw [relativeTo, if_neg (by simpa using hp), absolute, if_neg hrel, currentPath, if_neg hlost]
  rfl

/-- The components of a path that leads on from another are those of the other and names. -/
theorem relativeTo_eq_intercalate {p origin target : Text} (hp : p ≠ [])
    (horigin : h.absolute directory = .ok origin) (htarget : h.absolute p = .ok target)
    (hcomps : components target = components origin ++ names) (hne : names ≠ []) :
    h.relativeTo p directory = .ok (List.intercalate ['/'] names) := by
  rw [relativeTo, if_neg (by simpa using hp), horigin, htarget]
  refine congrArg Except.ok ?_
  rw [leading, hcomps, commonBeginning_append, Nat.sub_self, List.replicate_zero, List.nil_append,
    List.drop_left]
  obtain ⟨n, more, rfl⟩ := List.exists_cons_of_ne_nil hne
  rfl

/-- **The way back.** Names that lead to a place below a directory are the path to it from there. -/
theorem relativeTo_placeBelow (hwhere : h.KnowsWhere directory) (hne : names ≠ [])
    (hnames : ∀ n ∈ names, IsName n) :
    h.relativeTo (placeBelow directory names) directory = .ok (List.intercalate ['/'] names) := by
  have hrel := isAbsolute_intercalate hnames
  have hadd : ∀ before, names.foldl (addComponent true) before = names.reverse ++ before :=
    fun before => foldl_addComponent true before hnames
  rw [placeBelow_of_ne_nil directory hne]
  by_cases habs : isAbsolute directory = true
  · have hjoin := isAbsolute_join habs (List.intercalate ['/'] names)
    refine relativeTo_eq_intercalate (normalize_ne_nil _) (if_pos habs)
      (if_pos (isAbsolute_normalize hjoin)) ?_ hne
    rw [components_normalize_of_isAbsolute habs,
      components_normalize_of_isAbsolute (isAbsolute_normalize hjoin), resolved,
      foldl_components_normalize fun _ => ⟨rfl, rfl⟩, components_join _ hrel,
      components_intercalate hnames, List.foldl_append, hadd, List.reverse_append,
      List.reverse_reverse]
    rfl
  · -- Both paths count from the working directory.
    have hlost := hwhere.resolve_left habs
    have hjoin : ¬isAbsolute (join directory (List.intercalate ['/'] names)) = true :=
      fun h => habs ((isAbsolute_join_iff hrel).1 h)
    have hnormal : ¬isAbsolute (normalize (join directory (List.intercalate ['/'] names))) = true :=
      by rwa [isAbsolute_normalize_eq]
    have hcurrent : h.currentPath = .ok (pathOf h.directory) := if_pos hlost
    have habsolute : ∀ p, ¬isAbsolute p = true →
        h.absolute p = .ok (normalize (join (pathOf h.directory) p)) := by
      intro p hp
      rw [absolute, if_neg hp, hcurrent]
      rfl
    have hfrom : ∀ p, isAbsolute (join (pathOf h.directory) p) = true := isAbsolute_join rfl
    refine relativeTo_eq_intercalate (normalize_ne_nil _) (habsolute _ habs)
      (habsolute _ hnormal) ?_ hne
    rw [Bool.not_eq_true] at habs hnormal hjoin
    rw [components_normalize_of_isAbsolute (hfrom _), components_normalize_of_isAbsolute (hfrom _),
      components_join _ hnormal, components_join _ habs, resolved_append, resolved_append,
      foldl_components_normalize fun h => absurd (hjoin.symm.trans h) nofun, components_join _ hrel,
      components_intercalate hnames, List.foldl_append, hadd, List.reverse_append,
      List.reverse_reverse]

end Bindery.Host

import Bindery.Proofs.Files.Leading
import Bindery.Proofs.Outcome
import Bindery.Proofs.Path.Parsed
import Bindery.Proofs.Roots.Followed
import Mathlib

/-!
# Normal forms of normal forms

A path without links, in which nothing but names stands behind the root, is its own normal form.
The normal form of a path is such a path: what its links are followed to, counted from the root.
What stands in the way is that its links are not followed, and then only its text is normalized.
Where a link is left in that, normalizing again follows it and leads elsewhere.

* `Roots.IsResolved`, `Roots.IsResolved.normalize`: the fixed points.
* `Roots.IsClear.absolute`: a path without links is one from the root too.
* `Roots.Unfollowed`, `Roots.isResolved_of_resolve`: what keeps links in a normal form.
* `Roots.normalize_again`: normalizing twice; `Roots.normalize_again_differs` shows links that are
  left.
-/

namespace Bindery.Roots

open Bindery.Path

variable {h : Host} {p q : Text} {names : List Text}

/-- An absolute path without links and without components that have a meaning of their own. -/
def IsResolved (h : Host) (q : Text) : Prop :=
  ∃ names, IsClear h ['/'] 0 names ∧ q = ofNames ['/'] names

theorem expandHomeText_of_isAbsolute (hp : isAbsolute p = true) : expandHomeText h p = p := by
  cases p with
  | nil => cases hp
  | cons c p =>
    obtain rfl : c = '/' := by simpa [isAbsolute] using hp
    rfl

/-- **Fixed points.** A path without links is its own normal form. -/
theorem IsResolved.normalizePath (hq : IsResolved h q) : Roots.normalizePath h q = .ok q := by
  obtain ⟨names, hclear, rfl⟩ := hq
  have hnames := hclear.isName
  have htext := Parsed.toText_ofText_ofNames hnames
  have habs := isAbsolute_ofNames (Or.inl rfl) names
  have habsolute : h.absolute (ofNames ['/'] names) = .ok (ofNames ['/'] names) := by
    rw [Host.absolute, if_pos habs, normalize_ofNames (Or.inl rfl) hnames]
  have hhome : expandHome h (Parsed.ofText (ofNames ['/'] names)) =
      .ok (Parsed.ofText (ofNames ['/'] names)) := by
    rw [expandHome, Parsed.ofText, rootOf_ofNames (Or.inl rfl) hnames]
  have hfollow : followLinks h (ofNames ['/'] names) = .ok (ofNames ['/'] names) := by
    have htraced := traced_ofNames hclear
    rw [traced] at htraced
    rw [followLinks, htraced]
    exact habsolute
  have hnull : h.node (ofNames ['/'] names) ≠ .error .nullCharacter := by
    intro hnode
    rcases Host.nodeAt_fault hnode with ⟨cause, hcause⟩ | ⟨-, hmem⟩
    · cases hcause
    · exact null_notMem_ofNames (Or.inl rfl) (fun n hn => (hnames n hn).no_null) hmem
  -- Whatever the file system says of the path, both ways lead to its text.
  have hresolve : resolve h (ofNames ['/'] names) = .ok (ofNames ['/'] names) ∨
      resolve h (ofNames ['/'] names) = .error .linkLoop := by
    rw [resolve, hhome]
    dsimp only
    rw [htext, hfollow]
    dsimp only
    rw [htext]
    split
    · exact Or.inr rfl
    · next hnode => exact absurd hnode hnull
    · exact Or.inl rfl
  rw [Roots.normalizePath]
  rcases hresolve with hresolve | hresolve
  · rw [hresolve]
    exact congrArg Except.ok (stripTrailing_ofNames hnames)
  · rw [hresolve]
    dsimp only
    rw [expandHomeText_of_isAbsolute habs, habsolute]
    exact congrArg Except.ok (stripTrailing_ofNames hnames)

/-! ## From the working directory -/

/-- The place so many directories up. -/
def above : Nat → List Text → List Text
  | 0, place => place
  | ups + 1, place => above ups place.dropLast

theorem above_isPrefix (ups : Nat) (place : List Text) : above ups place <+: place := by
  induction ups generalizing place with
  | zero => exact List.prefix_rfl
  | succ ups ih => exact (ih place.dropLast).trans (List.dropLast_prefix place)

theorem walk_ups (tree : Node) (purpose : Host.Purpose) (links ups : Nat)
    (place rest : List Text) :
    Host.walk tree purpose links place (List.replicate ups ['.', '.'] ++ rest) =
      Host.walk tree purpose links (above ups place) rest := by
  induction ups generalizing place with
  | zero => rfl
  | succ ups ih => rw [List.replicate_succ, List.cons_append, Host.walk_above, ih, above]

theorem foldl_ups {place : List Text} (hplace : ∀ n ∈ place, IsName n) (ups : Nat) :
    (List.replicate ups ['.', '.']).foldl (addComponent true) place.reverse =
      (above ups place).reverse := by
  induction ups generalizing place with
  | zero => rfl
  | succ ups ih =>
    have hup : addComponent true place.reverse ['.', '.'] = place.dropLast.reverse := by
      rcases List.eq_nil_or_concat' place with rfl | ⟨init, last, rfl⟩
      · rfl
      · rw [List.reverse_concat, List.dropLast_concat, addComponent.eq_def, if_neg (by decide),
          if_pos rfl]
        exact if_neg (hplace last (by simp)).ne_above
    rw [List.replicate_succ, List.foldl_cons, hup,
      ih fun n hn => hplace n ((List.dropLast_prefix place).subset hn), above]

/-- The working directory is one of the tree. -/
structure HasDirectory (h : Host) : Prop where
  isName : ∀ n ∈ h.directory, IsName n
  exists_directory : ∃ es, h.tree.get? h.directory = some (.directory es)

/-- What names lead to behind those of a directory, they lead to from there. -/
theorem ends_walk_of_directories {tree n : Node} {links : Nat} {place rest : List Text}
    (hnames : ∀ m ∈ names, IsName m)
    (hdirectory : ∃ es, tree.get? (place ++ names) = some (.directory es))
    (hends : Host.Ends (Host.walk tree .entry links place (names ++ rest)) n) :
    Host.Ends (Host.walk tree .entry links (place ++ names) rest) n := by
  induction names generalizing place with
  | nil => rwa [List.append_nil]
  | cons name names ih =>
    rw [List.forall_mem_cons] at hnames
    have hsplit : place ++ name :: names = place ++ [name] ++ names := by simp
    rw [hsplit] at hdirectory ⊢
    obtain ⟨es, hes⟩ := hdirectory
    obtain ⟨fs, hfs⟩ := Node.exists_directory_of_isPrefix (List.prefix_append _ _) hes
    rw [List.cons_append, Host.walk, if_neg (by simp [hnames.1.ne_nil, hnames.1.ne_here]),
      if_neg hnames.1.ne_above, if_neg (by simp)] at hends
    by_cases hlong : Host.maxNameBytes < Utf8.byteLength name
    · rw [if_pos hlong] at hends
      exact absurd hends Host.not_ends_error
    · rw [if_neg hlong, hfs] at hends
      exact ih hnames.2 ⟨es, hes⟩ hends

theorem isAbsolute_pathFrom (hnames : ∀ n ∈ names, IsName n) (ups : Nat) :
    isAbsolute (pathFrom [] ups names) = false :=
  isAbsolute_intercalate_of_ne_nil (part_of_mem ups hnames)

/-- A walk from the working directory says what a relative path leads to. -/
theorem nodeAt_of_ends {purpose : Host.Purpose} {n : Node} (hrel : isAbsolute p = false)
    (hne : p ≠ []) (hnull : '\x00' ∉ p) (hlost : h.lost = 0)
    (hshort : Utf8.byteLength p < Host.maxPathBytes)
    (hends : Host.Ends
      (Host.walk h.tree purpose Host.maxLinks h.directory (p.splitOn '/')) n) :
    h.nodeAt purpose p = .ok n := by
  obtain ⟨place, hwalk⟩ := hends
  have hlocate : h.locate purpose p = .ok ⟨place, some n⟩ := by
    rw [Host.locate, if_neg (by simpa using hnull), if_neg (by simpa using hne),
      if_neg (Nat.not_le_of_lt hshort)]
    dsimp only
    rw [if_neg (by simp [hrel]), Host.walkHere, hlost, Host.climb]
    dsimp only
    rw [hwalk]
    rfl
  rw [Host.nodeAt, hlocate]

/-- The absolute path of a path that leads up and then down. -/
theorem absolute_pathFrom (hh : HasDirectory h) (hlost : h.lost = 0)
    (hnames : ∀ n ∈ names, IsName n) (ups : Nat) :
    h.absolute (pathFrom [] ups names) = .ok (ofNames ['/'] (above ups h.directory ++ names)) := by
  have hrel := isAbsolute_pathFrom hnames ups
  have hall : ∀ n ∈ above ups h.directory ++ names, IsName n := List.forall_mem_append.2
    ⟨fun n hn => hh.isName n ((above_isPrefix ups _).subset hn), hnames⟩
  have hcurrent : h.currentPath = .ok (ofNames ['/'] h.directory) := if_pos hlost
  rw [Host.absolute, if_neg (by simp [hrel]), hcurrent]
  refine congrArg Except.ok ?_
  rw [← normalize_ofNames (Or.inl rfl) hall]
  refine normalize_congr ?_ ?_
  · rw [rootOf_join_eq hrel, rootOf_ofNames (Or.inl rfl) hh.isName,
      rootOf_ofNames (Or.inl rfl) hall]
  · have hcomponents : components (pathFrom [] ups names) =
        List.replicate ups ['.', '.'] ++ names :=
      components_intercalate_of_ne_nil (part_of_mem ups hnames)
    rw [isAbsolute_ofNames (Or.inl rfl), components_join _ hrel, hcomponents,
      components_ofNames (Or.inl rfl) hh.isName, components_ofNames (Or.inl rfl) hall,
      resolved_append, List.foldl_append, resolved, resolved, foldl_addComponent true [] hh.isName,
      List.append_nil, foldl_ups hh.isName, foldl_addComponent true _ hnames,
      foldl_addComponent true [] hall, List.append_nil, List.reverse_append]

theorem ends_of_linkNode {place : List Text} (hplace : ∀ n ∈ place, IsName n) {n : Node}
    (hnode : h.linkNode (ofNames ['/'] place) = .ok n) :
    Host.Ends (Host.walk h.tree .entry Host.maxLinks [] place) n := by
  have hnull := Host.null_notMem_of_nodeAt hnode
  have hends := ((Host.nodeAt_eq_ok_iff (isAbsolute_ofNames (Or.inl rfl) place) hnull).1 hnode).2
  rwa [Host.walk_splitOn_ofNames (Or.inl rfl) hplace] at hends

/-- On the way to the working directory there are directories only. -/
theorem linkTarget?_of_isPrefix (hh : HasDirectory h) {place : List Text}
    (hplace : place <+: h.directory) : linkTarget? h (ofNames ['/'] place) = .ok none := by
  obtain ⟨es, hes⟩ := hh.exists_directory
  obtain ⟨fs, hfs⟩ := Node.exists_directory_of_isPrefix hplace hes
  have hnames : ∀ n ∈ place, IsName n := fun n hn => hh.isName n (hplace.subset hn)
  have hnull := null_notMem_ofNames (Or.inl rfl) fun n hn => (hnames n hn).no_null
  refine linkTarget?_eq_none_iff.2 ⟨hnull, fun target htarget => ?_⟩
  have hends := ends_of_linkNode hnames htarget
  rw [← List.append_nil place] at hends
  have hlast := ends_walk_of_directories hnames ⟨fs, hfs⟩ hends
  rw [Host.walk, Host.ends_ok_iff, List.nil_append, hfs] at hlast
  cases hlast

/-- What is no link from the working directory is none from the root. -/
theorem linkTarget?_of_pathFrom {ups : Nat} (hh : HasDirectory h) (hlost : h.lost = 0)
    (hnames : ∀ n ∈ names, IsName n) (hne : names ≠ [])
    (hshort : Utf8.byteLength (pathFrom [] ups names) < Host.maxPathBytes)
    (hlink : linkTarget? h (pathFrom [] ups names) = .ok none) :
    linkTarget? h (ofNames ['/'] (above ups h.directory ++ names)) = .ok none := by
  rw [linkTarget?_eq_none_iff] at hlink ⊢
  obtain ⟨es, hes⟩ := hh.exists_directory
  have habove : ∀ n ∈ above ups h.directory, IsName n := fun n hn =>
    hh.isName n ((above_isPrefix ups _).subset hn)
  have hall := List.forall_mem_append.2 ⟨habove, hnames⟩
  have hnull := null_notMem_ofNames (Or.inl rfl) fun n hn => (hall n hn).no_null
  refine ⟨hnull, fun target htarget => ?_⟩
  have hfrom := ends_walk_of_directories habove
    (Node.exists_directory_of_isPrefix (above_isPrefix ups _) hes) (ends_of_linkNode hall htarget)
  have hparts := part_of_mem ups hnames
  have hsplit : (pathFrom [] ups names).splitOn '/' = List.replicate ups ['.', '.'] ++ names :=
    List.splitOn_intercalate '/' (fun n hn => (hparts n hn).2) (by simp [hne])
  have hpath : pathFrom [] ups names ≠ [] := by
    intro hnil
    rw [hnil, List.splitOn_nil] at hsplit
    exact (hparts [] (hsplit ▸ List.mem_singleton_self _)).1 rfl
  refine hlink.2 target
    (nodeAt_of_ends (isAbsolute_pathFrom hnames ups) hpath hlink.1 hlost hshort ?_)
  rw [hsplit, walk_ups]
  exact hfrom

/-- The names of a path without links have no links behind those of the directory that it leads up
to, unless the path is too long to be looked up. -/
theorem IsClear.absolute {ups : Nat} (hh : HasDirectory h) (hlost : h.lost = 0)
    (hclear : IsClear h [] ups names)
    (hshort : Utf8.byteLength (pathFrom [] ups names) < Host.maxPathBytes) :
    IsClear h ['/'] 0 (above ups h.directory ++ names) where
  isName := List.forall_mem_append.2
    ⟨fun n hn => hh.isName n ((above_isPrefix ups _).subset hn), hclear.isName⟩
  clear place hplace _ := by
    rcases List.prefix_or_prefix_of_prefix hplace (List.prefix_append _ names) with hup | hdown
    · exact linkTarget?_of_isPrefix hh (hup.trans (above_isPrefix ups _))
    · obtain ⟨below, rfl⟩ := hdown
      have hfirst := (List.prefix_append_right_inj _).1 hplace
      by_cases hbelow : below = []
      · rw [hbelow, List.append_nil]
        exact linkTarget?_of_isPrefix hh (above_isPrefix ups _)
      · have hlength : Utf8.byteLength (pathFrom [] ups below) ≤
            Utf8.byteLength (pathFrom [] ups names) :=
          Utf8.byteLength_le_of_sublist
            (Text.intercalate_sublist '/' (hfirst.sublist.append_left (List.replicate ups _)))
        exact linkTarget?_of_pathFrom hh hlost (hclear.of_isPrefix hfirst).isName hbelow
          (hlength.trans_lt hshort) (hclear.clear below hfirst hbelow)

/-! ## Normal forms -/

/-- Why the normal form of a path may not be a path without links. -/
inductive Unfollowed (h : Host) (p q : Text) : Prop
  /-- Its links cannot be followed, and it has other parts than its normal form. -/
  | fallback {e : Fault} (hresolve : resolve h p = .error e)
      (hparts : Parsed.ofText q ≠ Parsed.ofText p)
  /-- Its links lead in a circle. -/
  | circle {expanded : Parsed} {t : Traced} (hhome : expandHome h (.ofText p) = .ok expanded)
      (htraced : traced h expanded.toText = .ok t) (hcircle : t.complete = false)
  /-- It is counted from the working directory, and too long there to be looked up. -/
  | tooLong {expanded : Parsed} {t : Traced} (hhome : expandHome h (.ofText p) = .ok expanded)
      (htraced : traced h expanded.toText = .ok t) (hrel : isAbsolute t.path = false)
      (hlong : Host.maxPathBytes ≤ Utf8.byteLength t.path)

theorem resolve_eq_ok (hq : resolve h p = .ok q) :
    ∃ expanded t s, expandHome h (.ofText p) = .ok expanded ∧
      traced h expanded.toText = .ok t ∧ h.absolute t.path = .ok s ∧
      q = (Parsed.ofText s).toText := by
  rw [resolve] at hq
  split at hq
  · cases hq
  next expanded hhome =>
  split at hq
  · cases hq
  next s hs =>
  obtain ⟨t, htraced, habsolute⟩ := bind_eq_ok_iff.1 hs
  refine ⟨expanded, t, s, hhome, htraced, habsolute, ?_⟩
  dsimp only at hq
  split at hq
  · cases hq
  · cases hq
  · exact (Except.ok.inj hq).symm

/-- The absolute path of a path without links is one, unless the path is too long to be looked
up. -/
theorem Followed.absolute (hh : HasDirectory h) (hp : Followed h p) (hq : h.absolute p = .ok q) :
    IsResolved h q ∨ isAbsolute p = false ∧ Host.maxPathBytes ≤ Utf8.byteLength p := by
  obtain ⟨front, ups, names, hfront, hclear, rfl⟩ := hp
  rcases hfront with rfl | ⟨rfl, rfl⟩
  · have hrel := isAbsolute_pathFrom hclear.isName ups
    have hlost : h.lost = 0 := by
      by_contra hlost
      rw [Host.absolute, if_neg (by simp [hrel]), Host.currentPath, if_neg hlost] at hq
      cases hq
    rw [absolute_pathFrom hh hlost hclear.isName] at hq
    obtain rfl := Except.ok.inj hq
    rcases Nat.lt_or_ge (Utf8.byteLength (pathFrom [] ups names)) Host.maxPathBytes with
      hshort | hlong
    · exact Or.inl ⟨_, hclear.absolute hh hlost hshort, rfl⟩
    · exact Or.inr ⟨hrel, hlong⟩
  · have hp : pathFrom ['/'] 0 names = ofNames ['/'] names := rfl
    rw [hp, Host.absolute, if_pos (isAbsolute_ofNames (Or.inl rfl) names),
      normalize_ofNames (Or.inl rfl) hclear.isName] at hq
    exact Or.inl ⟨names, hclear, (Except.ok.inj hq).symm⟩

/-- Where a path is resolved, its normal form has no links, unless they were not all followed. -/
theorem isResolved_of_resolve (hh : HasDirectory h) (hq : resolve h p = .ok q) (root : Text) :
    IsResolved h (stripTrailing q) ∨ Unfollowed h p root := by
  obtain ⟨expanded, t, s, hhome, htraced, habsolute, rfl⟩ := resolve_eq_ok hq
  by_cases hcomplete : t.complete = true
  · have hbegin : Followed h (if isAbsolute expanded.toText then ['/'] else []) := by
      split
      · exact .root h
      · exact .here h
    have hfollowed := (followed_trace hbegin (.nil h) htraced hcomplete).1
    rcases hfollowed.absolute hh habsolute with ⟨names, hclear, rfl⟩ | ⟨hrel, hlong⟩
    · refine Or.inl ⟨names, hclear, ?_⟩
      rw [Parsed.toText_ofText_ofNames hclear.isName, stripTrailing_ofNames hclear.isName]
    · exact Or.inr (.tooLong hhome htraced hrel hlong)
  · exact Or.inr (.circle hhome htraced (Bool.eq_false_iff.2 hcomplete))

/-! ## Twice -/

/-- A path that is its own normal form but for its links stays as it is where they cannot be
followed. -/
theorem normalize_of_fallback {e : Fault} {s : Text} (hresolve : resolve h q = .error e)
    (hnull : e ≠ .nullCharacter) (hs : h.absolute p = .ok s) (hq : q = stripTrailing s) :
    normalize h q = .ok q := by
  obtain ⟨r, hr, rfl⟩ : ∃ r, isAbsolute r = true ∧ s = Path.normalize r := by
    rw [Host.absolute] at hs
    split at hs
    · next habs => exact ⟨p, habs, (Except.ok.inj hs).symm⟩
    · obtain ⟨c, hcurrent, hs⟩ := map_eq_ok_iff.1 hs
      refine ⟨join c p, isAbsolute_join ?_ p, hs.symm⟩
      rw [Host.currentPath] at hcurrent
      split at hcurrent
      · exact Except.ok.inj hcurrent ▸ rfl
      · cases hcurrent
  have hfixed : isAbsolute q = true ∧ stripTrailing (Path.normalize q) = q := by
    rw [hq]
    rcases stripTrailing_normalize hr with hroot | hsame
    · rw [hroot]
      exact ⟨rfl, rfl⟩
    · rw [hsame, normalize_normalize, hsame]
      exact ⟨isAbsolute_normalize hr, rfl⟩
  have hne : q ≠ [] := fun hnil => by
    rw [hnil] at hfixed
    cases hfixed.1
  rw [normalize, if_neg (by simpa using hne), normalizePath, hresolve]
  split
  · next heq => cases heq
  · next heq => exact absurd (Except.error.inj heq) hnull
  · rw [expandHomeText_of_isAbsolute hfixed.1, Host.absolute, if_pos hfixed.1]
    exact congrArg Except.ok hfixed.2

theorem isResolved_currentPath (hh : HasDirectory h) {c : Text} (hc : h.currentPath = .ok c) :
    IsResolved h c := by
  rw [Host.currentPath] at hc
  split at hc
  · next hlost =>
    have hclear := (IsClear.nil h [] 0).absolute hh hlost (by decide)
    rw [List.append_nil] at hclear
    exact ⟨h.directory, hclear, (Except.ok.inj hc).symm⟩
  · cases hc

theorem IsResolved.normalize (hq : IsResolved h q) : Roots.normalize h q = .ok q := by
  have hne : q ≠ [] := by
    obtain ⟨names, -, rfl⟩ := hq
    exact ofNames_ne_nil (Or.inl rfl) names
  rw [Roots.normalize, if_neg (by simpa using hne)]
  exact hq.normalizePath

/-- **Normalizing twice.** The normal form of a path is its own normal form, unless links are left
in it that were not followed. -/
theorem normalize_again (hh : HasDirectory h) (hq : normalize h p = .ok q) :
    normalize h q = .ok q ∨ ¬IsResolved h q ∧ Unfollowed h p q := by
  by_cases hresolved : IsResolved h q
  · exact Or.inl hresolved.normalize
  rw [normalize] at hq
  split at hq
  · obtain ⟨c, hcurrent, hq⟩ := bind_eq_ok_iff.1 hq
    have hc := isResolved_currentPath hh hcurrent
    have hsame : Except.ok c = Except.ok q := hc.normalizePath.symm.trans hq
    exact absurd (Except.ok.inj hsame ▸ hc) hresolved
  · rw [normalizePath] at hq
    split at hq
    · next r hr =>
      obtain rfl := Except.ok.inj hq
      exact Or.inr ⟨hresolved, (isResolved_of_resolve hh hr _).resolve_left hresolved⟩
    · cases hq
    · next e hnull hresolve =>
      by_cases hparts : Parsed.ofText q = Parsed.ofText p
      · -- Only the parts of a path are resolved, so its normal form is not resolved either.
        have hsame : resolve h q = .error e := by
          rw [resolve, hparts]
          exact hresolve
        obtain ⟨s, hs, hq⟩ := map_eq_ok_iff.1 hq
        exact Or.inl (normalize_of_fallback hsame hnull hs hq.symm)
      · exact Or.inr ⟨hresolved, .fallback hresolve hparts⟩

/-- A working directory with links: to a directory beside, to itself, and one with the name of a
home directory that nobody has. -/
def linkedHost : Host where
  tree := .directory [("w".toList, .directory [("real".toList, .directory []),
    ("x".toList, .link "real".toList), ("loop".toList, .link "loop".toList),
    ("~nobody".toList, .link "real".toList)])]
  directory := ["w".toList]
  lost := 0
  home := ['/']
  users := []
  clock := 0

theorem hasDirectory_linkedHost : HasDirectory linkedHost where
  isName := by decide
  exists_directory := ⟨_, rfl⟩

theorem normalize_again_linkedHost :
    HasDirectory linkedHost ∧ normalize linkedHost "x/../x/".toList = .ok "/w/real".toList ∧
      (normalize linkedHost "/w/real".toList = .ok "/w/real".toList ∨
        ¬IsResolved linkedHost "/w/real".toList ∧
          Unfollowed linkedHost "x/../x/".toList "/w/real".toList) :=
  have hh : HasDirectory linkedHost := hasDirectory_linkedHost
  have hq : normalize linkedHost "x/../x/".toList = .ok "/w/real".toList := by cbv
  ⟨hh, hq, normalize_again hh hq⟩

/-- Behind a link in a circle, and under the name of a home that nobody has, a link is left in the
normal form, and followed when that is normalized again. -/
theorem normalize_again_differs :
    normalize linkedHost "loop/../x".toList = .ok "/w/x".toList ∧
      normalize linkedHost "~nobody".toList = .ok "/w/~nobody".toList ∧
      normalize linkedHost "/w/x".toList = .ok "/w/real".toList ∧
      normalize linkedHost "/w/~nobody".toList = .ok "/w/real".toList := by
  refine ⟨?_, ?_, ?_, ?_⟩ <;> cbv

end Bindery.Roots

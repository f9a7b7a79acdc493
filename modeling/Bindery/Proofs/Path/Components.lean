import Bindery.Proofs.Path.Names
import Mathlib.Data.List.TakeWhile

/-!
# Paths by their components

Of any path, normalized or not, the slashes in front and the components that are not empty are all
that joining, splitting and normalizing make a difference to.

* `components_join`, `rootOf_join`; `components_split`, `rootOf_split`.
* `normalize_eq_ofNames`: a path without `..` is normalized by leaving `.` out.
-/

namespace Bindery.Path

variable {p q : Text}

theorem mem_of_mem_components {part : Text} (hpart : part ∈ components p) {c : Char}
    (hc : c ∈ part) : c ∈ p :=
  Text.mem_of_mem_splitOn (List.mem_of_mem_filter hpart) hc

/-- Every character but the slashes is in a component. -/
theorem exists_component_of_mem {c : Char} (hc : c ∈ p) (hslash : c ≠ '/') :
    ∃ part ∈ components p, c ∈ part := by
  have hsplit : List.intercalate ['/'] (p.splitOn '/') = p := List.intercalate_splitOn '/'
  rw [← hsplit] at hc
  obtain ⟨part, hpart, hc⟩ := (Text.mem_of_mem_intercalate hc).resolve_left hslash
  refine ⟨part, List.mem_filter.2 ⟨hpart, ?_⟩, hc⟩
  simpa using List.ne_nil_of_mem hc

/-! ## Slashes -/

theorem components_append_cons (p q : Text) :
    components (p ++ '/' :: q) = components p ++ components q := by
  rw [components, List.splitOn_append_cons_self, List.filter_append]
  rfl

theorem components_of_slashes {s : Text} (hs : ∀ c ∈ s, c = '/') : components s = [] := by
  induction s with
  | nil => rfl
  | cons c s ih =>
    rw [List.forall_mem_cons] at hs
    obtain ⟨rfl, hs⟩ := hs
    have hcons := components_append_cons [] s
    rw [ih hs] at hcons
    exact hcons

theorem components_append_slashes_append {s : Text} (hs : ∀ c ∈ s, c = '/') (hne : s ≠ [])
    (p q : Text) : components (p ++ (s ++ q)) = components p ++ components q := by
  induction s generalizing p with
  | nil => exact (hne rfl).elim
  | cons c s ih =>
    rw [List.forall_mem_cons] at hs
    obtain ⟨rfl, hs⟩ := hs
    by_cases hnil : s = []
    · subst hnil
      exact components_append_cons p q
    · have happ := ih hs hnil (p ++ ['/'])
      rw [components_append_cons p [], List.append_assoc] at happ
      rw [List.cons_append, ← List.singleton_append, happ]
      simp [components]

theorem components_slashes_append {s : Text} (hs : ∀ c ∈ s, c = '/') (p : Text) :
    components (s ++ p) = components p := by
  by_cases hne : s = []
  · rw [hne, List.nil_append]
  · exact components_append_slashes_append hs hne [] p

/-- A text without slashes is one component, or none if it is empty. -/
theorem components_of_notMem (hp : '/' ∉ p) : components p = if p = [] then [] else [p] := by
  rw [components, List.splitOn_eq_singleton hp]
  split
  · next hnil =>
    subst hnil
    rfl
  · next hne => simp [hne]

/-- Of what a path begins with, only the slashes in front make its root. -/
theorem rootOf_slashes_append {s : Text} (hs : ∀ c ∈ s, c = '/') (hp : isAbsolute p = false) :
    rootOf (s ++ p) = rootOf s := by
  cases p with
  | nil => rw [List.append_nil]
  | cons c p =>
    have hc : c ≠ '/' := by
      rintro rfl
      exact absurd hp nofun
    match s, hs with
    | [], _ => simp [rootOf, hc]
    | [a], hs =>
      obtain rfl := hs a (by simp)
      simp [rootOf, hc]
    | [a, b], hs =>
      obtain rfl := hs a (by simp)
      obtain rfl := hs b (by simp)
      simp [rootOf, hc]
    | a :: b :: c :: s, hs =>
      obtain rfl := hs a (by simp)
      obtain rfl := hs b (by simp)
      obtain rfl := hs c (by simp)
      rfl

/-- What follows the slashes in front of a path is not absolute. -/
theorem isAbsolute_dropWhile (p : Text) : isAbsolute (p.dropWhile (· == '/')) = false := by
  cases hr : p.dropWhile (· == '/') with
  | nil => rfl
  | cons c r =>
    have hne : p.dropWhile (· == '/') ≠ [] := hr ▸ List.cons_ne_nil c r
    have hc := List.head_dropWhile_not (· == '/') hne
    simp only [hr, List.head_cons] at hc
    simpa [isAbsolute] using hc

theorem exists_slashes_append (p : Text) :
    ∃ s r, (∀ c ∈ s, c = '/') ∧ isAbsolute r = false ∧ p = s ++ r := by
  refine ⟨p.takeWhile (· == '/'), p.dropWhile (· == '/'), ?_, isAbsolute_dropWhile p,
    List.takeWhile_append_dropWhile.symm⟩
  intro c hc
  simpa using List.mem_takeWhile_imp hc

/-- What is put behind a path does not change its root, unless it makes slashes in front more. -/
theorem rootOf_append (h : isAbsolute q = false ∨ ∃ c ∈ p, c ≠ '/') :
    rootOf (p ++ q) = rootOf p := by
  obtain ⟨s, r, hs, hr, rfl⟩ := exists_slashes_append p
  rw [rootOf_slashes_append hs hr, List.append_assoc]
  cases r with
  | nil =>
    rw [List.nil_append]
    refine rootOf_slashes_append hs (h.resolve_right ?_)
    rintro ⟨c, hc, hne⟩
    exact hne (hs c (by simpa using hc))
  | cons c r => exact rootOf_slashes_append hs hr

theorem isAbsolute_iff_rootOf : isAbsolute p = true ↔ rootOf p ≠ [] := by
  constructor
  · intro hp
    rcases isFront_rootOf hp with h | h <;> rw [h] <;> exact List.cons_ne_nil _ _
  · intro hp
    cases p with
    | nil => exact absurd rfl hp
    | cons c p =>
      by_cases hc : c = '/'
      · rw [hc]
        rfl
      · exact absurd (by simp [rootOf, hc]) hp

theorem isAbsolute_of_rootOf {front : Text} (hfront : IsFront front) (hp : rootOf p = front) :
    isAbsolute p = true := by
  rw [isAbsolute_iff_rootOf, hp]
  rcases hfront with rfl | rfl <;> exact List.cons_ne_nil _ _

/-! ## Joining -/

theorem components_join (base : Text) (hp : isAbsolute p = false) :
    components (join base p) = components base ++ components p := by
  rw [join, if_neg (by simp [hp])]
  split
  · next hbase =>
    rw [Bool.or_eq_true, List.isEmpty_iff, beq_iff_eq] at hbase
    rcases hbase with rfl | hlast
    · rfl
    · obtain ⟨b, rfl⟩ := List.getLast?_eq_some_iff.1 hlast
      rw [List.append_assoc, List.singleton_append, components_append_cons,
        components_append_cons b []]
      simp [components]
  · exact components_append_cons base p

theorem rootOf_join {base : Text} (hbase : isAbsolute base = true) (hp : isAbsolute p = false) :
    rootOf (join base p) = rootOf base := by
  rw [join, if_neg (by simp [hp])]
  split
  · exact rootOf_append (Or.inl hp)
  · next hslash =>
    rw [Bool.or_eq_true, List.isEmpty_iff, beq_iff_eq, not_or] at hslash
    obtain ⟨b, c, rfl⟩ := (List.eq_nil_or_concat' base).resolve_left hslash.1
    refine rootOf_append (Or.inr ⟨c, by simp, ?_⟩)
    rintro rfl
    exact hslash.2 (List.getLast?_concat ..)

theorem isAbsolute_append (hp : isAbsolute p = true) (q : Text) : isAbsolute (p ++ q) = true := by
  cases p with
  | nil => exact absurd hp nofun
  | cons c p => exact hp

theorem isAbsolute_join {base : Text} (hbase : isAbsolute base = true) (p : Text) :
    isAbsolute (join base p) = true := by
  rw [join]
  split
  · assumption
  · split <;> exact isAbsolute_append hbase _

theorem mem_of_mem_join {base : Text} {c : Char} (hc : c ∈ join base p) :
    c = '/' ∨ c ∈ base ∨ c ∈ p := by
  rw [join] at hc
  split at hc
  · exact Or.inr (Or.inr hc)
  · split at hc
    · exact Or.inr (List.mem_append.1 hc)
    · rw [List.mem_append, List.mem_cons] at hc
      rcases hc with hc | hc | hc
      · exact Or.inr (Or.inl hc)
      · exact Or.inl hc
      · exact Or.inr (Or.inr hc)

theorem components_intercalate_of_ne_nil {names : List Text}
    (hnames : ∀ n ∈ names, n ≠ [] ∧ '/' ∉ n) :
    components (List.intercalate ['/'] names) = names := by
  by_cases hnil : names = []
  · rw [hnil]
    rfl
  · rw [components, List.splitOn_intercalate '/' (fun n hn => (hnames n hn).2) hnil,
      List.filter_eq_self]
    intro n hn
    simpa using (hnames n hn).1

theorem components_intercalate {names : List Text} (hnames : ∀ n ∈ names, IsName n) :
    components (List.intercalate ['/'] names) = names :=
  components_intercalate_of_ne_nil fun n hn => ⟨(hnames n hn).ne_nil, (hnames n hn).no_slash⟩

/-! ## Splitting -/

/-- A path is split at the last slash; the slashes there are dropped, unless there is nothing but
slashes before them. -/
theorem exists_split (p : Text) :
    ∃ s, (∀ c ∈ s, c = '/') ∧ p = (split p).1 ++ (s ++ (split p).2) ∧ '/' ∉ (split p).2 ∧
      (s = [] → ∀ c ∈ (split p).1, c = '/') ∧ (s ≠ [] → ∃ c ∈ (split p).1, c ≠ '/') := by
  have hcut := Text.uptoLast_append_afterLast '/' p
  have hlast : '/' ∉ Text.afterLast '/' p := by
    intro hmem
    rw [Text.afterLast, List.mem_reverse] at hmem
    simpa using List.mem_takeWhile_imp hmem
  rw [split]
  dsimp only
  split
  · next hall =>
    refine ⟨[], List.forall_mem_nil _, hcut.symm, hlast, fun _ c hc => ?_, fun hne => absurd rfl hne⟩
    simpa using List.all_eq_true.1 hall c hc
  · next hall =>
    -- The slashes that are dropped are the last of the first part, and there is at least one.
    have hreverse : (Text.uptoLast '/' p).reverse = p.reverse.dropWhile (· != '/') :=
      List.reverse_reverse _
    have hdrop : Text.dropRightWhile (· == '/') (Text.uptoLast '/' p) ++
        ((Text.uptoLast '/' p).reverse.takeWhile (· == '/')).reverse = Text.uptoLast '/' p := by
      rw [Text.dropRightWhile, ← List.reverse_append, List.takeWhile_append_dropWhile,
        List.reverse_reverse]
    have hslashes : ∀ c ∈ ((Text.uptoLast '/' p).reverse.takeWhile (· == '/')).reverse,
        c = '/' := by
      intro c hc
      simpa using List.mem_takeWhile_imp (List.mem_reverse.1 hc)
    refine ⟨_, hslashes, ?_, hlast, ?_, fun _ => ?_⟩
    · rw [← List.append_assoc, hdrop, hcut]
    · intro hnil
      cases hu : p.reverse.dropWhile (· != '/') with
      | nil =>
        rw [hu, List.reverse_eq_nil_iff] at hreverse
        exact absurd (by rw [hreverse]; rfl) hall
      | cons c r =>
        have hne : p.reverse.dropWhile (· != '/') ≠ [] := hu ▸ List.cons_ne_nil c r
        have hc := List.head_dropWhile_not (· != '/') hne
        simp only [hu, List.head_cons, bne_eq_false_iff_eq] at hc
        rw [hreverse, hu, hc] at hnil
        exact absurd hnil (by simp)
    · by_contra hnone
      push Not at hnone
      refine hall (List.all_eq_true.2 fun c hc => ?_)
      rw [← hdrop, List.mem_append] at hc
      rcases hc with hc | hc
      · simp [hnone c hc]
      · simp [hslashes c hc]

theorem components_split (p : Text) :
    components (split p).1 ++ components (split p).2 = components p := by
  obtain ⟨s, hs, hp, -, hnil, -⟩ := exists_split p
  conv_rhs => rw [hp]
  by_cases hne : s = []
  · rw [hne, List.nil_append, components_slashes_append (hnil hne),
      components_of_slashes (hnil hne), List.nil_append]
  · rw [components_append_slashes_append hs hne]

theorem rootOf_split (p : Text) : rootOf (split p).1 = rootOf p := by
  obtain ⟨s, hs, hp, hlast, -, hother⟩ := exists_split p
  conv_rhs => rw [hp]
  refine (rootOf_append ?_).symm
  by_cases hne : s = []
  · rw [hne, List.nil_append]
    exact Or.inl (isAbsolute_eq_false hlast)
  · exact Or.inr (hother hne)

/-- A path that is its own directory is nothing but slashes. -/
theorem eq_slash_of_split_eq (hp : (split p).1 = p) : ∀ c ∈ p, c = '/' := by
  obtain ⟨s, -, hcut, -, hnil, -⟩ := exists_split p
  rw [hp] at hcut hnil
  have hempty := List.append_right_eq_self.1 hcut.symm
  exact hnil (List.append_eq_nil_iff.1 hempty).1

/-! ## Normalizing -/

theorem isAbsolute_normalize (hp : isAbsolute p = true) : isAbsolute (normalize p) = true := by
  have hroot : isAbsolute (rootOf p) = true := by
    rcases isFront_rootOf hp with h | h <;> rw [h] <;> rfl
  have happ := isAbsolute_append hroot
    (List.intercalate ['/'] ((p.splitOn '/').foldl (addComponent (!(rootOf p).isEmpty)) []).reverse)
  rw [normalize]
  split
  · next hnil =>
    rw [hnil] at happ
    cases happ
  · exact happ

/-- The components left are some of those before. -/
theorem mem_foldl_addComponent {rooted : Bool} {parts before : List Text} {n : Text}
    (hn : n ∈ parts.foldl (addComponent rooted) before) : n ∈ before ∨ n ∈ parts := by
  induction parts generalizing before with
  | nil => exact Or.inl hn
  | cons c parts ih =>
    rcases ih hn with hn | hn
    · have hadd : n ∈ c :: before := by
        rw [addComponent.eq_def] at hn
        split at hn
        · exact List.mem_cons_of_mem c hn
        · split at hn
          · split at hn
            · split at hn
              · exact absurd hn List.not_mem_nil
              · exact hn
            · split at hn
              · exact hn
              · exact List.mem_cons_of_mem c (List.mem_cons_of_mem _ hn)
          · exact hn
      rcases List.mem_cons.1 hadd with rfl | hn
      · exact Or.inr List.mem_cons_self
      · exact Or.inl hn
    · exact Or.inr (List.mem_cons_of_mem c hn)

theorem eq_slash_of_mem_rootOf {c : Char} (hc : c ∈ rootOf p) : c = '/' := by
  rw [rootOf.eq_def] at hc
  split at hc <;> simp at hc <;> exact hc

/-- No characters are new in a normalized path but a slash and the dot for the empty path. -/
theorem mem_of_mem_normalize {c : Char} (hc : c ∈ normalize p) : c = '/' ∨ c = '.' ∨ c ∈ p := by
  rw [normalize] at hc
  split at hc
  · exact Or.inr (Or.inl (List.mem_singleton.1 hc))
  · rcases List.mem_append.1 hc with hc | hc
    · exact Or.inl (eq_slash_of_mem_rootOf hc)
    · rcases Text.mem_of_mem_intercalate hc with hc | ⟨n, hn, hc⟩
      · exact Or.inl hc
      · have hpart := (mem_foldl_addComponent (List.mem_reverse.1 hn)).resolve_left List.not_mem_nil
        exact Or.inr (Or.inr (Text.mem_of_mem_splitOn hpart hc))

theorem foldl_addComponent_eq_filter {parts : List Text} (habove : ['.', '.'] ∉ parts)
    (before : List Text) :
    parts.foldl (addComponent true) before =
      (parts.filter fun c => !c.isEmpty && c != ['.']).reverse ++ before := by
  induction parts generalizing before with
  | nil => rfl
  | cons c parts ih =>
    rw [List.mem_cons, not_or] at habove
    rw [List.foldl_cons, ih habove.2, addComponent.eq_def, if_neg (Ne.symm habove.1)]
    by_cases hskip : c = [] ∨ c = ['.']
    · rw [if_pos hskip, List.filter_cons_of_neg]
      rcases hskip with rfl | rfl <;> decide
    · rw [if_neg hskip, List.filter_cons_of_pos]
      · simp
      · rw [not_or] at hskip
        simp [hskip]

/-- A path that does not lead upwards is normalized by leaving `.` out. -/
theorem normalize_eq_ofNames (hp : isAbsolute p = true) (habove : ['.', '.'] ∉ components p) :
    normalize p = ofNames (rootOf p) ((components p).filter (· != ['.'])) := by
  have hfront := isFront_rootOf hp
  have hrooted : (!(rootOf p).isEmpty) = true := by
    rcases hfront with h | h <;> rw [h] <;> rfl
  have hparts : ['.', '.'] ∉ p.splitOn '/' := fun hmem =>
    habove (List.mem_filter.2 ⟨hmem, rfl⟩)
  have hnames : ((p.splitOn '/').foldl (addComponent true) []).reverse =
      (components p).filter (· != ['.']) := by
    rw [foldl_addComponent_eq_filter hparts, List.append_nil, List.reverse_reverse, components,
      List.filter_filter]
    exact List.filter_congr fun c _ => Bool.and_comm _ _
  rw [normalize, hrooted, hnames]
  split
  · next h => exact (ofNames_ne_nil hfront _ h).elim
  · rfl

/-- Nothing but characters of the path is left of it. -/
theorem normalize_sublist (hp : isAbsolute p = true) (habove : ['.', '.'] ∉ components p) :
    (normalize p).Sublist p := by
  rw [normalize_eq_ofNames hp habove]
  obtain ⟨s, r, hs, hr, rfl⟩ := exists_slashes_append p
  rw [components_slashes_append hs, rootOf_slashes_append hs hr, ofNames]
  refine List.Sublist.append ?_ ?_
  · rw [rootOf.eq_def]
    split <;> simp
  · have hsplit : List.intercalate ['/'] (r.splitOn '/') = r := List.intercalate_splitOn '/'
    conv_rhs => rw [← hsplit]
    exact Text.intercalate_sublist '/' (List.filter_sublist.trans List.filter_sublist)

end Bindery.Path

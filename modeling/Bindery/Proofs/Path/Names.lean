import Bindery.Path.Basic
import Bindery.Proofs.Text.Cut

/-!
# Paths by their names

A normalized absolute path is the slashes in front and a list of names.  Every operation on the
text of such a path is an operation on the list.

* `IsName`: what an entry of a directory can be called.
* `ofNames`: the path of a list of names, `Spells` the same with a slash at the end allowed.
* `IsNormal.exists_ofNames`: every normalized absolute path is of this form.
* `join_ofNames`, `split_ofNames`, `splitOn_ofNames`, `normalize_ofNames`, `leading_ofNames`.
-/

namespace Bindery.Path

/-! ## Names -/

/-- A name that an entry of a directory can have. -/
structure IsName (n : Text) : Prop where
  ne_nil : n ≠ []
  ne_here : n ≠ ['.']
  ne_above : n ≠ ['.', '.']
  no_slash : '/' ∉ n
  no_null : '\x00' ∉ n

theorem IsName.isPart {n : Text} (hn : IsName n) : n ≠ [] ∧ '/' ∉ n :=
  ⟨hn.ne_nil, hn.no_slash⟩

instance (n : Text) : Decidable (IsName n) :=
  decidable_of_iff (n ≠ [] ∧ n ≠ ['.'] ∧ n ≠ ['.', '.'] ∧ '/' ∉ n ∧ '\x00' ∉ n)
    ⟨fun ⟨h₁, h₂, h₃, h₄, h₅⟩ => ⟨h₁, h₂, h₃, h₄, h₅⟩,
      fun h => ⟨h.ne_nil, h.ne_here, h.ne_above, h.no_slash, h.no_null⟩⟩

/-- A normalized absolute path. -/
structure IsNormal (p : Text) : Prop where
  isAbsolute : Path.isAbsolute p = true
  normalized : normalize p = p
  no_null : '\x00' ∉ p

/-- The slashes in front of a normalized absolute path. -/
def IsFront (front : Text) : Prop :=
  front = ['/'] ∨ front = ['/', '/']

/-- The path with the given slashes in front and the given names. -/
def ofNames (front : Text) (names : List Text) : Text :=
  front ++ List.intercalate ['/'] names

/-- A text is the path of given names, perhaps with a slash at its end. -/
def Spells (front : Text) (names : List Text) (p : Text) : Prop :=
  p = ofNames front names ∨ p = ofNames front (names ++ [[]])

variable {front : Text} {names : List Text}

@[simp] theorem ofNames_nil : ofNames front [] = front := by
  rw [ofNames, List.intercalate_nil, List.append_nil]

@[simp] theorem ofNames_singleton (n : Text) : ofNames front [n] = front ++ n := by
  rw [ofNames, List.intercalate_singleton]

theorem ofNames_append (hnames : names ≠ []) {more : List Text} (hmore : more ≠ []) :
    ofNames front (names ++ more) = ofNames front names ++ '/' :: List.intercalate ['/'] more := by
  rw [ofNames, ofNames, Text.intercalate_append '/' hnames hmore, List.append_assoc]

/-- Names that are joined already may be joined with those before them. -/
theorem ofNames_append_intercalate {more : List Text} (hmore : more ≠ []) :
    ofNames front (names ++ [List.intercalate ['/'] more]) = ofNames front (names ++ more) := by
  cases names with
  | nil => rw [List.nil_append, ofNames_singleton, List.nil_append, ofNames]
  | cons n names =>
    rw [ofNames_append (by simp) (by simp), ofNames_append (by simp) hmore,
      List.intercalate_singleton]

/-- A last name follows the path that has nothing in its place. -/
theorem ofNames_concat (n : Text) :
    ofNames front (names ++ [n]) = ofNames front (names ++ [[]]) ++ n := by
  cases names with
  | nil => simp
  | cons m names =>
    rw [ofNames_append (by simp) (by simp), ofNames_append (by simp) (by simp)]
    simp

/-- A path with nothing in the place of its last name ends in a slash. -/
theorem exists_ofNames_slash (hfront : IsFront front) (names : List Text) :
    ∃ s, ofNames front (names ++ [[]]) = s ++ ['/'] := by
  cases names with
  | nil =>
    rcases hfront with rfl | rfl
    · exact ⟨[], rfl⟩
    · exact ⟨['/'], rfl⟩
  | cons n names => exact ⟨ofNames front (n :: names), ofNames_append (by simp) (by simp)⟩

/-- A path that has names does not end in a slash. -/
theorem getLast?_ofNames (front : Text) (hne : names ≠ [])
    (hnames : ∀ n ∈ names, n ≠ [] ∧ '/' ∉ n) : (ofNames front names).getLast? ≠ some '/' := by
  obtain ⟨first, last, rfl⟩ := (List.eq_nil_or_concat' names).resolve_left hne
  obtain ⟨hlast, hslash⟩ := hnames last (by simp)
  obtain ⟨s, c, rfl⟩ := (List.eq_nil_or_concat' last).resolve_left hlast
  rw [ofNames_concat, ← List.append_assoc, List.getLast?_concat]
  intro hc
  exact hslash (by simp [Option.some.inj hc])

/-- Only the path of no names behind no slashes is empty. -/
theorem ofNames_ne_nil_of_cons (front : Text) {n : Text} (hn : n ≠ []) (names : List Text) :
    ofNames front (n :: names) ≠ [] := by
  rw [ofNames]
  cases names <;> simp [hn]

theorem ofNames_ne_nil (hfront : IsFront front) (names : List Text) : ofNames front names ≠ [] := by
  rcases hfront with rfl | rfl <;> exact nofun

theorem isAbsolute_ofNames (hfront : IsFront front) (names : List Text) :
    isAbsolute (ofNames front names) = true := by
  rcases hfront with rfl | rfl <;> rfl

theorem null_notMem_ofNames (hfront : IsFront front) (hnames : ∀ n ∈ names, '\x00' ∉ n) :
    '\x00' ∉ ofNames front names := by
  intro hmem
  rcases List.mem_append.1 hmem with hmem | hmem
  · rcases hfront with rfl | rfl <;> exact absurd hmem (by decide)
  · rcases Text.mem_of_mem_intercalate hmem with hslash | ⟨n, hn, hnull⟩
    · exact absurd hslash (by decide)
    · exact hnames n hn hnull

theorem isAbsolute_eq_false {p : Text} (hp : '/' ∉ p) : isAbsolute p = false := by
  cases p with
  | nil => rfl
  | cons c p =>
    have hc : c ≠ '/' := fun hc => hp (hc ▸ List.mem_cons_self)
    simp [isAbsolute, hc]

theorem isAbsolute_intercalate_of_ne_nil (hnames : ∀ n ∈ names, n ≠ [] ∧ '/' ∉ n) :
    isAbsolute (List.intercalate ['/'] names) = false := by
  cases names with
  | nil => rfl
  | cons n names =>
    obtain ⟨hne, hslash⟩ := hnames n List.mem_cons_self
    obtain ⟨c, r, rfl⟩ := List.exists_cons_of_ne_nil hne
    have hc : c ≠ '/' := fun hc => hslash (hc ▸ List.mem_cons_self)
    cases names <;> simp [isAbsolute, hc, List.intercalate_cons_cons]

theorem isAbsolute_intercalate (hnames : ∀ n ∈ names, IsName n) :
    isAbsolute (List.intercalate ['/'] names) = false :=
  isAbsolute_intercalate_of_ne_nil fun n hn => (hnames n hn).isPart

/-! ## Joining and splitting -/

/-- What is joined to a path, be it relative, is its last name. -/
theorem join_of_parts (hfront : front = [] ∨ IsFront front)
    (hnames : ∀ n ∈ names, n ≠ [] ∧ '/' ∉ n) {p : Text} (hp : isAbsolute p = false) :
    join (ofNames front names) p = ofNames front (names ++ [p]) := by
  rw [join, if_neg (by simp [hp])]
  cases names with
  | nil => rcases hfront with rfl | rfl | rfl <;> simp
  | cons n names =>
    have hne := ofNames_ne_nil_of_cons front (hnames n List.mem_cons_self).1 names
    have hlast := getLast?_ofNames front (List.cons_ne_nil n names) hnames
    rw [if_neg (by simp [hne, hlast]), ofNames_append (by simp) (by simp),
      List.intercalate_singleton]

theorem join_ofNames (hfront : IsFront front) (hnames : ∀ n ∈ names, IsName n) {p : Text}
    (hp : isAbsolute p = false) : join (ofNames front names) p = ofNames front (names ++ [p]) :=
  join_of_parts (Or.inr hfront) (fun n hn => (hnames n hn).isPart) hp

theorem join_ofNames_slash (hfront : IsFront front) {p : Text} (hp : isAbsolute p = false) :
    join (ofNames front (names ++ [[]])) p = ofNames front (names ++ [p]) := by
  obtain ⟨s, hs⟩ := exists_ofNames_slash hfront names
  rw [join, if_neg (by simp [hp]), if_pos (by simp [hs]), ← ofNames_concat]

/-- A slash at the end of a path makes no difference to what is joined to it. -/
theorem Spells.join {d p : Text} (hfront : IsFront front) (hnames : ∀ n ∈ names, IsName n)
    (hd : Spells front names d) (hp : isAbsolute p = false) :
    Path.join d p = ofNames front (names ++ [p]) := by
  rcases hd with rfl | rfl
  · exact join_ofNames hfront hnames hp
  · exact join_ofNames_slash hfront hp

/-- A path, be it relative, is split before its last name. -/
theorem split_of_parts (hfront : front = [] ∨ IsFront front)
    (hnames : ∀ n ∈ names, n ≠ [] ∧ '/' ∉ n) {p : Text} (hp : '/' ∉ p) :
    split (ofNames front (names ++ [p])) = (ofNames front names, p) := by
  cases names with
  | nil =>
    rw [List.nil_append, ofNames_singleton, ofNames_nil, split]
    rcases hfront with rfl | rfl | rfl
    · rw [List.nil_append, Text.uptoLast_of_notMem hp, Text.afterLast_of_notMem hp]
      rfl
    · have hcut : ['/'] ++ p = [] ++ '/' :: p := rfl
      rw [hcut, Text.uptoLast_append hp, Text.afterLast_append hp]
      rfl
    · have hcut : ['/', '/'] ++ p = ['/'] ++ '/' :: p := rfl
      rw [hcut, Text.uptoLast_append hp, Text.afterLast_append hp]
      rfl
  | cons n names =>
    -- The first part holds a name, so it is more than slashes, and one slash is dropped from it.
    have hlast := getLast?_ofNames front (List.cons_ne_nil n names) hnames
    have hcut : ofNames front (n :: names ++ [p]) = ofNames front (n :: names) ++ '/' :: p := by
      rw [ofNames_append (by simp) (by simp), List.intercalate_singleton]
    obtain ⟨t, c, hc⟩ := (List.eq_nil_or_concat' _).resolve_left
      (ofNames_ne_nil_of_cons front (hnames n List.mem_cons_self).1 names)
    have hne : c ≠ '/' := by
      rintro rfl
      exact hlast (by rw [hc, List.getLast?_concat])
    have hdrop : Text.dropRightWhile (· == '/') (t ++ [c] ++ ['/']) = t ++ [c] := by
      simp [Text.dropRightWhile, hne]
    rw [split, hcut, Text.uptoLast_append hp, Text.afterLast_append hp, hc,
      if_neg (by simp [hne]), hdrop]

theorem split_ofNames (hfront : IsFront front) (hnames : ∀ n ∈ names, IsName n) {p : Text}
    (hp : '/' ∉ p) : split (ofNames front (names ++ [p])) = (ofNames front names, p) :=
  split_of_parts (Or.inr hfront) (fun n hn => (hnames n hn).isPart) hp

/-- Nothing is dropped from the end of a path with parts. -/
theorem stripTrailing_of_parts (front : Text) {parts : List Text} (hne : parts ≠ [])
    (hparts : ∀ n ∈ parts, n ≠ [] ∧ '/' ∉ n) :
    stripTrailing (ofNames front parts) = ofNames front parts := by
  have hlast := getLast?_ofNames front hne hparts
  obtain ⟨n, more, rfl⟩ := List.exists_cons_of_ne_nil hne
  obtain ⟨t, c, hc⟩ := (List.eq_nil_or_concat' _).resolve_left
    (ofNames_ne_nil_of_cons front (hparts n List.mem_cons_self).1 more)
  have hslash : c ≠ '/' := by
    rintro rfl
    exact hlast (by rw [hc, List.getLast?_concat])
  rw [stripTrailing, hc]
  simp [Text.dropRightWhile, hslash]

theorem stripTrailing_ofNames (hnames : ∀ n ∈ names, IsName n) :
    stripTrailing (ofNames ['/'] names) = ofNames ['/'] names := by
  by_cases hne : names = []
  · rw [hne]
    rfl
  · exact stripTrailing_of_parts ['/'] hne fun n hn => (hnames n hn).isPart

theorem splitOn_ofNames (hfront : IsFront front) (hne : names ≠ [])
    (hnames : ∀ n ∈ names, '/' ∉ n) :
    (ofNames front names).splitOn '/' = front.map (fun _ => []) ++ names := by
  have hsplit := List.splitOn_intercalate '/' hnames hne
  rcases hfront with rfl | rfl
  · change ([] ++ '/' :: List.intercalate ['/'] names).splitOn '/' = _
    rw [List.splitOn_append_cons_self, hsplit]
    rfl
  · change ([] ++ '/' :: ([] ++ '/' :: List.intercalate ['/'] names)).splitOn '/' = _
    rw [List.splitOn_append_cons_self, List.splitOn_append_cons_self, hsplit]
    rfl

theorem components_ofNames (hfront : IsFront front) (hnames : ∀ n ∈ names, IsName n) :
    components (ofNames front names) = names := by
  cases names with
  | nil => rcases hfront with rfl | rfl <;> rfl
  | cons n names =>
    have hkeep : (n :: names).filter (!·.isEmpty) = n :: names := by
      rw [List.filter_eq_self]
      intro m hm
      simpa using (hnames m hm).ne_nil
    rw [components, splitOn_ofNames hfront (by simp) fun m hm => (hnames m hm).no_slash,
      List.filter_append, hkeep]
    simp

/-! ## Normalized paths -/

theorem rootOf_ofNames (hfront : IsFront front) (hnames : ∀ n ∈ names, IsName n) :
    rootOf (ofNames front names) = front := by
  have hrel := isAbsolute_intercalate hnames
  rw [ofNames]
  cases hs : List.intercalate ['/'] names with
  | nil => rcases hfront with rfl | rfl <;> rfl
  | cons c r =>
    have hc : c ≠ '/' := by
      rintro rfl
      rw [hs] at hrel
      exact absurd hrel (by simp [isAbsolute])
    rcases hfront with rfl | rfl
    · simp [rootOf, hc]
    · simp [rootOf, hc]

theorem foldl_addComponent (rooted : Bool) (before : List Text) (hnames : ∀ n ∈ names, IsName n) :
    names.foldl (addComponent rooted) before = names.reverse ++ before := by
  induction names generalizing before with
  | nil => rfl
  | cons n names ih =>
    rw [List.forall_mem_cons] at hnames
    obtain ⟨hn, hnames⟩ := hnames
    have hadd : addComponent rooted before n = n :: before := by
      rw [addComponent.eq_def, if_neg (by simp [hn.ne_nil, hn.ne_here]), if_neg hn.ne_above]
    rw [List.foldl_cons, hadd, ih _ hnames]
    simp

theorem normalize_ofNames (hfront : IsFront front) (hnames : ∀ n ∈ names, IsName n) :
    normalize (ofNames front names) = ofNames front names := by
  have hfold : ((ofNames front names).splitOn '/').foldl (addComponent (!front.isEmpty)) [] =
      names.reverse := by
    cases names with
    | nil => rcases hfront with rfl | rfl <;> rfl
    | cons n names =>
      rw [splitOn_ofNames hfront (by simp) fun m hm => (hnames m hm).no_slash, List.foldl_append,
        foldl_addComponent _ _ hnames]
      rcases hfront with rfl | rfl <;> simp [addComponent]
  rw [normalize, rootOf_ofNames hfront hnames, hfold, List.reverse_reverse]
  split
  · next h => exact (ofNames_ne_nil hfront names h).elim
  · rfl

theorem isFront_rootOf {p : Text} (hp : isAbsolute p = true) : IsFront (rootOf p) := by
  cases p with
  | nil => exact absurd hp nofun
  | cons c p =>
    obtain rfl : c = '/' := by simpa [isAbsolute] using hp
    rw [rootOf.eq_def]
    split
    · exact Or.inl rfl
    · exact Or.inr rfl
    · exact Or.inl rfl
    · next h => exact (h _ rfl).elim

/-- Resolving the components of a rooted path leaves names only. -/
theorem foldl_addComponent_isName {parts before : List Text} (hbefore : ∀ n ∈ before, IsName n)
    (hparts : ∀ c ∈ parts, '/' ∉ c ∧ '\x00' ∉ c) :
    ∀ n ∈ parts.foldl (addComponent true) before, IsName n := by
  induction parts generalizing before with
  | nil => exact hbefore
  | cons c parts ih =>
    rw [List.forall_mem_cons] at hparts
    refine ih ?_ hparts.2
    intro n hn
    rw [addComponent.eq_def] at hn
    split at hn
    · exact hbefore n hn
    · next hskip =>
      rw [not_or] at hskip
      split at hn
      · next habove =>
        cases before with
        | nil => exact absurd hn List.not_mem_nil
        | cons d r =>
          have hd : d ≠ ['.', '.'] := (hbefore d List.mem_cons_self).ne_above
          simp only [if_neg hd] at hn
          exact hbefore n (List.mem_cons_of_mem _ hn)
      · next habove =>
        rcases List.mem_cons.1 hn with rfl | hn
        · exact ⟨hskip.1, hskip.2, habove, hparts.1.1, hparts.1.2⟩
        · exact hbefore n hn

/-- **Normalized absolute paths** are lists of names. -/
theorem IsNormal.exists_ofNames {p : Text} (hp : IsNormal p) :
    ∃ front names, IsFront front ∧ (∀ n ∈ names, IsName n) ∧ p = ofNames front names := by
  have hfront := isFront_rootOf hp.isAbsolute
  have hrooted : (!(rootOf p).isEmpty) = true := by
    rcases hfront with h | h <;> rw [h] <;> rfl
  refine ⟨rootOf p, ((p.splitOn '/').foldl (addComponent true) []).reverse, hfront, ?_, ?_⟩
  · intro n hn
    refine foldl_addComponent_isName (List.forall_mem_nil _) ?_ n (List.mem_reverse.1 hn)
    intro c hc
    exact ⟨Text.not_mem_of_mem_splitOn hc, fun h => hp.no_null (Text.mem_of_mem_splitOn hc h)⟩
  · conv_lhs => rw [← hp.normalized]
    rw [normalize, hrooted]
    split
    · next h => exact (ofNames_ne_nil hfront _ h).elim
    · rfl

/-! ## Leading from a directory to what is below it -/

theorem commonBeginning_append (names more : List Text) :
    commonBeginning names (names ++ more) = names := by
  induction names with
  | nil => rw [commonBeginning.eq_def]
  | cons n names ih => rw [List.cons_append, commonBeginning, if_pos rfl, ih]

theorem leading_ofNames (hfront : IsFront front) {more : List Text} (hmore : more ≠ [])
    (hnames : ∀ n ∈ names ++ more, IsName n) :
    leading (ofNames front names) (ofNames front (names ++ more)) =
      List.intercalate ['/'] more := by
  rw [leading, components_ofNames hfront hnames,
    components_ofNames hfront fun n hn => hnames n (List.mem_append_left _ hn),
    commonBeginning_append]
  rw [Nat.sub_self, List.replicate_zero, List.nil_append, List.drop_left]
  cases more with
  | nil => exact (hmore rfl).elim
  | cons n more => rfl

end Bindery.Path

import Bindery.Proofs.Path.Trie

/-!
# The longest inserted path that a path begins with

Seen from outside a trie is the function that tells under which components a path is marked.
Insertion changes that function at one place, and a look-up returns its value at the deepest place
above the path.  The reserved name is what the picture leaves out: a path that comes through it
right below a marked place goes on in the text of the mark.

* `Trie.markAt`: what is marked under components; `IsMarked.markAt_insertAt`,
  `IsMarked.markAt_insertAll`.
* `Trie.deepest?`: the value at the deepest place above components; `IsMarked.follow_markOf`.
* `Trie.isLongest_among_inserted`: the look-up among inserted paths; `Trie.fault_of_markName`
  shows what the reserved name does.
-/

namespace Bindery.Trie

/-! ## What is marked where -/

/-- The path that is marked under components. -/
def markAt : Trie → List Text → Option Text
  | .mark _, _ => none
  | .branch es, [] =>
    match Entries.get? es markName with
    | some (.mark path) => some path
    | _ => none
  | .branch es, c :: rest =>
    match Entries.get? es c with
    | some child => markAt child rest
    | none => none

/-- The last of the inserted paths that has the given components. -/
def latest? (inserted : List Text) (names : List Text) : Option Text :=
  inserted.reverse.find? fun path => components path == names

variable {P : Text → Prop} {t t' : Trie} {path query : Text} {inserted names : List Text}

/-- Nothing is marked below a mark. -/
@[simp] theorem markAt_mark (path : Text) (names : List Text) :
    (mark path).markAt names = none := by
  rw [markAt]

theorem markAt_empty (names : List Text) : empty.markAt names = none := by
  cases names <;> rfl

theorem markAt_cons (es : List (Text × Trie)) (c : Text) (rest : List Text) :
    markAt (.branch es) (c :: rest) = ((Entries.get? es c).getD empty).markAt rest := by
  rw [markAt]
  cases Entries.get? es c with
  | none => exact (markAt_empty rest).symm
  | some child => rfl

theorem IsMarked.map_markAt (ht : t.IsMarked P) : (t.markAt []).map .mark = t.markOf := by
  obtain ⟨es, rfl⟩ := ht.exists_branch
  rw [markAt]
  cases hget : Entries.get? es markName with
  | none => rw [Trie.markOf, hget]; rfl
  | some m =>
    obtain ⟨path, rfl, -⟩ := ht.markOf m hget
    rw [Trie.markOf, hget]; rfl

/-- Nothing is marked under the reserved name. -/
theorem IsMarked.markAt_markName (ht : t.IsMarked P) (rest : List Text) :
    t.markAt (markName :: rest) = none := by
  obtain ⟨es, rfl⟩ := ht.exists_branch
  rw [markAt_cons]
  cases hget : Entries.get? es markName with
  | none => exact markAt_empty rest
  | some m =>
    obtain ⟨path, rfl, -⟩ := ht.markOf m hget
    exact markAt_mark path rest

/-- Insertion marks the path under its components and changes nothing elsewhere. -/
theorem IsMarked.markAt_insertAt (ht : t.IsMarked P) (hnames : markName ∉ names)
    (hinsert : Trie.insertAt path t names = .ok t') (place : List Text) :
    t'.markAt place = if names = place then some path else t.markAt place := by
  induction names generalizing t t' place with
  | nil =>
    obtain ⟨es, rfl⟩ := ht.exists_branch
    cases hinsert
    cases place with
    | nil => rw [markAt, Entries.get?_put, if_pos rfl, if_pos rfl]
    | cons d place =>
      rw [if_neg (List.cons_ne_nil d place).symm, markAt_cons, Entries.get?_put]
      by_cases hd : markName = d
      · rw [if_pos hd, ← hd, ht.markAt_markName, Option.getD_some, markAt_mark]
      · rw [if_neg hd, markAt_cons]
  | cons c names ih =>
    rw [List.mem_cons, not_or] at hnames
    obtain ⟨hc, hnames⟩ := hnames
    obtain ⟨es, rfl⟩ := ht.exists_branch
    have hchild := ht.child (Ne.symm hc)
    rw [Trie.insertAt] at hinsert
    cases hbelow : Trie.insertAt path ((Entries.get? es c).getD Trie.empty) names with
    | error e =>
      rw [hbelow] at hinsert
      cases hinsert
    | ok child =>
      rw [hbelow] at hinsert
      cases hinsert
      cases place with
      | nil =>
        rw [if_neg (List.cons_ne_nil c names), markAt, Entries.get?_put, if_neg (Ne.symm hc),
          markAt]
      | cons d place =>
        rw [markAt_cons, Entries.get?_put]
        by_cases hd : c = d
        · subst hd
          rw [if_pos rfl, Option.getD_some, markAt_cons, ih hchild hnames hbelow]
          simp
        · rw [if_neg hd, if_neg fun heq => hd (List.cons.inj heq).1, markAt_cons]

theorem IsMarked.markAt_insert (ht : t.IsMarked P) (hne : path ≠ [])
    (hnames : markName ∉ components path) (hinsert : t.insert path = .ok t') (place : List Text) :
    t'.markAt place = if components path = place then some path else t.markAt place := by
  rw [Trie.insert, if_neg (by simpa using hne)] at hinsert
  exact ht.markAt_insertAt hnames hinsert place

theorem latest?_cons (path : Text) (inserted names : List Text) :
    latest? (path :: inserted) names =
      (latest? inserted names).or (if components path = names then some path else none) := by
  rw [latest?, List.reverse_cons, List.find?_append, latest?, List.find?_singleton]
  simp

theorem latest?_eq_none_iff :
    latest? inserted names = none ↔ ∀ p ∈ inserted, components p ≠ names := by
  simp [latest?]

/-- The last path with some components is one of the paths and has them. -/
theorem of_latest?_eq_some (h : latest? inserted names = some path) :
    path ∈ inserted ∧ components path = names :=
  ⟨List.mem_reverse.1 (List.mem_of_find?_eq_some h), by simpa using List.find?_some h⟩

/-- Under components the last inserted path that has them is marked. -/
theorem IsMarked.markAt_insertAll (ht : t.IsMarked P) (hpaths : ∀ p ∈ inserted, P p)
    (hne : ∀ p ∈ inserted, p ≠ []) (hnames : ∀ p ∈ inserted, markName ∉ components p)
    (hall : inserted.foldlM Trie.insert t = .ok t') (place : List Text) :
    t'.markAt place = (latest? inserted place).or (t.markAt place) := by
  induction inserted generalizing t with
  | nil =>
    cases hall
    rfl
  | cons path inserted ih =>
    rw [List.forall_mem_cons] at hpaths hne hnames
    obtain ⟨next, hinsert, hnext⟩ := ht.insert hpaths.1 hnames.1
    rw [List.foldlM_cons, hinsert] at hall
    rw [ih hnext hpaths.2 hne.2 hnames.2 hall, ht.markAt_insert hne.1 hnames.1 hinsert,
      latest?_cons, Option.or_assoc]
    split <;> rfl

/-! ## The deepest place -/

/-- The value of a function at the longest beginning of a list at which it has one. -/
def deepest? (f : List Text → Option Text) : List Text → Option Text
  | [] => f []
  | c :: rest => (deepest? (fun place => f (c :: place)) rest).or (f [])

theorem deepest?_of_none {f : List Text → Option Text} (hf : ∀ place, f place = none)
    (names : List Text) : deepest? f names = none := by
  induction names generalizing f with
  | nil => exact hf []
  | cons c names ih => rw [deepest?, ih fun place => hf (c :: place), hf, Option.or_none]

theorem deepest?_eq_none {f : List Text → Option Text} (h : deepest? f names = none) :
    ∀ place, place <+: names → f place = none := by
  induction names generalizing f with
  | nil =>
    intro place hplace
    rw [List.prefix_nil.1 hplace]
    exact h
  | cons c names ih =>
    obtain ⟨hbelow, hhere⟩ := Option.or_eq_none_iff.1 h
    intro place hplace
    cases place with
    | nil => exact hhere
    | cons d place =>
      obtain ⟨rfl, hrest⟩ := List.cons_prefix_cons.1 hplace
      exact ih hbelow place hrest

theorem deepest?_eq_some {f : List Text → Option Text} (h : deepest? f names = some path) :
    ∃ place, place <+: names ∧ f place = some path ∧
      ∀ other, other <+: names → f other ≠ none → other.length ≤ place.length := by
  induction names generalizing f with
  | nil =>
    refine ⟨[], List.prefix_rfl, h, fun other hother _ => ?_⟩
    exact (List.prefix_nil.1 hother) ▸ Nat.le_refl _
  | cons c names ih =>
    rcases Option.or_eq_some_iff.1 h with hbelow | ⟨hbelow, hhere⟩
    · obtain ⟨place, hplace, hvalue, hdeepest⟩ := ih hbelow
      refine ⟨c :: place, List.cons_prefix_cons.2 ⟨rfl, hplace⟩, hvalue, fun other hother hne => ?_⟩
      cases other with
      | nil => exact Nat.zero_le _
      | cons d other =>
        obtain ⟨rfl, hrest⟩ := List.cons_prefix_cons.1 hother
        exact Nat.succ_le_succ (hdeepest other hrest hne)
    · refine ⟨[], List.nil_prefix, hhere, fun other hother hne => ?_⟩
      cases other with
      | nil => exact Nat.le_refl _
      | cons d other =>
        obtain ⟨rfl, hrest⟩ := List.cons_prefix_cons.1 hother
        exact absurd (deepest?_eq_none hbelow other hrest) hne

/-! ## Look-ups -/

/-- The components go through the reserved name right below a marked place, and what follows there,
or the reserved name itself, occurs in the text of the mark. -/
def RunsIntoMark (marks : List Text → Option Text) (names : List Text) : Prop :=
  ∃ place rest path, names = place ++ markName :: rest ∧ marks place = some path ∧
    (markName <:+: path ∨ ∃ c ∈ rest.head?, c <:+: path)

theorem occursIn_iff {s text : Text} : occursIn s text = true ↔ s <:+: text := by
  induction text with
  | nil => simp [occursIn]
  | cons c text ih =>
    rw [occursIn, Bool.or_eq_true, ih, List.isPrefixOf_iff_prefix, List.infix_cons_iff]

theorem RunsIntoMark.cons {marks : List Text → Option Text} {c : Text}
    (h : RunsIntoMark (fun place => marks (c :: place)) names) :
    RunsIntoMark marks (c :: names) := by
  obtain ⟨place, rest, path, rfl, hmark, hoccurs⟩ := h
  exact ⟨c :: place, rest, path, rfl, hmark, hoccurs⟩

/-- A mark stands under the reserved name only. -/
theorem IsMarked.eq_markName {es : List (Text × Trie)} {c : Text} (ht : IsMarked P (.branch es))
    (hget : Entries.get? es c = some (.mark path)) : c = markName :=
  Decidable.byContradiction fun hc => by
    have hchild := ht.child hc
    rw [hget] at hchild
    cases hchild

theorem IsMarked.of_get?_branch {es es' : List (Text × Trie)} {c : Text}
    (ht : IsMarked P (.branch es)) (hget : Entries.get? es c = some (.branch es')) :
    IsMarked P (.branch es') := by
  have hc : c ≠ markName := by
    rintro rfl
    obtain ⟨path, hpath, -⟩ := ht.markOf _ hget
    cases hpath
  have hchild := ht.child hc
  rwa [hget] at hchild

/-- A look-up returns the mark at the deepest place, unless it goes on in the text of a mark. -/
theorem IsMarked.follow_markOf (ht : t.IsMarked P) (hruns : ¬RunsIntoMark t.markAt names)
    (last : Option Trie) :
    Trie.follow (t.markOf.or last) t names =
      .ok (((deepest? t.markAt names).map .mark).or last) := by
  induction names generalizing t last with
  | nil => rw [Trie.follow, deepest?, ht.map_markAt]
  | cons c names ih =>
    obtain ⟨es, rfl⟩ := ht.exists_branch
    rw [Trie.follow, deepest?]
    -- What the look-up comes to if nothing is marked below.
    have hhere : (∀ place, markAt (.branch es) (c :: place) = none) →
        (((deepest? (fun place => markAt (.branch es) (c :: place)) names).or
          (markAt (.branch es) [])).map .mark).or last = (Trie.markOf (.branch es)).or last := by
      intro hnone
      rw [deepest?_of_none hnone, Option.none_or, ht.map_markAt]
    cases hget : Entries.get? es c with
    | none =>
      rw [hhere fun place => by rw [markAt_cons, hget, Option.getD_none, markAt_empty]]
    | some child =>
      have hbelow : ∀ place, markAt (.branch es) (c :: place) = child.markAt place := by
        intro place
        rw [markAt_cons, hget, Option.getD_some]
      cases child with
      | mark path =>
        have hc := ht.eq_markName hget
        have hmark : markAt (.branch es) [] = some path := by rw [markAt, ← hc, hget]
        have hout : ¬(markName <:+: path ∨ ∃ c ∈ names.head?, c <:+: path) :=
          fun h => hruns ⟨[], names, path, by rw [hc]; rfl, hmark, h⟩
        rw [hhere fun place => by rw [hbelow, markAt_mark], ← ht.map_markAt, hmark]
        rw [not_or] at hout
        simp only [occursIn_iff, if_neg hout.1]
        cases names with
        | nil => rfl
        | cons d names =>
          have hd : ¬occursIn d path = true := fun h => hout.2 ⟨d, rfl, occursIn_iff.1 h⟩
          rw [Trie.follow, if_neg hd]
      | branch es' =>
        have hchild := ht.of_get?_branch hget
        have hruns' : ¬RunsIntoMark (markAt (.branch es')) names := fun h =>
          hruns (RunsIntoMark.cons (by simpa only [hbelow] using h))
        simp only [hbelow]
        rw [ih hchild hruns', Option.map_or, Option.or_assoc, ht.map_markAt]

/-- A look-up that goes on in the text of a mark is a fault. -/
theorem IsMarked.follow_of_runsIntoMark (ht : t.IsMarked P) (hruns : RunsIntoMark t.markAt names)
    (last : Option Trie) : Trie.follow last t names = .error .markAsBranch := by
  obtain ⟨place, rest, path, rfl, hmark, hoccurs⟩ := hruns
  induction place generalizing t last with
  | nil =>
    obtain ⟨es, rfl⟩ := ht.exists_branch
    cases hget : Entries.get? es markName with
    | none => simp [markAt, hget] at hmark
    | some child =>
      obtain ⟨marked, rfl, -⟩ := ht.markOf child hget
      obtain rfl : marked = path := by simpa [markAt, hget] using hmark
      rw [List.nil_append, Trie.follow, hget]
      by_cases hname : occursIn markName marked = true
      · simp only [if_pos hname]
      · simp only [if_neg hname]
        obtain ⟨d, hd, hinfix⟩ := hoccurs.resolve_left (mt occursIn_iff.2 hname)
        obtain ⟨r, rfl⟩ := List.head?_eq_some_iff.1 hd
        rw [Trie.follow, if_pos (occursIn_iff.2 hinfix)]
  | cons c place ih =>
    obtain ⟨es, rfl⟩ := ht.exists_branch
    rw [markAt_cons] at hmark
    rw [List.cons_append, Trie.follow]
    cases hget : Entries.get? es c with
    | none =>
      rw [hget, Option.getD_none, markAt_empty] at hmark
      cases hmark
    | some child =>
      rw [hget, Option.getD_some] at hmark
      cases child with
      | mark path =>
        rw [markAt_mark] at hmark
        cases hmark
      | branch es' => exact ih (ht.of_get?_branch hget) _ hmark

/-! ## Among inserted paths -/

/-- The longest of the inserted paths that the query begins with, in the spelling that came last;
`none` if the query begins with none of them. -/
def IsLongest (inserted : List Text) (query : Text) : Option Text → Prop
  | none => ∀ p ∈ inserted, ¬components p <+: components query
  | some path =>
    latest? inserted (components path) = some path ∧ components path <+: components query ∧
      ∀ p ∈ inserted, components p <+: components query →
        (components p).length ≤ (components path).length

theorem isLongest_deepest? (inserted : List Text) (query : Text) :
    IsLongest inserted query (deepest? (latest? inserted) (components query)) := by
  cases hfound : deepest? (latest? inserted) (components query) with
  | none =>
    exact fun p hp hprefix => latest?_eq_none_iff.1 (deepest?_eq_none hfound _ hprefix) p hp rfl
  | some path =>
    obtain ⟨place, hplace, hlatest, hdeepest⟩ := deepest?_eq_some hfound
    obtain rfl := (of_latest?_eq_some hlatest).2
    refine ⟨hlatest, hplace, fun p hp hprefix => hdeepest _ hprefix fun hnone => ?_⟩
    exact latest?_eq_none_iff.1 hnone p hp rfl

/-- Paths without the reserved name are inserted one after the other, and under components the last
path that has them is marked. -/
theorem exists_foldlM_insert (hne : ∀ p ∈ inserted, p ≠ [])
    (hnames : ∀ p ∈ inserted, markName ∉ components p) :
    ∃ t, inserted.foldlM Trie.insert empty = .ok t ∧ t.IsMarked (· ∈ inserted) ∧
      t.markAt = latest? inserted := by
  obtain ⟨t, hall, ht⟩ := IsMarked.empty.insertAll (fun p hp => hp) hnames
  refine ⟨t, hall, ht, funext fun place => ?_⟩
  rw [IsMarked.empty.markAt_insertAll (fun p hp => hp) hne hnames hall, markAt_empty,
    Option.or_none]

/-- A look-up that does not go on in the text of a mark finds the longest path. -/
theorem IsMarked.longestPrefix?_isLongest (ht : t.IsMarked P) (hmarks : t.markAt = latest? inserted)
    (hquery : query ≠ []) (hruns : ¬RunsIntoMark (latest? inserted) (components query)) :
    ∃ found : Option Text, t.longestPrefix? query = .ok (found.map .mark) ∧
      IsLongest inserted query found := by
  refine ⟨_, ?_, isLongest_deepest? inserted query⟩
  have hfollow := ht.follow_markOf (hmarks ▸ hruns) none
  rw [Option.or_none, Option.or_none, hmarks] at hfollow
  rw [Trie.longestPrefix?, if_neg (by simpa using hquery), hfollow]

/-- **Longest prefix.** Paths that do not have the reserved name among their components are all
inserted.  Every look-up among them finds the longest one that the query begins with, in the
spelling that came last, except where the query goes through the reserved name right below an
inserted path and on in the text of its mark, which is a fault. -/
theorem isLongest_among_inserted (hne : ∀ p ∈ inserted, p ≠ [])
    (hnames : ∀ p ∈ inserted, markName ∉ components p) :
    ∃ t, inserted.foldlM Trie.insert empty = .ok t ∧ ∀ query : Text, query ≠ [] →
      (RunsIntoMark (latest? inserted) (components query) →
        t.longestPrefix? query = .error .markAsBranch) ∧
      (¬RunsIntoMark (latest? inserted) (components query) →
        ∃ found : Option Text, t.longestPrefix? query = .ok (found.map .mark) ∧
          IsLongest inserted query found) := by
  obtain ⟨t, hall, ht, hmarks⟩ := exists_foldlM_insert hne hnames
  refine ⟨t, hall, fun query hquery => ⟨fun hruns => ?_, ht.longestPrefix?_isLongest hmarks hquery⟩⟩
  rw [Trie.longestPrefix?, if_neg (by simpa using hquery)]
  exact ht.follow_of_runsIntoMark (hmarks ▸ hruns) _

/-- Two paths, the longer one in two spellings. -/
def spellings : List Text :=
  ["/w".toList, "/w/a".toList, "\\w\\a/".toList]

theorem isLongest_among_spellings :
    (∀ p ∈ spellings, p ≠ []) ∧ (∀ p ∈ spellings, markName ∉ components p) ∧
      ∃ t, spellings.foldlM Trie.insert empty = .ok t ∧ ∀ query : Text, query ≠ [] →
        (RunsIntoMark (latest? spellings) (components query) →
          t.longestPrefix? query = .error .markAsBranch) ∧
        (¬RunsIntoMark (latest? spellings) (components query) →
          ∃ found : Option Text, t.longestPrefix? query = .ok (found.map .mark) ∧
            IsLongest spellings query found) :=
  ⟨by decide, by decide, isLongest_among_inserted (by decide) (by decide)⟩

/-- What is found is the spelling that came last. -/
example : (spellings.foldlM Trie.insert empty).bind (·.longestPrefix? "/w/a/b".toList) =
    .ok (some (.mark "\\w\\a/".toList)) :=
  rfl

/-- The reserved name is a component like any other to those who give the paths: below `/a`, a
look-up that goes through it goes on in the text `/a`, and an insertion has nowhere to go. -/
theorem fault_of_markName :
    (["/a".toList].foldlM Trie.insert empty).bind (·.longestPrefix? "/a/__end__/a".toList) =
        .error .markAsBranch ∧
      ["/a".toList, "/a/__end__/b".toList].foldlM Trie.insert empty = .error .belowMark :=
  ⟨rfl, rfl⟩

end Bindery.Trie

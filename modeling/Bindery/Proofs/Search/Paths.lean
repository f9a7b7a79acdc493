import Bindery.Proofs.Files.Plain
import Bindery.Proofs.Glob.Name
import Bindery.Proofs.Outcome
import Bindery.Search.Paths

/-!
# The paths that a pattern finds

In a tree without links a pattern finds the paths whose names its components take one after
another.  A component that stands for any directories takes any number of names that are not
hidden, any other takes one name.

* `Takes`, `Stands`: the names that a component, or a list of components, stands for.
* `findIn_spec`: what one component finds in a directory.
* `paths_spec`: what a whole pattern finds.
-/

namespace Bindery.Search

open Bindery.Path

/-- The names that a component of a pattern stands for. -/
inductive Takes : Text → List Text → Prop
  /-- Any names that are not hidden, or none. -/
  | anyDepth {ns : List Text} (h : ∀ n ∈ ns, isHidden n = false) : Takes anyDepth ns
  /-- One name that the component matches; a hidden one only if the component is hidden too. -/
  | one {c n : Text} (hc : c ≠ anyDepth) (hmagic : NamePattern.hasMagic c = true)
      (hmatch : NamePattern.matchesName c n = true)
      (hhidden : isHidden n = true → isHidden c = true) : Takes c [n]
  /-- The component itself. -/
  | self {c : Text} (hmagic : NamePattern.hasMagic c = false) : Takes c [c]

/-- Components stand for names: each takes its own, in their order. -/
inductive Stands : List Text → List Text → Prop
  | nil : Stands [] []
  | cons {c : Text} {cs ns names : List Text} (hc : Takes c ns) (h : Stands cs names) :
      Stands (c :: cs) (ns ++ names)

theorem Stands.append {as bs xs ys : List Text} (has : Stands as xs) (hbs : Stands bs ys) :
    Stands (as ++ bs) (xs ++ ys) := by
  induction has with
  | nil => exact hbs
  | cons hc _ ih =>
    rw [List.append_assoc]
    exact .cons hc ih

theorem stands_append_iff {as bs names : List Text} :
    Stands (as ++ bs) names ↔ ∃ xs ys, names = xs ++ ys ∧ Stands as xs ∧ Stands bs ys := by
  constructor
  · intro h
    induction as generalizing names with
    | nil => exact ⟨[], names, rfl, .nil, h⟩
    | cons a as ih =>
      cases h with
      | @cons _ _ ns rest hc h =>
        obtain ⟨xs, ys, rfl, hxs, hys⟩ := ih h
        exact ⟨ns ++ xs, ys, by simp, .cons hc hxs, hys⟩
  · rintro ⟨xs, ys, rfl, hxs, hys⟩
    exact hxs.append hys

theorem stands_singleton_iff {c : Text} {names : List Text} : Stands [c] names ↔ Takes c names := by
  constructor
  · intro h
    cases h with
    | cons hc h =>
      cases h
      rwa [List.append_nil]
  · intro h
    have hstands := Stands.cons h .nil
    rwa [List.append_nil] at hstands

/-- Components without special characters stand for themselves only. -/
theorem stands_iff_of_plain {cs names : List Text}
    (hcs : ∀ c ∈ cs, NamePattern.hasMagic c = false) : Stands cs names ↔ names = cs := by
  induction cs generalizing names with
  | nil =>
    constructor
    · intro h
      cases h
      rfl
    · rintro rfl
      exact .nil
  | cons c cs ih =>
    rw [List.forall_mem_cons] at hcs
    obtain ⟨hc, hcs⟩ := hcs
    constructor
    · intro h
      cases h with
      | cons htake h =>
        obtain rfl := (ih hcs).1 h
        cases htake with
        | anyDepth _ => exact absurd hc (by decide)
        | one _ hmagic _ _ => exact absurd (hc.symm.trans hmagic) nofun
        | self _ => rfl
    · rintro rfl
      exact .cons (.self hc) ((ih hcs).2 rfl)

/-! ## One directory -/

variable {h : Host} {front : Text} {names : List Text} {d : Text}

/-- The names in a directory, and those of them that lead to directories. -/
theorem namesIn_spec (hplain : h.IsPlain) (hfront : IsFront front) (hnames : ∀ n ∈ names, IsName n)
    (hd : Spells front names d) (directoriesOnly : Bool) :
    ∃ found, namesIn h directoriesOnly d = .ok found ∧ (∀ n ∈ found, IsName n) ∧
      ∀ n es, h.node d = .ok (.directory es) → n ∈ es.map Prod.fst →
        (directoriesOnly = true → h.isDirectory (ofNames front (names ++ [n])) = true) →
        n ∈ found := by
  have hne : d ≠ [] := by
    rcases hd with rfl | rfl <;> exact ofNames_ne_nil hfront _
  have hnull : '\x00' ∉ d := by
    rcases hd with rfl | rfl
    · exact null_notMem_ofNames hfront fun n hn => (hnames n hn).no_null
    · refine null_notMem_ofNames hfront fun n hn => ?_
      rcases List.mem_append.1 hn with hn | hn
      · exact (hnames n hn).no_null
      · exact List.mem_singleton.1 hn ▸ List.not_mem_nil
  rw [namesIn, if_neg (by simpa using hne), Host.entryNames, Host.entries]
  -- What is no directory has no names in it, and neither has what is not there.
  cases hnode : h.node d with
  | error e =>
    obtain ⟨cause, rfl⟩ := Host.exists_fileError hnull hnode
    exact ⟨[], rfl, nofun, fun n es hes => absurd hes nofun⟩
  | ok m =>
    cases m with
    | file _ _ => exact ⟨[], rfl, nofun, fun n es hes => absurd hes nofun⟩
    | link _ => exact ⟨[], rfl, nofun, fun n es hes => absurd hes nofun⟩
    | directory es =>
      have hlisted := hplain.isName_of_mem hfront hnames hd hnode
      refine ⟨_, rfl, ?_, ?_⟩
      · intro n hn
        split at hn
        · exact hlisted n (List.mem_filter.1 hn).1
        · exact hlisted n hn
      · intro n es' hes' hn hdir
        obtain rfl := Node.directory.inj (Except.ok.inj hes')
        split
        · next honly =>
          have hjoin := hd.join hfront hnames (isAbsolute_eq_false (hlisted n hn).no_slash)
          rw [List.mem_filter, hjoin]
          exact ⟨hn, hdir honly⟩
        · exact hn

theorem below_of_ne_nil {p q : Text} (hp : p ≠ []) (hq : q ≠ []) : below p q = Path.join p q := by
  rw [below, if_neg (by simpa using hp), if_neg (by simpa using hq)]

/-- A name and the path below it are joined as names. -/
theorem below_intercalate {n : Text} (hn : IsName n) {more : List Text} (hmore : more ≠ [])
    (hnames : ∀ m ∈ more, IsName m) :
    below n (List.intercalate ['/'] more) = List.intercalate ['/'] (n :: more) := by
  have hne : List.intercalate ['/'] more ≠ [] := by
    obtain ⟨m, hm⟩ := List.exists_mem_of_ne_nil more hmore
    obtain ⟨c, hc⟩ := List.exists_mem_of_ne_nil m (hnames m hm).ne_nil
    exact List.ne_nil_of_mem (Text.mem_intercalate_of_mem '/' hm hc)
  have hlast : n.getLast? ≠ some '/' := fun hlast =>
    hn.no_slash (List.mem_of_getLast? hlast)
  rw [below_of_ne_nil hn.ne_nil hne, Path.join,
    if_neg (by simp [isAbsolute_intercalate hnames]), if_neg (by simp [hn.ne_nil, hlast]),
    List.intercalate_cons_of_ne_nil hmore]
  simp

/-- What is to be found below a directory: lists of names that are not hidden, joined, and among
them each that leads to something and is not longer than `depth`. -/
structure FindsBelow (h : Host) (front : Text) (names : List Text) (directoriesOnly : Bool)
    (depth : Nat) (found : List Text) : Prop where
  sound : ∀ x ∈ found, ∃ ns, ns ≠ [] ∧ (∀ n ∈ ns, IsName n ∧ isHidden n = false) ∧
    x = List.intercalate ['/'] ns
  complete : ∀ ns n, ns ≠ [] → (∀ n ∈ ns, IsName n ∧ isHidden n = false) → ns.length ≤ depth →
    h.node (ofNames front (names ++ ns)) = .ok n →
    (directoriesOnly = true → n.isDirectory = true) → List.intercalate ['/'] ns ∈ found

section FindsBelow

variable {directoriesOnly : Bool} {depth : Nat} {n : Text} {found : List Text}
  (hn : IsName n) (hfound : FindsBelow h front (names ++ [n]) directoriesOnly depth found)

include hn hfound

/-- A name and what is found below it are lists of names. -/
theorem FindsBelow.sound_cons (hhidden : isHidden n = false) {x : Text}
    (hx : x ∈ n :: found.map (below n ·)) :
    ∃ ns, ns ≠ [] ∧ (∀ n ∈ ns, IsName n ∧ isHidden n = false) ∧ x = List.intercalate ['/'] ns := by
  rcases List.mem_cons.1 hx with rfl | hx
  · exact ⟨[x], by simp, List.forall_mem_singleton.2 ⟨hn, hhidden⟩, by simp⟩
  · obtain ⟨y, hy, rfl⟩ := List.mem_map.1 hx
    obtain ⟨ns, hne, hns, rfl⟩ := hfound.sound y hy
    exact ⟨n :: ns, by simp, List.forall_mem_cons.2 ⟨⟨hn, hhidden⟩, hns⟩,
      below_intercalate hn hne fun m hm => (hns m hm).1⟩

/-- What begins with the name is the name or is found below it. -/
theorem FindsBelow.complete_cons {ns : List Text} {m : Node}
    (hns : ∀ n ∈ ns, IsName n ∧ isHidden n = false) (hlen : ns.length ≤ depth)
    (hm : h.node (ofNames front (names ++ n :: ns)) = .ok m)
    (hdir : directoriesOnly = true → m.isDirectory = true) :
    List.intercalate ['/'] (n :: ns) ∈ n :: found.map (below n ·) := by
  cases ns with
  | nil => simp
  | cons n' ns =>
    rw [List.append_cons] at hm
    refine List.mem_cons_of_mem _ (List.mem_map.2 ⟨List.intercalate ['/'] (n' :: ns), ?_, ?_⟩)
    · exact hfound.complete (n' :: ns) m (by simp) hns hlen hm hdir
    · exact below_intercalate hn (by simp) fun x hx => (hns x hx).1

end FindsBelow

/-- The first name of a path that leads to something is in the directory; if there is more of the
path, it leads to a directory. -/
theorem first_listed (hplain : h.IsPlain) (hfront : IsFront front) {ns : List Text} {n : Text}
    (hall : ∀ x ∈ names ++ n :: ns, IsName x) (hd : Spells front names d) {m : Node}
    (hm : h.node (ofNames front (names ++ n :: ns)) = .ok m) :
    (∃ es, h.node d = .ok (.directory es) ∧ n ∈ es.map Prod.fst) ∧
      (m.isDirectory = true → h.isDirectory (ofNames front (names ++ [n])) = true) := by
  obtain ⟨es, hes, hnode⟩ := hplain.node_of_append hfront hall hm
  refine ⟨⟨es, hnode d hd, hes⟩, fun hdir => ?_⟩
  cases ns with
  | nil =>
    rw [Host.isDirectory, hm]
    exact hdir
  | cons n' ns =>
    rw [List.append_cons] at hm hall
    obtain ⟨es', -, hnode'⟩ := hplain.node_of_append hfront hall hm
    rw [Host.isDirectory, hnode' _ (Or.inl rfl)]
    rfl

/-- The paths below a directory, down to a depth. -/
theorem pathsBelow_spec (hplain : h.IsPlain) (hfront : IsFront front) (directoriesOnly : Bool)
    (depth : Nat) (hnames : ∀ n ∈ names, IsName n) (hd : Spells front names d) :
    ∃ found, pathsBelow h directoriesOnly depth d = .ok found ∧
      FindsBelow h front names directoriesOnly depth found := by
  induction depth generalizing names d with
  | zero =>
    refine ⟨[], rfl, nofun, fun ns n hne _ hlen _ _ => ?_⟩
    exact (hne (List.eq_nil_of_length_eq_zero (Nat.le_zero.1 hlen))).elim
  | succ depth ih =>
    obtain ⟨listed, hlisted, hproper, hcomplete⟩ :=
      namesIn_spec hplain hfront hnames hd directoriesOnly
    have hjoin : ∀ n, IsName n → below d n = ofNames front (names ++ [n]) := by
      intro n hn
      have hne : d ≠ [] := by
        rcases hd with rfl | rfl <;> exact ofNames_ne_nil hfront _
      rw [below_of_ne_nil hne hn.ne_nil]
      exact hd.join hfront hnames (isAbsolute_eq_false hn.no_slash)
    have hbelow : ∀ n, IsName n → ∃ ps, pathsBelow h directoriesOnly depth (below d n) = .ok ps ∧
        FindsBelow h front (names ++ [n]) directoriesOnly depth ps := fun n hn =>
      ih (List.forall_mem_append.2 ⟨hnames, List.forall_mem_singleton.2 hn⟩) (Or.inl (hjoin n hn))
    obtain ⟨found, hfound, hmem⟩ := exists_flatten_eq_ok
      (fun n => (pathsBelow h directoriesOnly depth (below d n)).map fun ps =>
        n :: ps.map (below n ·))
      (listed.filter (!isHidden ·)) (by
        intro n hn
        obtain ⟨ps, hps, -⟩ := hbelow n (hproper n (List.mem_filter.1 hn).1)
        exact ⟨_, by rw [hps]; rfl⟩)
    refine ⟨found, ?_, ?_, ?_⟩
    · rw [pathsBelow, hlisted]
      exact hfound
    · intro x hx
      obtain ⟨n, hn, ps', hps', hx⟩ := (hmem x).1 hx
      obtain ⟨hn, hhidden⟩ := List.mem_filter.1 hn
      rw [Bool.not_eq_true'] at hhidden
      obtain ⟨ps, hps, hfinds⟩ := hbelow n (hproper n hn)
      rw [hps] at hps'
      obtain rfl := Except.ok.inj hps'
      exact hfinds.sound_cons (hproper n hn) hhidden hx
    · intro ns m hne hns hlen hm hdir
      obtain ⟨n, ns, rfl⟩ := List.exists_cons_of_ne_nil hne
      rw [List.forall_mem_cons] at hns
      obtain ⟨⟨hname, hhidden⟩, hns⟩ := hns
      have hall : ∀ x ∈ names ++ n :: ns, IsName x := List.forall_mem_append.2
        ⟨hnames, List.forall_mem_cons.2 ⟨hname, fun x hx => (hns x hx).1⟩⟩
      obtain ⟨⟨es, hnode, hes⟩, hentry⟩ := first_listed hplain hfront hall hd hm
      have hn : n ∈ listed := hcomplete n es hnode hes fun honly => hentry (hdir honly)
      obtain ⟨ps, hps, hfinds⟩ := hbelow n hname
      refine (hmem _).2 ⟨n, List.mem_filter.2 ⟨hn, by simp [hhidden]⟩, _, by rw [hps]; rfl, ?_⟩
      exact hfinds.complete_cons hname hns (Nat.le_of_succ_le_succ hlen) hm hdir

/-- What a component is to find in a directory: the names that it takes there, joined, and each of
these that leads to something. -/
structure Finds (h : Host) (front : Text) (names : List Text) (directoriesOnly : Bool) (c : Text)
    (found : List Text) : Prop where
  sound : ∀ x ∈ found, ∃ ns, Takes c ns ∧ (∀ n ∈ ns, IsName n) ∧ x = List.intercalate ['/'] ns
  complete : ∀ ns n, Takes c ns → (∀ m ∈ ns, IsName m) →
    h.node (ofNames front (names ++ [List.intercalate ['/'] ns])) = .ok n →
    (directoriesOnly = true → n.isDirectory = true) → List.intercalate ['/'] ns ∈ found

theorem exists_findIn_anyDepth (hplain : h.IsPlain) (hfront : IsFront front)
    (hnames : ∀ n ∈ names, IsName n) (hd : Spells front names d) (directoriesOnly : Bool) :
    ∃ found, findIn h directoriesOnly d anyDepth = .ok found ∧
      Finds h front names directoriesOnly anyDepth found := by
  obtain ⟨ps, hps, hfinds⟩ :=
    pathsBelow_spec hplain hfront directoriesOnly Host.maxPathBytes hnames hd
  refine ⟨if d.isEmpty || h.isDirectory d then [] :: ps else ps, ?_, ?_, ?_⟩
  · rw [findIn, if_pos rfl, hps]
    rfl
  · intro x hx
    have hcases : x = [] ∨ x ∈ ps := by
      split at hx
      · exact List.mem_cons.1 hx
      · exact Or.inr hx
    rcases hcases with rfl | hx
    · exact ⟨[], .anyDepth nofun, nofun, rfl⟩
    · obtain ⟨ns, -, hns, rfl⟩ := hfinds.sound x hx
      exact ⟨ns, .anyDepth fun n hn => (hns n hn).2, fun n hn => (hns n hn).1, rfl⟩
  · intro ns n htake hproper hn hdir
    cases htake with
    | one hne _ _ _ => exact (hne rfl).elim
    | self hmagic => exact absurd hmagic (by decide)
    | anyDepth hhidden =>
      by_cases hne : ns = []
      · subst hne
        obtain ⟨hdirectory, hnode⟩ := hplain.node_of_slash hfront hnames hn
        have hd' : h.isDirectory d = true := by
          rw [Host.isDirectory, hnode d hd]
          exact hdirectory
        rw [if_pos (by simp [hd'])]
        exact List.mem_cons_self
      · rw [ofNames_append_intercalate hne] at hn
        have hall := List.forall_mem_append.2 ⟨hnames, hproper⟩
        -- Every name takes at least a byte, so the depth is enough.
        have hdepth : ns.length ≤ Host.maxPathBytes := by
          have hbytes := ((hplain.node_ofNames hfront hall).1 hn).1
          have hlength := length_le_byteLength_ofNames front hall
          rw [List.length_append] at hlength
          omega
        have hmem :=
          hfinds.complete ns n hne (fun m hm => ⟨hproper m hm, hhidden m hm⟩) hdepth hn hdir
        split
        · exact List.mem_cons_of_mem _ hmem
        · exact hmem

theorem exists_matchingNames (hplain : h.IsPlain) (hfront : IsFront front)
    (hnames : ∀ n ∈ names, IsName n) (hd : Spells front names d) (directoriesOnly : Bool) {c : Text}
    (hc : c ≠ anyDepth) (hmagic : NamePattern.hasMagic c = true) :
    ∃ found, matchingNames h directoriesOnly d c = .ok found ∧
      Finds h front names directoriesOnly c found := by
  obtain ⟨listed, hlisted, hproper, hcomplete⟩ :=
    namesIn_spec hplain hfront hnames hd directoriesOnly
  refine ⟨_, by rw [matchingNames, hlisted]; rfl, ?_, ?_⟩
  · intro n hn
    obtain ⟨hn, hmatch⟩ := List.mem_filter.1 hn
    rw [Bool.and_eq_true, Bool.or_eq_true, Bool.not_eq_true'] at hmatch
    obtain ⟨hhidden, hmatch⟩ := hmatch
    refine ⟨[n], .one hc hmagic hmatch ?_, List.forall_mem_singleton.2 (hproper n hn), by simp⟩
    intro hn
    exact hhidden.resolve_right (by simp [hn])
  · intro ns m htake hproper' hm hdir
    cases htake with
    | anyDepth _ => exact (hc rfl).elim
    | self hself => exact absurd (hmagic.symm.trans hself) nofun
    | @one _ n _ _ hmatch hhidden =>
      rw [List.intercalate_singleton] at hm ⊢
      have hall := List.forall_mem_append.2 ⟨hnames, hproper'⟩
      obtain ⟨es, hes, hnode⟩ := hplain.node_of_append hfront hall hm
      have hn : n ∈ listed := hcomplete n es (hnode d hd) hes fun honly => by
        rw [Host.isDirectory, hm]
        exact hdir honly
      refine List.mem_filter.2 ⟨hn, ?_⟩
      rw [hmatch, Bool.and_true, Bool.or_eq_true, Bool.not_eq_true']
      by_cases hh : isHidden n = true
      · exact Or.inl (hhidden hh)
      · exact Or.inr (by simpa using hh)

theorem finds_existingName (hplain : h.IsPlain) (hfront : IsFront front)
    (hnames : ∀ n ∈ names, IsName n) (hd : Spells front names d) (directoriesOnly : Bool) {c : Text}
    (hc : IsName c) (hmagic : NamePattern.hasMagic c = false) :
    Finds h front names directoriesOnly c (existingName h d c) := by
  have hne : d ≠ [] := by
    rcases hd with rfl | rfl <;> exact ofNames_ne_nil hfront _
  have hbelow : below d c = ofNames front (names ++ [c]) := by
    rw [below_of_ne_nil hne hc.ne_nil]
    exact hd.join hfront hnames (isAbsolute_eq_false hc.no_slash)
  have hall := List.forall_mem_append.2 ⟨hnames, List.forall_mem_singleton.2 hc⟩
  refine ⟨?_, ?_⟩
  · intro x hx
    rw [existingName, if_neg (by simpa using hc.ne_nil)] at hx
    split at hx
    · obtain rfl := List.mem_singleton.1 hx
      exact ⟨[x], .self hmagic, List.forall_mem_singleton.2 hc, by simp⟩
    · exact absurd hx List.not_mem_nil
  · intro ns n htake _ hn _
    cases htake with
    | anyDepth _ => exact absurd hmagic (by decide)
    | one _ hmagic' _ _ => exact absurd (hmagic.symm.trans hmagic') nofun
    | self _ =>
      rw [List.intercalate_singleton] at hn ⊢
      have hentry : h.hasEntry (below d c) = true := by
        rw [hbelow, hplain.hasEntry_ofNames hfront hall]
        exact ⟨n, hn⟩
      rw [existingName, if_neg (by simpa using hc.ne_nil), if_pos hentry]
      exact List.mem_singleton_self c

/-- A component finds in a directory what it is to find there. -/
theorem findIn_spec (hplain : h.IsPlain) (hfront : IsFront front) (hnames : ∀ n ∈ names, IsName n)
    (hd : Spells front names d) (directoriesOnly : Bool) {c : Text} (hc : IsName c) :
    ∃ found, findIn h directoriesOnly d c = .ok found ∧
      Finds h front names directoriesOnly c found := by
  by_cases hany : c = anyDepth
  · subst hany
    exact exists_findIn_anyDepth hplain hfront hnames hd directoriesOnly
  rw [findIn, if_neg hany]
  split
  · next hmagic => exact exists_matchingNames hplain hfront hnames hd directoriesOnly hany hmagic
  · next hmagic =>
    rw [Bool.not_eq_true] at hmagic
    exact ⟨_, rfl, finds_existingName hplain hfront hnames hd directoriesOnly hc hmagic⟩

/-! ## Whole patterns -/

theorem hasMagic_ofNames (hfront : IsFront front) (cs : List Text) :
    NamePattern.hasMagic (ofNames front cs) = cs.any NamePattern.hasMagic := by
  have happ : ∀ s t : Text, NamePattern.hasMagic (s ++ t) =
      (NamePattern.hasMagic s || NamePattern.hasMagic t) := fun s t => List.any_append
  have hslash : NamePattern.hasMagic front = false := by
    rcases hfront with rfl | rfl <;> decide
  have hjoined : NamePattern.hasMagic (List.intercalate ['/'] cs) =
      cs.any NamePattern.hasMagic := by
    induction cs with
    | nil => rfl
    | cons c cs ih =>
      cases cs with
      | nil => simp
      | cons c' cs =>
        rw [List.intercalate_cons_cons, happ, happ, ih, List.any_cons (a := c)]
        simp [NamePattern.hasMagic]
  rw [ofNames, happ, hslash, hjoined, Bool.false_or]

/-- The directories that the part of a pattern before its last component stands for. -/
def directoriesOf (h : Host) (front : Text) (cs : List Text) : Except Fault (List Text) :=
  if NamePattern.hasMagic (ofNames front cs) then paths h true (ofNames front cs)
  else .ok [ofNames front cs]

/-- A pattern is searched component by component. -/
theorem paths_concat (hfront : IsFront front) {cs : List Text} (hcs : ∀ c ∈ cs, IsName c)
    (directoriesOnly : Bool) {c : Text} (hc : '/' ∉ c)
    (hmagic : NamePattern.hasMagic (ofNames front (cs ++ [c])) = true) :
    paths h directoriesOnly (ofNames front (cs ++ [c])) =
      (directoriesOf h front cs).bind fun ds =>
        (ds.mapM fun d => (findIn h directoriesOnly d c).map (·.map (Path.join d ·))).map
          List.flatten := by
  have hne : (ofNames front cs).isEmpty = false := by
    rw [List.isEmpty_eq_false_iff]
    exact ofNames_ne_nil hfront cs
  have hdirectories :
      (if _h : ofNames front cs ≠ ofNames front (cs ++ [c]) ∧
          NamePattern.hasMagic (ofNames front cs) = true then paths h true (ofNames front cs)
        else Except.ok [ofNames front cs]) = directoriesOf h front cs := by
    rw [directoriesOf]
    by_cases hdir : NamePattern.hasMagic (ofNames front cs) = true
    · -- The part before the last component is shorter, so it is searched on its own.
      have hshorter : ofNames front cs ≠ ofNames front (cs ++ [c]) := by
        have hcs : cs ≠ [] := by
          rintro rfl
          rw [hasMagic_ofNames hfront] at hdir
          exact absurd hdir nofun
        rw [ofNames_append hcs (List.cons_ne_nil c [])]
        intro heq
        have hlength := congrArg List.length heq
        rw [List.length_append, List.length_cons] at hlength
        omega
      rw [dif_pos ⟨hshorter, hdir⟩, if_pos hdir]
    · rw [dif_neg fun hboth => hdir hboth.2, if_neg hdir]
  rw [paths.eq_def]
  simp only [split_ofNames hfront hcs hc, hmagic, Bool.true_eq_false, if_false, hne,
    Bool.false_eq_true, hdirectories]
  cases directoriesOf h front cs <;> rfl

/-- What the directories of a pattern are to be: each stands for names that the components stand
for, and each list of such names that leads to a directory is among them. -/
structure FindsDirectories (h : Host) (front : Text) (cs : List Text) (ds : List Text) : Prop where
  sound : ∀ d ∈ ds, ∃ names, Stands cs names ∧ (∀ n ∈ names, IsName n) ∧ Spells front names d
  complete : ∀ names n, Stands cs names → (∀ m ∈ names, IsName m) →
    h.node (ofNames front (names ++ [[]])) = .ok n → ∃ d ∈ ds, Spells front names d

/-- What a pattern is to find: the paths of the names that its components stand for, and each of
these that leads to something.  Where the last component takes no name, the path ends in a
slash. -/
structure FindsPaths (h : Host) (front : Text) (directoriesOnly : Bool) (cs : List Text) (c : Text)
    (ps : List Text) : Prop where
  sound : ∀ q ∈ ps, ∃ names ns, Stands cs names ∧ Takes c ns ∧ (∀ n ∈ names ++ ns, IsName n) ∧
    q = ofNames front (names ++ [List.intercalate ['/'] ns])
  complete : ∀ names ns n, Stands cs names → Takes c ns → (∀ m ∈ names ++ ns, IsName m) →
    h.node (ofNames front (names ++ [List.intercalate ['/'] ns])) = .ok n →
    (directoriesOnly = true → n.isDirectory = true) →
    ofNames front (names ++ [List.intercalate ['/'] ns]) ∈ ps

/-- Names joined to the path of a directory spell the path of all names; without any, the path of
the directory ends in a slash. -/
theorem spells_join (front : Text) (names ns : List Text) :
    Spells front (names ++ ns) (ofNames front (names ++ [List.intercalate ['/'] ns])) := by
  cases ns with
  | nil =>
    rw [List.append_nil]
    exact Or.inr rfl
  | cons n ns => exact Or.inl (ofNames_append_intercalate (List.cons_ne_nil n ns))

section Paths

variable {cs : List Text} {c : Text} (hplain : h.IsPlain) (hfront : IsFront front)
  (hcs : ∀ c ∈ cs, IsName c) (directoriesOnly : Bool) (hc : IsName c)

include hplain hfront hcs hc

/-- What is below the directories is found from the directories. -/
theorem exists_paths_of_directories
    (hmagic : NamePattern.hasMagic (ofNames front (cs ++ [c])) = true)
    {ds : List Text} (hds : directoriesOf h front cs = .ok ds)
    (hfind : FindsDirectories h front cs ds) :
    ∃ ps, paths h directoriesOnly (ofNames front (cs ++ [c])) = .ok ps ∧
      FindsPaths h front directoriesOnly cs c ps := by
  obtain ⟨ps, hps, hmem⟩ := exists_flatten_eq_ok
    (fun d => (findIn h directoriesOnly d c).map (·.map (Path.join d ·))) ds (by
      intro d hd
      obtain ⟨names, -, hnames, hspell⟩ := hfind.sound d hd
      obtain ⟨found, hfound, -⟩ := findIn_spec hplain hfront hnames hspell directoriesOnly hc
      exact ⟨_, by rw [hfound]; rfl⟩)
  refine ⟨ps, by rw [paths_concat hfront hcs directoriesOnly hc.no_slash hmagic, hds]; exact hps,
    ?_, ?_⟩
  · intro q hq
    obtain ⟨d, hd, found', hfound', hq⟩ := (hmem q).1 hq
    obtain ⟨names, hstands, hnames, hspell⟩ := hfind.sound d hd
    obtain ⟨found, hfound, hfinds⟩ := findIn_spec hplain hfront hnames hspell directoriesOnly hc
    rw [hfound] at hfound'
    obtain rfl := Except.ok.inj hfound'
    obtain ⟨x, hx, rfl⟩ := List.mem_map.1 hq
    obtain ⟨ns, htake, hns, rfl⟩ := hfinds.sound x hx
    exact ⟨names, ns, hstands, htake, List.forall_mem_append.2 ⟨hnames, hns⟩,
      hspell.join hfront hnames (isAbsolute_intercalate hns)⟩
  · intro names ns n hstands htake hproper hn hdir
    obtain ⟨hnames, hns⟩ := List.forall_mem_append.1 hproper
    -- The directory is there under both spellings, whatever the last component takes.
    have hdirectory : ∃ m, h.node (ofNames front (names ++ [[]])) = .ok m := by
      cases ns with
      | nil => exact ⟨n, hn⟩
      | cons m ns =>
        rw [ofNames_append_intercalate (List.cons_ne_nil m ns)] at hn
        obtain ⟨es, -, hnode⟩ := hplain.node_of_append hfront hproper hn
        exact ⟨_, hnode _ (Or.inr rfl)⟩
    obtain ⟨m, hm⟩ := hdirectory
    obtain ⟨d, hd, hspell⟩ := hfind.complete names m hstands hnames hm
    obtain ⟨found, hfound, hfinds⟩ := findIn_spec hplain hfront hnames hspell directoriesOnly hc
    have hmem' := hfinds.complete ns n htake hns hn hdir
    refine (hmem _).2 ⟨d, hd, _, by rw [hfound]; rfl, List.mem_map.2 ⟨_, hmem', ?_⟩⟩
    exact hspell.join hfront hnames (isAbsolute_intercalate hns)

/-- A pattern without special characters finds itself, if it leads to something. -/
theorem exists_paths_of_plain
    (hmagic : NamePattern.hasMagic (ofNames front (cs ++ [c])) = false) :
    ∃ ps, paths h directoriesOnly (ofNames front (cs ++ [c])) = .ok ps ∧
      FindsPaths h front directoriesOnly cs c ps := by
  have hall : ∀ n ∈ cs ++ [c], IsName n :=
    List.forall_mem_append.2 ⟨hcs, List.forall_mem_singleton.2 hc⟩
  have hplainAll : ∀ n ∈ cs ++ [c], NamePattern.hasMagic n = false := by
    rw [hasMagic_ofNames hfront, List.any_eq_false] at hmagic
    exact fun n hn => by simpa using hmagic n hn
  obtain ⟨hplaincs, hplainc⟩ := List.forall_mem_append.1 hplainAll
  have hself := List.forall_mem_singleton.1 hplainc
  have hpaths : paths h directoriesOnly (ofNames front (cs ++ [c])) =
      .ok (if h.hasEntry (ofNames front (cs ++ [c])) then [ofNames front (cs ++ [c])]
        else []) := by
    rw [paths.eq_def]
    simp only [split_ofNames hfront hcs hc.no_slash, hmagic, if_true]
    rw [if_neg (by simpa using hc.ne_nil)]
  refine ⟨_, hpaths, ?_, ?_⟩
  · intro q hq
    split at hq
    · obtain rfl := List.mem_singleton.1 hq
      exact ⟨cs, [c], (stands_iff_of_plain hplaincs).2 rfl, .self hself, hall, by simp⟩
    · exact absurd hq List.not_mem_nil
  · intro names ns n hstands htake _ hn _
    obtain rfl : ns = [c] := (stands_iff_of_plain hplainc).1 (stands_singleton_iff.2 htake)
    obtain rfl := (stands_iff_of_plain hplaincs).1 hstands
    rw [List.intercalate_singleton] at hn ⊢
    rw [if_pos ((hplain.hasEntry_ofNames hfront hall).2 ⟨n, hn⟩)]
    exact List.mem_singleton_self _

end Paths

theorem exists_directoriesOf (hplain : h.IsPlain) (hfront : IsFront front) {cs : List Text}
    (hcs : ∀ c ∈ cs, IsName c) :
    ∃ ds, directoriesOf h front cs = .ok ds ∧ FindsDirectories h front cs ds := by
  induction cs using List.reverseRecOn with
  | nil =>
    have hfrontPlain : NamePattern.hasMagic (ofNames front []) = false := by
      rw [hasMagic_ofNames hfront]
      rfl
    refine ⟨[ofNames front []], by rw [directoriesOf, hfrontPlain]; rfl, ?_, ?_⟩
    · exact List.forall_mem_singleton.2 ⟨[], .nil, nofun, Or.inl rfl⟩
    · intro names n hstands _ _
      cases hstands
      exact ⟨_, List.mem_singleton_self _, Or.inl rfl⟩
  | append_singleton cs c ih =>
    obtain ⟨hcs', hc⟩ := List.forall_mem_append.1 hcs
    have hc := List.forall_mem_singleton.1 hc
    obtain ⟨ds, hds, hfind⟩ := ih hcs'
    rw [directoriesOf]
    split
    · next hmagic =>
      obtain ⟨ps, hps, hpaths⟩ :=
        exists_paths_of_directories hplain hfront hcs' true hc hmagic hds hfind
      refine ⟨ps, hps, ?_, ?_⟩
      · intro d hd
        obtain ⟨names, ns, hstands, htake, hproper, rfl⟩ := hpaths.sound d hd
        exact ⟨names ++ ns, hstands.append (stands_singleton_iff.2 htake), hproper,
          spells_join front names ns⟩
      · intro names n hstands hnames hn
        obtain ⟨xs, ys, rfl, hxs, hys⟩ := stands_append_iff.1 hstands
        obtain ⟨hdir, hnode⟩ := hplain.node_of_slash hfront hnames hn
        have hys := stands_singleton_iff.1 hys
        have hspell := spells_join front xs ys
        exact ⟨_, hpaths.complete xs ys n hxs hys hnames (hnode _ hspell) fun _ => hdir, hspell⟩
    · next hmagic =>
      have hplaincs : ∀ n ∈ cs ++ [c], NamePattern.hasMagic n = false := by
        rw [hasMagic_ofNames hfront, Bool.not_eq_true, List.any_eq_false] at hmagic
        exact fun n hn => by simpa using hmagic n hn
      refine ⟨_, rfl, ?_, ?_⟩
      · exact List.forall_mem_singleton.2
          ⟨cs ++ [c], (stands_iff_of_plain hplaincs).2 rfl, hcs, Or.inl rfl⟩
      · intro names n hstands _ _
        obtain rfl := (stands_iff_of_plain hplaincs).1 hstands
        exact ⟨_, List.mem_singleton_self _, Or.inl rfl⟩

/-- **A pattern finds** the paths of the names that its components stand for. -/
theorem paths_spec (hplain : h.IsPlain) (hfront : IsFront front) {cs : List Text}
    (hcs : ∀ c ∈ cs, IsName c) (directoriesOnly : Bool) {c : Text} (hc : IsName c) :
    ∃ ps, paths h directoriesOnly (ofNames front (cs ++ [c])) = .ok ps ∧
      FindsPaths h front directoriesOnly cs c ps := by
  cases hmagic : NamePattern.hasMagic (ofNames front (cs ++ [c])) with
  | false => exact exists_paths_of_plain hplain hfront hcs directoriesOnly hc hmagic
  | true =>
    obtain ⟨ds, hds, hfind⟩ := exists_directoriesOf hplain hfront hcs
    exact exists_paths_of_directories hplain hfront hcs directoriesOnly hc hmagic hds hfind

end Bindery.Search

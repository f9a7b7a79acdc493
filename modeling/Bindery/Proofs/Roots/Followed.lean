import Bindery.Proofs.Files.Named
import Bindery.Proofs.Path.Resolved
import Bindery.Roots

/-!
# Paths whose links are followed

What following the links of a path comes to is a path without links, as far as it can be looked up:
names behind the root, or ways up from the working directory and names.  Such a path is followed to
itself.

* `Roots.IsClear`: no name of a path is that of a link; `Roots.Followed` for its text.
* `Roots.followed_trace`: what a path is followed to, if no circle of links is met.
* `Roots.traced_ofNames`: a path without links is followed to itself.
-/

namespace Bindery.Roots

open Bindery.Path

/-- The path that leads up some directories and then down names. -/
def pathFrom (front : Text) (ups : Nat) (names : List Text) : Text :=
  ofNames front (List.replicate ups ['.', '.'] ++ names)

/-- No name of a path is that of a link, as far as the path can be looked up. -/
structure IsClear (h : Host) (front : Text) (ups : Nat) (names : List Text) : Prop where
  isName : ∀ n ∈ names, IsName n
  clear : ∀ place, place <+: names → place ≠ [] →
    linkTarget? h (pathFrom front ups place) = .ok none

/-- A text is that of a path without links: names behind the root, or ways up from the working
directory and then names. -/
def Followed (h : Host) (path : Text) : Prop :=
  ∃ front ups names, (front = [] ∨ front = ['/'] ∧ ups = 0) ∧ IsClear h front ups names ∧
    path = pathFrom front ups names

variable {h : Host} {front path name : Text} {ups : Nat} {names : List Text}

theorem linkTarget?_eq_none_iff {path : Text} :
    linkTarget? h path = .ok none ↔
      '\x00' ∉ path ∧ ∀ target, h.linkNode path ≠ .ok (.link target) := by
  rw [linkTarget?]
  cases hnode : h.linkNode path with
  | error e =>
    rcases Host.nodeAt_fault hnode with ⟨cause, rfl⟩ | ⟨rfl, hnull⟩
    · have hnull : '\x00' ∉ path := by
        intro hmem
        rw [Host.linkNode, Host.nodeAt, Host.locate, if_pos (by simpa using hmem)] at hnode
        cases hnode
      simp [hnull]
    · simp [hnull]
  | ok n =>
    have hnull := Host.null_notMem_of_nodeAt hnode
    cases n <;> simp [hnull]

/-! ## Steps -/

theorem part_of_mem (ups : Nat) (hnames : ∀ n ∈ names, IsName n) :
    ∀ n ∈ List.replicate ups ['.', '.'] ++ names, n ≠ [] ∧ '/' ∉ n := by
  intro n hn
  rcases List.mem_append.1 hn with hn | hn
  · rw [List.eq_of_mem_replicate hn]
    decide
  · exact (hnames n hn).isPart

namespace IsClear

theorem nil (h : Host) (front : Text) (ups : Nat) : IsClear h front ups [] where
  isName := List.forall_mem_nil _
  clear _ hplace hne := absurd (List.prefix_nil.1 hplace) hne

theorem of_isPrefix {above : List Text} (hclear : IsClear h front ups names)
    (habove : above <+: names) : IsClear h front ups above where
  isName n hn := hclear.isName n (habove.subset hn)
  clear place hplace := hclear.clear place (hplace.trans habove)

theorem concat (hclear : IsClear h front ups names) (hname : IsName name)
    (hlink : linkTarget? h (pathFrom front ups (names ++ [name])) = .ok none) :
    IsClear h front ups (names ++ [name]) where
  isName := List.forall_mem_append.2 ⟨hclear.isName, List.forall_mem_singleton.2 hname⟩
  clear place hplace hne := by
    rcases List.prefix_concat_iff.1 hplace with rfl | hplace
    · exact hlink
    · exact hclear.clear place hplace hne

end IsClear

theorem join_pathFrom (hfront : front = [] ∨ front = ['/'] ∧ ups = 0)
    (hnames : ∀ n ∈ names, IsName n) {p : Text} (hp : '/' ∉ p) :
    join (pathFrom front ups names) p = pathFrom front ups (names ++ [p]) := by
  have hany : front = [] ∨ IsFront front := hfront.imp_right fun hroot => Or.inl hroot.1
  rw [pathFrom, join_of_parts hany (part_of_mem ups hnames) (isAbsolute_eq_false hp),
    List.append_assoc, pathFrom]

/-- One directory up from a path with a last part. -/
theorem up_of_parts {parts : List Text} (hfront : front = [] ∨ IsFront front)
    (hparts : ∀ n ∈ parts, n ≠ [] ∧ '/' ∉ n) {last : Text} (hlast : last ≠ [] ∧ '/' ∉ last) :
    up (ofNames front (parts ++ [last])) =
      if last = ['.', '.'] then
        ofNames front (parts ++ [['.', '.']] ++ [['.', '.']])
      else ofNames front parts := by
  have hne : ofNames front (parts ++ [last]) ≠ [] := by
    rw [ofNames_concat]
    simp [hlast.1]
  have habove : ∀ n ∈ parts ++ [['.', '.']], n ≠ [] ∧ '/' ∉ n :=
    List.forall_mem_append.2 ⟨hparts, List.forall_mem_singleton.2 (by decide)⟩
  rw [up, if_neg (by simpa using hne), split_of_parts hfront hparts hlast.2,
    ← join_of_parts hfront habove rfl, ← join_of_parts hfront hparts rfl]
  rfl

namespace Followed

theorem here (h : Host) : Followed h [] :=
  ⟨[], 0, [], Or.inl rfl, .nil h [] 0, rfl⟩

theorem root (h : Host) : Followed h ['/'] :=
  ⟨['/'], 0, [], Or.inr ⟨rfl, rfl⟩, .nil h ['/'] 0, rfl⟩

/-- A name that is looked up and is no link leads to such a path again. -/
theorem join (hpath : Followed h path) (hne : name ≠ []) (hhere : name ≠ ['.'])
    (habove : name ≠ ['.', '.']) (hslash : '/' ∉ name)
    (hlink : linkTarget? h (Path.join path name) = .ok none) :
    Followed h (Path.join path name) := by
  obtain ⟨front, ups, names, hfront, hclear, rfl⟩ := hpath
  have hjoin := join_pathFrom hfront hclear.isName hslash
  rw [hjoin] at hlink ⊢
  have hnull : '\x00' ∉ name := by
    intro hmem
    refine (linkTarget?_eq_none_iff.1 hlink).1 (List.mem_append_right front ?_)
    exact Text.mem_intercalate_of_mem '/' (by simp) hmem
  exact ⟨front, ups, _, hfront, hclear.concat ⟨hne, hhere, habove, hslash, hnull⟩ hlink, rfl⟩

/-- One directory up is such a path again: without the last name, or one more way up. -/
theorem up (hpath : Followed h path) : Followed h (Roots.up path) := by
  obtain ⟨front, ups, names, hfront, hclear, rfl⟩ := hpath
  have hany : front = [] ∨ IsFront front := hfront.imp_right fun hroot => Or.inl hroot.1
  rcases List.eq_nil_or_concat' names with rfl | ⟨above, last, rfl⟩
  · rcases hfront with rfl | ⟨rfl, rfl⟩
    · refine ⟨[], ups + 1, [], Or.inl rfl, .nil h [] _, ?_⟩
      cases ups with
      | zero => rfl
      | succ ups =>
        have hparts : ∀ n ∈ List.replicate ups (['.', '.'] : Text), n ≠ [] ∧ '/' ∉ n :=
          fun n hn => by rw [List.eq_of_mem_replicate hn]; decide
        rw [pathFrom, List.append_nil, List.replicate_succ', up_of_parts hany hparts (by decide),
          if_pos rfl, pathFrom, List.append_nil, List.replicate_succ', List.replicate_succ']
    · exact root h
  · have hlast := hclear.isName last (by simp)
    have habove := hclear.of_isPrefix (List.prefix_append above [last])
    refine ⟨front, ups, above, hfront, habove, ?_⟩
    rw [pathFrom, ← List.append_assoc,
      up_of_parts hany (part_of_mem ups habove.isName) hlast.isPart, if_neg hlast.ne_above,
      pathFrom]

end Followed

/-! ## Following links -/

/-- Where the links met so far lead to, as far as it is known, are paths without links. -/
def AllFollowed (h : Host) (seen : Entries (Option Text)) : Prop :=
  ∀ n known, Entries.get? seen n = some (some known) → Followed h known

namespace AllFollowed

variable {seen : Entries (Option Text)}

theorem nil (h : Host) : AllFollowed h [] :=
  nofun

theorem begin (hseen : AllFollowed h seen) (link : Text) :
    AllFollowed h (Entries.put link none seen) := by
  intro n known hget
  rw [Entries.get?_put] at hget
  split at hget
  · cases hget
  · exact hseen n known hget

theorem finish (hseen : AllFollowed h seen) (link : Text) (hpath : Followed h path) :
    AllFollowed h (Entries.put link (some path) seen) := by
  intro n known hget
  rw [Entries.get?_put] at hget
  split at hget
  · obtain rfl := Option.some.inj (Option.some.inj hget)
    exact hpath
  · exact hseen n known hget

end AllFollowed

/-- **Following links.** If no circle of links is met, a path is followed to one without links. -/
theorem followed_trace {depth steps : Nat} {seen : Entries (Option Text)} {rest : Text} {t : Traced}
    (hpath : Followed h path) (hseen : AllFollowed h seen)
    (ht : trace h depth steps path seen rest = .ok t) (hcomplete : t.complete = true) :
    Followed h t.path ∧ AllFollowed h t.seen := by
  fun_induction trace h depth steps path seen rest generalizing t with
  | case1 | case2 =>
    cases ht
    exact ⟨hpath, hseen⟩
  | case3 =>
    rename_i ih
    exact ih hpath hseen ht hcomplete
  | case4 =>
    rename_i ih
    exact ih hpath.up hseen ht hcomplete
  | case6 =>
    rename_i rest _ _ name _ hname habove _ hlink ih
    rw [Bool.or_eq_true, not_or, List.isEmpty_iff, beq_iff_eq] at hname
    have hslash : '/' ∉ name := fun hmem => by simpa using List.mem_takeWhile_imp hmem
    have hnext := hpath.join hname.1 hname.2 (by simpa using habove) hslash hlink
    exact ih hnext hseen ht hcomplete
  | case7 =>
    rename_i known _ hknown ih
    exact ih (hseen _ known hknown) hseen ht hcomplete
  | case11 =>
    rename_i next target _ _ _ _ inner hinner hdone ihinner ihafter
    have hbase : ∀ path, Followed h path →
        Followed h (if isAbsolute target = true then ['/'] else path) := by
      intro path hpath
      split
      · exact .root h
      · exact hpath
    obtain ⟨hfollowed, hall⟩ := ihinner (hbase _ hpath) (hseen.begin _) hinner hdone
    exact ihafter hfollowed (hall.finish _ hfollowed) ht hcomplete
  | case8 | case12 =>
    cases ht
    simp_all
  | case5 | case9 | case10 => cases ht

/-- Names that are no links are followed to themselves. -/
theorem trace_intercalate {before : List Text} (hclear : IsClear h ['/'] 0 (before ++ names))
    {depth steps : Nat} (hsteps : names.length ≤ steps) (seen : Entries (Option Text)) :
    trace h depth steps (ofNames ['/'] before) seen (List.intercalate ['/'] names) =
      .ok ⟨ofNames ['/'] (before ++ names), true, seen⟩ := by
  induction names generalizing before steps with
  | nil =>
    rw [List.append_nil]
    cases steps <;> simp [trace]
  | cons n names ih =>
    obtain ⟨steps, rfl⟩ : ∃ k, steps = k + 1 := Nat.exists_eq_succ_of_ne_zero (by
      rintro rfl
      cases hsteps)
    have hn : IsName n := hclear.isName n (by simp)
    have hbefore : ∀ m ∈ before, IsName m := fun m hm =>
      hclear.isName m (List.mem_append_left _ hm)
    obtain ⟨hname, hrest⟩ := Text.takeWhile_intercalate hn.no_slash names
    have hne : List.intercalate ['/'] (n :: names) ≠ [] := fun hnil => by
      rw [hnil] at hname
      exact hn.ne_nil hname.symm
    have hsplit : before ++ n :: names = before ++ [n] ++ names := by simp
    have hlink : linkTarget? h (ofNames ['/'] (before ++ [n])) = .ok none :=
      hclear.clear _ (hsplit ▸ List.prefix_append _ _) (by simp)
    rw [trace, if_neg (by simpa using hne)]
    dsimp only
    rw [hname, hrest, if_neg (by simp [hn.ne_nil, hn.ne_here]),
      if_neg (by simpa using hn.ne_above), join_ofNames (Or.inl rfl) hbefore
        (isAbsolute_eq_false hn.no_slash), hlink]
    rw [hsplit] at hclear ⊢
    exact ih hclear (Nat.le_of_succ_le_succ hsteps)

/-- How far the links of a path are followed. -/
def traced (h : Host) (p : Text) : Except Fault Traced :=
  trace h maxNesting p.length (if isAbsolute p then ['/'] else []) [] p

/-- A path without links is followed to itself. -/
theorem traced_ofNames (hclear : IsClear h ['/'] 0 names) :
    traced h (ofNames ['/'] names) = .ok ⟨ofNames ['/'] names, true, []⟩ := by
  have hsteps := Text.length_le_length_intercalate '/' fun n hn => (hclear.isName n hn).ne_nil
  have htrace : trace h maxNesting _ (ofNames ['/'] []) [] (List.intercalate ['/'] names) = _ :=
    trace_intercalate hclear hsteps []
  rw [traced, if_pos (isAbsolute_ofNames (Or.inl rfl) names)]
  change trace h maxNesting ((List.intercalate ['/'] names).length + 1) ['/'] []
    ('/' :: List.intercalate ['/'] names) = _
  rw [trace]
  exact htrace

end Bindery.Roots

import Bindery.Profile.Inherit
import Bindery.Proofs.Outcome
import Bindery.Proofs.Profile.Keyed
import Bindery.Search.Matcher
import Mathlib

/-!
# Resolving inheritance

The files of a profile are found by a walk that remembers only the profiles that it is in the midst
of, and the same profile may be walked many times.  In a keyed registry the walk is right about the
graph of profiles: it ends with a cycle exactly where a cycle can be reached, and otherwise with the
files of all profiles that can be reached.

The walk carries a chain of keys.  `Above` says what the chain is: keys of different profiles that
the one at hand descends from.  So a key that is met again closes a cycle, and a chain is never
longer than there are profiles, which is why the bound on its length is never reached.
-/

namespace Bindery.Registry

variable {r : Registry}

/-! ## Ways in the graph -/

/-- A cycle of the graph can be reached from the profile. -/
def ReachesCycle (r : Registry) (p : Profile) : Prop :=
  ∃ q s, r.Reaches p q ∧ r.Parent q s ∧ r.Reaches s q

/-- What the profile contributes by its own patterns: files that they include and not exclude. -/
def Contributes (expand : Expansion) (p : Profile) (f : Text) : Prop :=
  ∃ included excluded, (expand p.includes p.root).result = .ok included ∧
    (expand p.excludes p.root).result = .ok excluded ∧ f ∈ included ∧ f ∉ excluded

theorem Reaches.trans {p q s : Profile} (h : r.Reaches p q) (h' : r.Reaches q s) :
    r.Reaches p s := by
  induction h with
  | refl p => exact h'
  | step hpq _ ih => exact .step hpq (ih h')

theorem Parent.reaches {p q : Profile} (h : r.Parent p q) : r.Reaches p q :=
  .step h (.refl q)

/-- Whoever reaches a profile reaches the cycles that it reaches. -/
theorem ReachesCycle.of_reaches {p q : Profile} (h : r.Reaches p q) (hq : r.ReachesCycle q) :
    r.ReachesCycle p := by
  obtain ⟨s, t, hs, hst, hts⟩ := hq
  exact ⟨s, t, h.trans hs, hst, hts⟩

/-- A cycle that a profile reaches is reached by one of its parents, even if the profile is on
it. -/
theorem ReachesCycle.exists_parent {p : Profile} (h : r.ReachesCycle p) :
    ∃ q, r.Parent p q ∧ r.ReachesCycle q := by
  obtain ⟨q, s, hpq, hqs, hsq⟩ := h
  cases hpq with
  | refl => exact ⟨s, hqs, p, s, hsq, hqs, hsq⟩
  | step hpt htq => exact ⟨_, hpt, q, s, htq, hqs, hsq⟩

theorem Keyed.stored_of_parent (hr : r.Keyed) {p q : Profile} (h : r.Parent p q) : r.Stored q := by
  obtain ⟨name, -, hq⟩ := h
  exact hr.stored_of_lookup hq

/-- Whatever a stored profile reaches is stored. -/
theorem Keyed.stored_of_reaches (hr : r.Keyed) {p q : Profile} (hp : r.Stored p)
    (h : r.Reaches p q) : r.Stored q := by
  induction h with
  | refl p => exact hp
  | step hpq _ ih => exact ih (hr.stored_of_parent hpq)

/-! ## The chain of a walk -/

/-- The chain holds keys of different stored profiles, and the profile descends from each. -/
structure Above (r : Registry) (chain : List (Text × Text)) (p : Profile) : Prop where
  nodup : chain.Nodup
  descends : ∀ k ∈ chain, ∃ a s, a.key = k ∧ r.Stored a ∧ r.Parent a s ∧ r.Reaches s p

theorem Above.nil (p : Profile) : r.Above [] p :=
  ⟨List.nodup_nil, fun _ hk => absurd hk List.not_mem_nil⟩

/-- A profile that is not in the chain is its next member for each parent. -/
theorem Above.snoc {chain : List (Text × Text)} {p q : Profile} (h : r.Above chain p)
    (hp : r.Stored p) (hnew : p.key ∉ chain) (hpq : r.Parent p q) :
    r.Above (chain ++ [p.key]) q := by
  refine ⟨List.nodup_append.2 ⟨h.nodup, List.nodup_singleton _, ?_⟩, ?_⟩
  · rintro k hk l hl rfl
    exact hnew (List.mem_singleton.1 hl ▸ hk)
  · intro k hk
    rcases List.mem_append.1 hk with hk | hk
    · obtain ⟨a, s, hak, ha, has, hsp⟩ := h.descends k hk
      exact ⟨a, s, hak, ha, has, hsp.trans hpq.reaches⟩
    · exact ⟨p, q, (List.mem_singleton.1 hk).symm, hp, hpq, .refl q⟩

/-- A profile in the chain above itself is on a cycle. -/
theorem Above.reachesCycle {chain : List (Text × Text)} {p : Profile} (h : r.Above chain p)
    (hp : r.Stored p) (hmem : p.key ∈ chain) : r.ReachesCycle p := by
  obtain ⟨a, s, hkey, ha, has, hsp⟩ := h.descends _ hmem
  obtain rfl := ha.eq_of_key_eq hp hkey
  exact ⟨a, s, .refl a, has, hsp⟩

/-- There are no more keys in a chain than profiles in the registry. -/
theorem Above.length_le {chain : List (Text × Text)} {p : Profile} (h : r.Above chain p) :
    chain.length ≤ r.size := by
  have hsub : chain ⊆ r.keys := by
    intro k hk
    obtain ⟨a, s, rfl, ha, -, -⟩ := h.descends k hk
    exact ha.key_mem
  rw [← length_keys]
  exact (h.nodup.subperm hsub).length_le

/-! ## The walk -/

/-- The files of one parent that is listed by name. -/
def inheritFrom (r : Registry) (expand : Expansion) (fuel : Nat) (chain : List (Text × Text))
    (p : Profile) (name : Text) : Except Fault (List Text) :=
  match r.lookup name (some p.root) with
  | some q => (r.resolveFrom expand fuel (chain ++ [p.key]) q).result
  | none => .ok []

/-- The result of a step of the walk is that of its parents in turn, and then its own. -/
theorem result_resolveFrom_succ (expand : Expansion) (fuel : Nat) {chain : List (Text × Text)}
    {p : Profile} (hp : p.key ∉ chain) :
    (r.resolveFrom expand (fuel + 1) chain p).result =
      (p.parents.mapM (r.inheritFrom expand fuel chain p) >>= fun inherited =>
        (ownFiles expand p).result >>= fun own => .ok (inherited.flatten ++ own)) := by
  rw [resolveFrom, if_neg (by simpa using hp), Reported.result_bind, Reported.result_mapM]
  congr 1
  · congr 1
    funext name
    rw [inheritFrom]
    cases r.lookup name (some p.root) <;> rfl
  · funext inherited
    rw [Reported.result_bind]
    rfl

/-- What keeps a profile from having files of its own keeps its patterns from being expanded. -/
theorem ownFiles_failsOnly {expand : Expansion} {F : Fault → Prop} {p : Profile}
    (hin : FailsOnly F (expand p.includes p.root).result)
    (hex : FailsOnly F (expand p.excludes p.root).result) :
    FailsOnly F (ownFiles expand p).result := by
  rw [ownFiles, Reported.result_bind]
  refine .bind hex fun excluded _ => ?_
  rw [Reported.result_bind]
  exact .bind hin fun included _ => .ok _

/-- Where its patterns can be expanded, a profile has the files that it contributes. -/
theorem exists_ownFiles {expand : Expansion} {p : Profile} {included excluded : List Text}
    (hin : (expand p.includes p.root).result = .ok included)
    (hex : (expand p.excludes p.root).result = .ok excluded) :
    ∃ own, (ownFiles expand p).result = .ok own ∧ ∀ f, f ∈ own ↔ Contributes expand p f := by
  refine ⟨included.filter fun f => !excluded.contains f, ?_, fun f => ?_⟩
  · rw [ownFiles, Reported.result_bind, hex]
    change ((expand p.includes p.root) >>= _).result = _
    rw [Reported.result_bind, hin]
    rfl
  · rw [List.mem_filter]
    constructor
    · rintro ⟨hf, hnot⟩
      exact ⟨included, excluded, hin, hex, hf, by simpa using hnot⟩
    · rintro ⟨included', excluded', hin', hex', hf, hnot⟩
      obtain rfl := Except.ok.inj (hin.symm.trans hin')
      obtain rfl := Except.ok.inj (hex.symm.trans hex')
      exact ⟨hf, by simpa using hnot⟩

/-- Where all patterns of a registry can be expanded, so can those of a stored profile. -/
theorem Stored.expands_of_all {expand : Expansion} {q : Profile} (hq : r.Stored q)
    (hall : (r.byRoot.all fun d => d.2.all fun f => (expand f.2.includes f.2.root).result.isOk &&
      (expand f.2.excludes f.2.root).result.isOk) = true) :
    (∃ fs, (expand q.includes q.root).result = .ok fs) ∧
      ∃ fs, (expand q.excludes q.root).result = .ok fs := by
  obtain ⟨d, hd, f, hf, rfl⟩ := hq.exists_mem
  have hok := List.all_eq_true.1 (List.all_eq_true.1 hall d hd) f hf
  rw [Bool.and_eq_true] at hok
  exact ⟨exists_of_isOk hok.1, exists_of_isOk hok.2⟩

/-- What a walk from a profile comes to. -/
inductive Walked (r : Registry) (expand : Expansion) (p : Profile) : Except Fault (List Text) → Prop
  /-- A cycle can be reached, and the walk ends with one. -/
  | cycle (names : List Text) (h : r.ReachesCycle p) : Walked r expand p (.error (.cycle names))
  /-- No cycle can be reached, and the walk ends with the files of all that can. -/
  | files (fs : List Text) (h : ¬ r.ReachesCycle p)
      (hfs : ∀ f, f ∈ fs ↔ ∃ q, r.Reaches p q ∧ Contributes expand q f) :
      Walked r expand p (.ok fs)

/-- The files of all that a profile reaches are its own and those of all that its parents reach. -/
theorem exists_reaches_iff {expand : Expansion} {p : Profile} {f : Text} :
    (∃ q, r.Reaches p q ∧ Contributes expand q f) ↔
      (∃ s, r.Parent p s ∧ ∃ q, r.Reaches s q ∧ Contributes expand q f) ∨
        Contributes expand p f := by
  constructor
  · rintro ⟨q, hpq, hf⟩
    cases hpq with
    | refl => exact Or.inr hf
    | step hps hsq => exact Or.inl ⟨_, hps, q, hsq, hf⟩
  · rintro (⟨s, hps, q, hsq, hf⟩ | hf)
    · exact ⟨q, .step hps hsq, hf⟩
    · exact ⟨p, .refl p, hf⟩

theorem Walked.of_error {expand : Expansion} {p : Profile} {e : Fault}
    (h : r.Walked expand p (.error e)) : r.ReachesCycle p ∧ ∃ names, e = .cycle names := by
  cases h with
  | cycle names h => exact ⟨h, names, rfl⟩

theorem Walked.of_ok {expand : Expansion} {p : Profile} {fs : List Text}
    (h : r.Walked expand p (.ok fs)) :
    ¬ r.ReachesCycle p ∧ ∀ f, f ∈ fs ↔ ∃ q, r.Reaches p q ∧ Contributes expand q f := by
  cases h with
  | files _ h hfs => exact ⟨h, hfs⟩

section Step

variable {expand : Expansion} {fuel : Nat} {chain : List (Text × Text)} {p : Profile}
  (ih : ∀ q, r.Parent p q →
    r.Walked expand q (r.resolveFrom expand fuel (chain ++ [p.key]) q).result)

include ih

/-- If the files of some parent cannot be had, that is because of a cycle. -/
theorem reachesCycle_of_inherited {e : Fault}
    (hparents : p.parents.mapM (r.inheritFrom expand fuel chain p) = .error e) :
    r.ReachesCycle p ∧ ∃ names, e = .cycle names := by
  obtain ⟨name, hname, he⟩ := exists_of_mapM_eq_error hparents
  rw [inheritFrom] at he
  cases hq : r.lookup name (some p.root) with
  | none =>
    rw [hq] at he
    exact absurd he nofun
  | some q =>
    have hpq : r.Parent p q := ⟨name, hname, hq⟩
    have hwalk := ih q hpq
    rw [hq] at he
    dsimp only at he
    rw [he] at hwalk
    exact ⟨hwalk.of_error.1.of_reaches hpq.reaches, hwalk.of_error.2⟩

/-- If the files of all parents can be had, none of the parents reaches a cycle, and the files are
those of all that they reach. -/
theorem mem_inherited_iff {inherited : List (List Text)}
    (hparents : p.parents.mapM (r.inheritFrom expand fuel chain p) = .ok inherited) :
    (∀ q, r.Parent p q → ¬ r.ReachesCycle q) ∧
      ∀ f, f ∈ inherited.flatten ↔
        ∃ q, r.Parent p q ∧ ∃ s, r.Reaches q s ∧ Contributes expand s f := by
  have hfrom : ∀ name ∈ p.parents, ∀ q, r.lookup name (some p.root) = some q →
      ∃ fs, r.inheritFrom expand fuel chain p name = .ok fs ∧ r.Walked expand q (.ok fs) := by
    intro name hname q hq
    obtain ⟨fs, hfs⟩ := exists_of_mapM_eq_ok hparents hname
    have hwalk := ih q ⟨name, hname, hq⟩
    refine ⟨fs, hfs, ?_⟩
    rw [inheritFrom, hq] at hfs
    dsimp only at hfs
    rwa [hfs] at hwalk
  refine ⟨?_, fun f => ?_⟩
  · rintro q ⟨name, hname, hq⟩
    obtain ⟨fs, -, hwalk⟩ := hfrom name hname q hq
    exact hwalk.of_ok.1
  · rw [mem_flatten_of_mapM_eq_ok hparents]
    constructor
    · rintro ⟨name, hname, fs, hfs, hf⟩
      cases hq : r.lookup name (some p.root) with
      | none =>
        rw [inheritFrom, hq] at hfs
        rw [← Except.ok.inj hfs] at hf
        exact absurd hf List.not_mem_nil
      | some q =>
        obtain ⟨fs', hfs', hwalk⟩ := hfrom name hname q hq
        obtain rfl := Except.ok.inj (hfs.symm.trans hfs')
        exact ⟨q, ⟨name, hname, hq⟩, (hwalk.of_ok.2 f).1 hf⟩
    · rintro ⟨q, ⟨name, hname, hq⟩, hf⟩
      obtain ⟨fs, hfs, hwalk⟩ := hfrom name hname q hq
      exact ⟨name, hname, fs, hfs, (hwalk.of_ok.2 f).2 hf⟩

/-- One step of the walk: if the walks from all parents come to what they should, so does the walk
from the profile. -/
theorem Walked.step (hp : p.key ∉ chain)
    (hown : ∃ own, (ownFiles expand p).result = .ok own ∧ ∀ f, f ∈ own ↔ Contributes expand p f) :
    r.Walked expand p (r.resolveFrom expand (fuel + 1) chain p).result := by
  rw [result_resolveFrom_succ expand fuel hp]
  cases hparents : p.parents.mapM (r.inheritFrom expand fuel chain p) with
  | error e =>
    obtain ⟨hcycle, names, rfl⟩ := reachesCycle_of_inherited ih hparents
    exact .cycle names hcycle
  | ok inherited =>
    obtain ⟨hacyclic, hmem⟩ := mem_inherited_iff ih hparents
    obtain ⟨own, howns, hown⟩ := hown
    rw [howns]
    refine .files _ (fun hcycle => ?_) fun f => ?_
    · obtain ⟨q, hpq, hq⟩ := hcycle.exists_parent
      exact hacyclic q hpq hq
    · rw [List.mem_append, hmem, hown, exists_reaches_iff]

end Step

/-- The walk comes to what it should from every profile, below every chain that leaves it enough
steps. -/
theorem walked_resolveFrom (hr : r.Keyed) {expand : Expansion} {p : Profile} (hp : r.Stored p)
    (hexpand : ∀ q, r.Reaches p q →
      (∃ fs, (expand q.includes q.root).result = .ok fs) ∧
        ∃ fs, (expand q.excludes q.root).result = .ok fs)
    {fuel : Nat} {chain : List (Text × Text)} (hchain : r.Above chain p)
    (hfuel : r.size < chain.length + fuel) :
    r.Walked expand p (r.resolveFrom expand fuel chain p).result := by
  induction fuel generalizing chain p with
  | zero =>
    -- A chain is never longer than there are profiles.
    have hle := hchain.length_le
    omega
  | succ fuel ih =>
    by_cases hmem : p.key ∈ chain
    · -- The profile descends from itself.
      rw [resolveFrom, if_pos (by simpa using hmem)]
      exact .cycle _ (hchain.reachesCycle hp hmem)
    · obtain ⟨⟨included, hin⟩, excluded, hex⟩ := hexpand p (.refl p)
      refine .step (fun q hpq => ?_) hmem (exists_ownFiles hin hex)
      refine ih (hr.stored_of_parent hpq) (fun s hs => hexpand s (.step hpq hs))
        (hchain.snoc hp hmem hpq) ?_
      rw [List.length_append, List.length_singleton]
      omega

/-- So does the walk that starts at a profile. -/
theorem walked_resolve (hr : r.Keyed) {expand : Expansion} {p : Profile} (hp : r.Stored p)
    (hexpand : ∀ q, r.Reaches p q →
      (∃ fs, (expand q.includes q.root).result = .ok fs) ∧
        ∃ fs, (expand q.excludes q.root).result = .ok fs) :
    r.Walked expand p (r.resolve expand p).result :=
  walked_resolveFrom hr hp hexpand (.nil p) (by simp)

/-- **Resolving a profile is right about the graph of profiles.**  It ends with a cycle iff a cycle
can be reached from the profile; otherwise it ends with files, and these are what the profiles that
can be reached contribute. -/
theorem resolve_cycle_iff_and_files (r : Registry) (hr : r.Keyed) (expand : Expansion) (p : Profile)
    (hp : r.Stored p)
    (hexpand : ∀ q, r.Reaches p q →
      (∃ fs, (expand q.includes q.root).result = .ok fs) ∧
        ∃ fs, (expand q.excludes q.root).result = .ok fs) :
    ((∃ names, (r.resolve expand p).result = .error (.cycle names)) ↔ r.ReachesCycle p) ∧
      (¬ r.ReachesCycle p → ∃ files, (r.resolve expand p).result = .ok files ∧
        ∀ f, f ∈ files ↔ ∃ q, r.Reaches p q ∧ Contributes expand q f) := by
  have hwalk := walked_resolve hr hp hexpand
  cases hresult : (r.resolve expand p).result with
  | error e =>
    rw [hresult] at hwalk
    cases hwalk with
    | cycle names h => exact ⟨⟨fun _ => h, fun _ => ⟨names, rfl⟩⟩, fun hnot => absurd h hnot⟩
  | ok files =>
    rw [hresult] at hwalk
    cases hwalk with
    | files _ h hfiles =>
      exact ⟨⟨fun ⟨_, hnames⟩ => absurd hnames nofun, fun hcycle => absurd hcycle h⟩,
        fun _ => ⟨files, rfl, hfiles⟩⟩

/-! ## A diamond across two roots -/

/-- A profile with one include pattern and no exclude pattern. -/
def plain (root name : Text) (parents : List Text) (pattern : Text) : Profile :=
  ⟨name, root, parents, [pattern], []⟩

/-- A profile `d` over two that share a parent, one of them through a name that only the other root
declares; `o` inherits from itself through `p`. -/
def diamond : Registry where
  byRoot :=
    [(['/', 'u'], [(['b'], plain ['/', 'u'] ['b'] [['a']] ['y']),
      (['a'], plain ['/', 'u'] ['a'] [] ['*'])]),
    (['/', 'v'], [(['a'], plain ['/', 'v'] ['a'] [] ['x']),
      (['c'], plain ['/', 'v'] ['c'] [['a'], ['q']] ['z']),
      (['d'], plain ['/', 'v'] ['d'] [['b'], ['c'], ['a']] ['w']),
      (['o'], plain ['/', 'v'] ['o'] [['p']] ['x']),
      (['p'], plain ['/', 'v'] ['p'] [['o']] ['x'])])]

/-- Two roots with three files each. -/
def diamondHost : Host where
  tree := .directory
    [(['u'], .directory [(['x'], .file [] (.given 0)), (['y'], .file [] (.given 0))]),
    (['v'], .directory [(['x'], .file [] (.given 0)), (['z'], .file [] (.given 0))])]
  directory := []
  lost := 0
  home := ['/']
  users := []
  clock := 0

/-- How the patterns of the diamond are expanded. -/
def diamondExpansion : Expansion :=
  (Matcher.mk false ".gitignore".toList).expand diamondHost .empty

/-- The profile on top of the diamond. -/
def diamondTop : Profile :=
  plain ['/', 'v'] ['d'] [['b'], ['c'], ['a']] ['w']

theorem keyed_diamond : diamond.Keyed := by
  constructor <;> decide

theorem expands_diamond {q : Profile} (hq : diamond.Stored q) :
    (∃ fs, (diamondExpansion q.includes q.root).result = .ok fs) ∧
      ∃ fs, (diamondExpansion q.excludes q.root).result = .ok fs :=
  hq.expands_of_all (by cbv)

/-- The diamond is resolved although its shared parent is walked twice, and reaches no cycle. -/
theorem resolve_diamond :
    diamond.Keyed ∧ diamond.Stored diamondTop ∧
      (∀ q, diamond.Reaches diamondTop q →
        (∃ fs, (diamondExpansion q.includes q.root).result = .ok fs) ∧
          ∃ fs, (diamondExpansion q.excludes q.root).result = .ok fs) ∧
      ¬ diamond.ReachesCycle diamondTop ∧
      ∃ files, (diamond.resolve diamondExpansion diamondTop).result = .ok files ∧
        ∀ f, f ∈ files ↔ ∃ q, diamond.Reaches diamondTop q ∧ Contributes diamondExpansion q f := by
  have hstored : diamond.Stored diamondTop := by decide
  have hexpand := fun q hq => expands_diamond (keyed_diamond.stored_of_reaches hstored (q := q) hq)
  have hresolve := resolve_cycle_iff_and_files diamond keyed_diamond diamondExpansion diamondTop
    hstored hexpand
  have hok : (diamond.resolve diamondExpansion diamondTop).result.isOk = true := by cbv
  have hnot : ¬ diamond.ReachesCycle diamondTop := by
    intro hcycle
    obtain ⟨names, hnames⟩ := hresolve.1.2 hcycle
    rw [hnames] at hok
    cases hok
  exact ⟨keyed_diamond, hstored, hexpand, hnot, hresolve.2 hnot⟩

end Bindery.Registry

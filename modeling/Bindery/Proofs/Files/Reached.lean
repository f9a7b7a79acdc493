import Bindery.Proofs.Files.Leading
import Bindery.Proofs.Files.Plain
import Bindery.Proofs.Path.Parsed

/-!
# The directory at a path

A path is looked up from the root or from the working directory.  Which of them, and what is left of
the names when the walk begins there, is the same for all trees; the rest is the business of the
tree.  So what is at the path of a name in a directory depends on where the path of the directory
leads and on what the directory has under that name.

* `Host.LeadsTo`: a path leads to the place of a directory.
* `Host.follow_child_iff`: what is found at the path of a name in it.
* `Host.LeadsTo.eq_of_put`: a file that was put there does not change where the path leads.
-/

namespace Bindery.Host

open Bindery.Path (Parsed)

variable {h : Host} {p : Parsed} {purpose : Purpose} {place : List Text} {location : Location}

/-! ## From the text of a path to its names -/

/-- What is found at the names of a path. -/
def follow (h : Host) (purpose : Purpose) (p : Parsed) : Except FileError Location :=
  if p.isAbsolute then walk h.tree purpose maxLinks [] p.names else h.walkHere purpose p.names

/-- The text of a path is one that is looked up. -/
structure Fits (p : Parsed) : Prop where
  no_null : '\x00' ∉ p.toText
  short : Utf8.byteLength p.toText < maxPathBytes

theorem walk_of_nothing {tree : Node} {links : Nat} {parts : List Text}
    (hparts : ∀ part ∈ parts, part = [] ∨ part = ['.']) :
    walk tree purpose links place parts = walk tree purpose links place [] := by
  induction parts with
  | nil => rfl
  | cons part parts ih =>
    obtain ⟨hpart, hparts⟩ := List.forall_mem_cons.1 hparts
    rw [walk_here hpart, ih hparts]

theorem climb_of_nothing {lost : Nat} {parts : List Text}
    (hparts : ∀ part ∈ parts, part = [] ∨ part = ['.']) :
    climb purpose (lost + 1) parts = .ok (lost + 1, []) := by
  induction parts with
  | nil => rw [climb]
  | cons part parts ih =>
    obtain ⟨hpart, hparts⟩ := List.forall_mem_cons.1 hparts
    rw [climb, if_pos hpart, ih hparts]

/-- The parts of the text are followed as the names are. -/
theorem follow_eq (hp : p.IsProper) :
    (if Path.isAbsolute p.toText then walk h.tree purpose maxLinks [] (p.toText.splitOn '/')
      else h.walkHere purpose (p.toText.splitOn '/')) = h.follow purpose p := by
  rw [follow, Parsed.isAbsolute_toText hp]
  by_cases hnames : p.names = []
  · have hparts := Parsed.part_eq_of_names_eq_nil hp hnames
    have hhere : h.walkHere purpose (p.toText.splitOn '/') = h.walkHere purpose [] := by
      rw [walkHere, walkHere]
      cases h.lost with
      | zero =>
        rw [climb, climb]
        exact walk_of_nothing hparts
      | succ lost => rw [climb_of_nothing hparts, climb]
    rw [hnames, walk_of_nothing hparts, hhere]
  · rw [Parsed.splitOn_toText hp hnames, walk_replicate_nil]
    cases habs : p.isAbsolute with
    | true => rfl
    | false =>
      have hroot : p.root = [] := by simpa [Parsed.isAbsolute] using habs
      rw [hroot]
      rfl

theorem locate_eq_ok_iff (hp : p.IsProper) :
    h.locate purpose p.toText = .ok location ↔ Fits p ∧ h.follow purpose p = .ok location := by
  rw [locate]
  by_cases hnull : '\x00' ∈ p.toText
  · rw [if_pos (by simpa using hnull)]
    exact iff_of_false (by simp) fun h => h.1.no_null hnull
  rw [if_neg (by simpa using hnull), if_neg (by simpa using p.toText_ne_nil)]
  by_cases hlong : maxPathBytes ≤ Utf8.byteLength p.toText
  · rw [if_pos hlong]
    exact iff_of_false (by simp) fun h => Nat.not_le_of_lt h.1.short hlong
  rw [if_neg hlong, and_iff_right ⟨hnull, Nat.lt_of_not_le hlong⟩]
  dsimp only
  rw [follow_eq hp]
  cases h.follow purpose p with
  | error e => simp [Except.mapError]
  | ok found => simp [Except.mapError]

theorem nodeAt_eq_ok_iff_follow (hp : p.IsProper) {n : Node} :
    h.nodeAt purpose p.toText = .ok n ↔
      Fits p ∧ ∃ place, h.follow purpose p = .ok ⟨place, some n⟩ := by
  have hlocate : h.nodeAt purpose p.toText = .ok n ↔
      ∃ place, h.locate purpose p.toText = .ok ⟨place, some n⟩ := by
    rw [nodeAt]
    cases h.locate purpose p.toText with
    | error e => simp
    | ok found =>
      obtain ⟨place, _ | m⟩ := found
      · simp
      · simp
  rw [hlocate]
  constructor
  · rintro ⟨place, hfound⟩
    obtain ⟨hfits, hfollow⟩ := (locate_eq_ok_iff hp).1 hfound
    exact ⟨hfits, place, hfollow⟩
  · rintro ⟨hfits, place, hfollow⟩
    exact ⟨place, (locate_eq_ok_iff hp).2 ⟨hfits, hfollow⟩⟩

/-! ## Where a walk begins -/

/-- The place where the names of a path are followed from, and those that are left there; a path
that ends above what is left of the working directory has none. -/
def start? (h : Host) (p : Parsed) : Option (List Text × List Text) :=
  if p.isAbsolute then some ([], p.names)
  else
    match climb .target h.lost p.names with
    | .ok (0, names) => some (h.directory, names)
    | _ => none

/-- Unless a file is written, names climb out of the working directory in the same way. -/
theorem climb_eq_climb_target (hpurpose : purpose ≠ .output) (lost : Nat) (names : List Text) :
    climb purpose lost names = climb .target lost names := by
  fun_induction climb .target lost names with
  | case1 names => rw [climb]
  | case2 lost => rw [climb]
  | case3 lost name rest hhere ih => rw [climb, if_pos hhere, ih]
  | case4 lost rest hhere ih => rw [climb, if_neg hhere, if_pos rfl, ih]
  | case5 lost name rest hhere habove hout => cases hout.1
  | case6 lost name rest hhere habove hout =>
    rw [climb, if_neg hhere, if_neg habove, if_neg fun hout => hpurpose hout.1]

theorem climb_append {last : Text} (hlast : IsLookedUp last) (lost : Nat) (names : List Text) :
    climb .target lost (names ++ [last]) =
      match climb .target lost names with
      | .ok (0, rest) => .ok (0, rest ++ [last])
      | .ok (_ + 1, _) => .error .notFound
      | .error e => .error e := by
  fun_induction climb .target lost names with
  | case1 names => rw [climb]
  | case2 lost =>
    rw [List.nil_append, climb, if_neg (not_or.2 ⟨hlast.ne_nil, hlast.ne_here⟩),
      if_neg hlast.ne_above, if_neg fun hout => nomatch hout.1]
  | case3 lost name rest hhere ih => rw [List.cons_append, climb, if_pos hhere, ih]
  | case4 lost rest hhere ih => rw [List.cons_append, climb, if_neg hhere, if_pos rfl, ih]
  | case5 lost name rest hhere habove hout => cases hout.1
  | case6 lost name rest hhere habove hout =>
    rw [List.cons_append, climb, if_neg hhere, if_neg habove, if_neg fun hout => nomatch hout.1]

/-- A path leads to the place of a directory. -/
def LeadsTo (h : Host) (p : Parsed) (place : List Text) : Prop :=
  ∃ start, h.start? p = some start ∧ Leads h.tree maxLinks start.1 start.2 place

theorem start?_child {last : Text} (hlast : IsLookedUp last) :
    h.start? (p.child last) = (h.start? p).map fun start => (start.1, start.2 ++ [last]) := by
  rw [start?, start?, Parsed.isAbsolute_child]
  split
  · rfl
  · have happend := climb_append hlast h.lost p.names
    rw [Parsed.child, happend]
    cases climb .target h.lost p.names with
    | error e => rfl
    | ok found =>
      obtain ⟨lost, rest⟩ := found
      cases lost <;> rfl

theorem follow_of_start? (hpurpose : purpose ≠ .output) {names : List Text}
    (hstart : h.start? p = some (place, names)) :
    h.follow purpose p = walk h.tree purpose maxLinks place names := by
  rw [start?] at hstart
  rw [follow]
  split at hstart
  · next habs =>
    cases hstart
    rw [if_pos habs]
  · next habs =>
    rw [if_neg habs, walkHere, climb_eq_climb_target hpurpose]
    split at hstart
    · next hclimb =>
      cases hstart
      rw [hclimb]
    · cases hstart

/-- A path that leads to a name has a place where it begins. -/
theorem exists_start?_of_follow_child (hpurpose : purpose ≠ .output) {last : Text}
    (hlast : IsLookedUp last) (hfollow : h.follow purpose (p.child last) = .ok location) :
    ∃ start, h.start? p = some start := by
  rw [start?]
  rw [follow, Parsed.isAbsolute_child] at hfollow
  split
  · exact ⟨_, rfl⟩
  · next habs =>
    have happend := climb_append hlast h.lost p.names
    rw [if_neg habs, walkHere, climb_eq_climb_target hpurpose, Parsed.child, happend] at hfollow
    cases hclimb : climb .target h.lost p.names with
    | error e =>
      rw [hclimb] at hfollow
      cases hfollow
    | ok found =>
      obtain ⟨lost, rest⟩ := found
      cases lost with
      | zero => exact ⟨_, rfl⟩
      | succ lost =>
        rw [hclimb] at hfollow
        cases hfollow

/-- What is found with links followed is found without the last one followed. -/
theorem exists_follow_entry_of_follow_target (hfollow : h.follow .target p = .ok location)
    (hsome : location.node.isSome = true) :
    ∃ entry, h.follow .entry p = .ok entry ∧ entry.node.isSome = true := by
  rw [follow] at hfollow ⊢
  by_cases habs : p.isAbsolute = true
  · rw [if_pos habs] at hfollow ⊢
    exact exists_walk_entry_of_walk_target hfollow hsome
  · rw [if_neg habs, walkHere] at hfollow ⊢
    rw [climb_eq_climb_target (by decide)]
    split at hfollow
    · cases hfollow
    · exact exists_walk_entry_of_walk_target hfollow hsome
    · exact ⟨location, hfollow, hsome⟩

/-- A path that leads to a directory leads to its place, unless it ends above what is left of the
working directory. -/
theorem leadsTo_of_follow_target (hfollow : h.follow .target p = .ok location)
    {es : List (Text × Node)} (hdirectory : location.node = some (.directory es))
    (hstart : (h.start? p).isSome = true) : h.LeadsTo p location.place := by
  obtain ⟨⟨place, names⟩, hstart⟩ := Option.isSome_iff_exists.1 hstart
  rw [follow_of_start? (by decide) hstart] at hfollow
  exact ⟨_, hstart, leads_of_walk_target hfollow hdirectory⟩

/-! ## A name in a directory -/

/-- What is found at the path of a name is what the directory has under that name. -/
theorem follow_child_iff {last : Text} (hlast : IsLookedUp last) :
    h.follow .entry (p.child last) = .ok location ↔
      ∃ place, h.LeadsTo p place ∧
        location = ⟨place ++ [last], h.tree.get? (place ++ [last])⟩ := by
  constructor
  · intro hfollow
    obtain ⟨⟨place, names⟩, hstart⟩ := exists_start?_of_follow_child (by decide) hlast hfollow
    have hchild := start?_child (h := h) (p := p) hlast
    rw [hstart] at hchild
    rw [follow_of_start? (by decide) hchild] at hfollow
    obtain ⟨found, hfound, hlocation⟩ := exists_leads_of_walk_entry hlast hfollow
    exact ⟨found, ⟨_, hstart, hfound⟩, hlocation⟩
  · rintro ⟨place, ⟨start, hstart, hleads⟩, rfl⟩
    have hchild := start?_child (h := h) (p := p) hlast
    rw [hstart] at hchild
    rw [follow_of_start? (by decide) hchild]
    exact hleads.walk_entry hlast

namespace LeadsTo

/-- A file in the directory is found by its path. -/
theorem follow_target_child {last : Text} (hlast : IsLookedUp last) (hp : h.LeadsTo p place)
    {bytes : List UInt8} {stamp : Stamp}
    (hfile : h.tree.get? (place ++ [last]) = some (.file bytes stamp)) :
    h.follow .target (p.child last) = .ok ⟨place ++ [last], some (.file bytes stamp)⟩ := by
  obtain ⟨start, hstart, hleads⟩ := hp
  have hchild := start?_child (h := h) (p := p) hlast
  rw [hstart] at hchild
  rw [follow_of_start? (by decide) hchild]
  exact hleads.walk_target_file hlast hfile

/-- A path leads to one place only. -/
theorem unique {other : List Text} (hp : h.LeadsTo p place) (hother : h.LeadsTo p other) :
    place = other := by
  obtain ⟨start, hstart, hleads⟩ := hp
  obtain ⟨start', hstart', hleads'⟩ := hother
  obtain rfl := Option.some.inj (hstart.symm.trans hstart')
  exact hleads.unique hleads'

end LeadsTo

/-! ## Files in a directory -/

/-- A host with a new file at a place. -/
def put (h : Host) (place : List Text) (bytes : List UInt8) : Host :=
  { h with tree := h.tree.set (.file bytes (.fresh h.clock)) place, clock := h.clock + 1 }

theorem get?_tree_put (h : Host) (place : List Text) (bytes : List UInt8) :
    (h.put place bytes).tree.get? place = some (.file bytes (.fresh h.clock)) :=
  Node.get?_set _ _ place

@[simp] theorem start?_put (h : Host) (p : Parsed) (place : List Text) (bytes : List UInt8) :
    (h.put place bytes).start? p = h.start? p := rfl

/-- A file that was put where a path leads does not change where it leads. -/
theorem LeadsTo.eq_of_put (hp : h.LeadsTo p place) {name : Text} {bytes : List UInt8}
    {after : List Text} (hafter : (h.put (place ++ [name]) bytes).LeadsTo p after) :
    after = place := by
  obtain ⟨start, hstart, hleads⟩ := hp
  obtain ⟨start', hstart', hleads'⟩ := hafter
  obtain rfl := Option.some.inj (hstart.symm.trans hstart')
  exact hleads.eq_of_set_file hleads'

variable {name : Text} {next : Host} {bytes : List UInt8}

/-- A file that is made sure of was there, or is put where its path leads and nothing was. -/
theorem exists_of_ensureFile (hchild : (p.child name).IsProper) (hname : IsLookedUp name)
    (hensure : h.ensureFile (p.child name).toText = .ok next) :
    Fits (p.child name) ∧ ∃ place, h.LeadsTo p place ∧
      (next = h ∨ h.tree.get? (place ++ [name]) = none ∧ next = h.put (place ++ [name]) []) ∧
        ∃ bytes stamp, next.tree.get? (place ++ [name]) = some (.file bytes stamp) := by
  cases hlocate : h.locate .entry (p.child name).toText with
  | error e =>
    rw [ensureFile, hlocate] at hensure
    cases hensure
  | ok location =>
    obtain ⟨hfits, hfollow⟩ := (locate_eq_ok_iff hchild).1 hlocate
    obtain ⟨place, hplace, rfl⟩ := (follow_child_iff hname).1 hfollow
    refine ⟨hfits, place, hplace, ?_⟩
    rw [ensureFile, hlocate] at hensure
    cases hnode : h.tree.get? (place ++ [name]) with
    | none =>
      rw [hnode] at hensure
      obtain rfl := Except.ok.inj hensure
      exact ⟨Or.inr ⟨rfl, rfl⟩, [], _, h.get?_tree_put _ []⟩
    | some n =>
      rw [hnode] at hensure
      cases n with
      | file bytes stamp =>
        obtain rfl := Except.ok.inj hensure
        exact ⟨Or.inl rfl, bytes, stamp, hnode⟩
      | link target => cases hensure
      | directory es => cases hensure

/-- A file that is there need not be made. -/
theorem ensureFile_of_leadsTo (hchild : (p.child name).IsProper) (hname : IsLookedUp name)
    (hfits : Fits (p.child name)) (hplace : h.LeadsTo p place) {stamp : Stamp}
    (hfile : h.tree.get? (place ++ [name]) = some (.file bytes stamp)) :
    h.ensureFile (p.child name).toText = .ok h := by
  have hlocate : h.locate .entry (p.child name).toText =
      .ok ⟨place ++ [name], some (.file bytes stamp)⟩ :=
    (locate_eq_ok_iff hchild).2 ⟨hfits, (follow_child_iff hname).2 ⟨place, hplace, by rw [hfile]⟩⟩
  rw [ensureFile, hlocate]

/-- A file that takes the place of another is put where its path leads. -/
theorem exists_of_replaceFile (hchild : (p.child name).IsProper) (hname : IsLookedUp name)
    (hreplace : h.replaceFile (p.child name) bytes = .ok next) :
    Fits (p.child name) ∧ ∃ place, h.LeadsTo p place ∧ next = h.put (place ++ [name]) bytes := by
  rw [replaceFile] at hreplace
  split at hreplace
  · cases hreplace
  · cases hreplace
  · next place n _ hlocate =>
    obtain ⟨hfits, hfollow⟩ := (locate_eq_ok_iff hchild).1 hlocate
    obtain ⟨found, hfound, hlocation⟩ := (follow_child_iff hname).1 hfollow
    obtain ⟨rfl, -⟩ := Location.mk.inj hlocation
    split at hreplace
    · cases hreplace
    split at hreplace
    · cases hreplace
    · exact ⟨hfits, found, hfound, (Except.ok.inj hreplace).symm⟩

/-- A file where a path leads is found by its path. -/
theorem node_child_of_leadsTo (hchild : (p.child name).IsProper) (hname : IsLookedUp name)
    (hfits : Fits (p.child name)) (hplace : h.LeadsTo p place) {stamp : Stamp}
    (hfile : h.tree.get? (place ++ [name]) = some (.file bytes stamp)) :
    h.node (p.child name).toText = .ok (.file bytes stamp) :=
  (nodeAt_eq_ok_iff_follow hchild).2 ⟨hfits, _, hplace.follow_target_child hname hfile⟩

/-- The path of a directory leads to its place, if it has a place where it begins. -/
theorem exists_leadsTo_of_isDirectory (hp : p.IsProper) (hdirectory : h.isDirectory p.toText = true)
    (hstart : (h.start? p).isSome = true) : ∃ place, h.LeadsTo p place := by
  rw [isDirectory, node] at hdirectory
  split at hdirectory
  · next n hn =>
    obtain ⟨-, place, hfollow⟩ := (nodeAt_eq_ok_iff_follow hp).1 hn
    cases n with
    | directory es => exact ⟨place, leadsTo_of_follow_target hfollow rfl hstart⟩
    | file _ _ => cases hdirectory
    | link _ => cases hdirectory
  · cases hdirectory

end Bindery.Host

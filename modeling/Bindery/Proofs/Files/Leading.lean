import Bindery.Files.Host
import Bindery.Proofs.Files.Tree

/-!
# The directories that names lead to

Names that are followed from a place pass through directories and links to directories.  What is
looked up in the end is a last name in the directory that those before it lead to, so a walk splits
in two: the way to a directory, and one look at it.  Putting a file into a directory does not change
which directory names lead to, if they lead to one afterwards.

* `Leads`: names lead from a place to a directory's place.
* `Leads.walk_append`: a walk goes on from there.
* `leads_of_walk_target`, `exists_leads_of_walk_entry`: a walk that ends well has led somewhere.
* `Leads.eq_of_set_file`: no other directory after a file was put into it.
-/

namespace Bindery.Host

/-- A name that is looked up: it has no meaning of its own, and is not too long. -/
structure IsLookedUp (name : Text) : Prop where
  ne_nil : name ≠ []
  ne_here : name ≠ ['.']
  ne_above : name ≠ ['.', '.']
  short : Utf8.byteLength name ≤ maxNameBytes

theorem IsLookedUp.of_not {name : Text} (hhere : ¬(name = [] ∨ name = ['.']))
    (habove : name ≠ ['.', '.']) (hshort : ¬ maxNameBytes < Utf8.byteLength name) :
    IsLookedUp name :=
  ⟨fun h => hhere (Or.inl h), fun h => hhere (Or.inr h), habove, Nat.le_of_not_lt hshort⟩

/-- Names lead from one place to another, through directories and links; `links` is the number of
links that may be followed. -/
inductive Leads (tree : Node) : Nat → List Text → List Text → List Text → Prop
  | nil (links : Nat) (place : List Text) : Leads tree links place [] place
  | here {links : Nat} {place rest found : List Text} {name : Text}
      (hname : name = [] ∨ name = ['.']) (hrest : Leads tree links place rest found) :
      Leads tree links place (name :: rest) found
  | above {links : Nat} {place rest found : List Text}
      (hrest : Leads tree links place.dropLast rest found) :
      Leads tree links place (['.', '.'] :: rest) found
  | enter {links : Nat} {place rest found : List Text} {name : Text} {es : List (Text × Node)}
      (hname : IsLookedUp name) (hdirectory : tree.get? (place ++ [name]) = some (.directory es))
      (hrest : Leads tree links (place ++ [name]) rest found) :
      Leads tree links place (name :: rest) found
  | follow {links : Nat} {place rest found : List Text} {name target : Text}
      (hname : IsLookedUp name) (hlink : tree.get? (place ++ [name]) = some (.link target))
      (hrest : Leads tree links (if Path.isAbsolute target then [] else place)
        (target.splitOn '/' ++ rest) found) :
      Leads tree (links + 1) place (name :: rest) found

variable {tree : Node} {links : Nat} {place names found : List Text} {purpose : Purpose}

/-! ## One name of a walk -/

theorem walk_here {name : Text} (hname : name = [] ∨ name = ['.']) (rest : List Text) :
    walk tree purpose links place (name :: rest) = walk tree purpose links place rest := by
  rw [walk, if_pos hname]

theorem walk_above (rest : List Text) :
    walk tree purpose links place (['.', '.'] :: rest) =
      walk tree purpose links place.dropLast rest := by
  rw [walk, if_neg (by decide), if_pos rfl]

/-- What is looked up decides how a walk goes on. -/
theorem walk_isLookedUp (hpurpose : purpose ≠ .output) {name : Text} (hname : IsLookedUp name)
    (rest : List Text) :
    walk tree purpose links place (name :: rest) =
      match tree.get? (place ++ [name]) with
      | none => if rest.isEmpty then .ok ⟨place ++ [name], none⟩ else .error .notFound
      | some (.directory _) => walk tree purpose links (place ++ [name]) rest
      | some (.file bytes stamp) =>
        if rest.isEmpty then .ok ⟨place ++ [name], some (.file bytes stamp)⟩
        else .error .notDirectory
      | some (.link target) =>
        if rest.isEmpty ∧ purpose = .entry then .ok ⟨place ++ [name], some (.link target)⟩
        else
          match links with
          | 0 => .error .tooManyLinks
          | links + 1 =>
            walk tree purpose links (if Path.isAbsolute target then [] else place)
              (target.splitOn '/' ++ rest) := by
  rw [walk]
  exact (if_neg (not_or.2 ⟨hname.ne_nil, hname.ne_here⟩)).trans <| (if_neg hname.ne_above).trans <|
    (if_neg fun hout => hpurpose hout.1).trans <| if_neg (Nat.not_lt_of_le hname.short)

namespace Leads

/-- A walk goes on where the first names lead.  An entry that is a link is only followed if names
come after it. -/
theorem walk_append (h : Leads tree links place names found) :
    ∃ left, ∀ purpose rest, purpose = .target ∨ purpose = .entry ∧ rest ≠ [] →
      walk tree purpose links place (names ++ rest) = walk tree purpose left found rest := by
  induction h with
  | nil links place => exact ⟨links, fun _ _ _ => rfl⟩
  | here hname _ ih =>
    obtain ⟨left, ih⟩ := ih
    exact ⟨left, fun purpose rest hrest => by
      rw [List.cons_append, walk_here hname, ih purpose rest hrest]⟩
  | above _ ih =>
    obtain ⟨left, ih⟩ := ih
    exact ⟨left, fun purpose rest hrest => by
      rw [List.cons_append, walk_above, ih purpose rest hrest]⟩
  | enter hname hdirectory _ ih =>
    obtain ⟨left, ih⟩ := ih
    refine ⟨left, fun purpose rest hrest => ?_⟩
    have hpurpose : purpose ≠ .output := by
      rintro rfl
      simp at hrest
    rw [List.cons_append, walk_isLookedUp hpurpose hname, hdirectory]
    exact ih purpose rest hrest
  | follow hname hlink _ ih =>
    obtain ⟨left, ih⟩ := ih
    refine ⟨left, fun purpose rest hrest => ?_⟩
    have hpurpose : purpose ≠ .output := by
      rintro rfl
      simp at hrest
    have hfollow : ∀ between : List Text,
        ¬((between ++ rest).isEmpty = true ∧ purpose = .entry) := by
      intro between ⟨hempty, hentry⟩
      obtain rfl | ⟨-, hne⟩ := hrest
      · cases hentry
      · exact hne (List.append_eq_nil_iff.1 (List.isEmpty_iff.1 hempty)).2
    rw [List.cons_append, walk_isLookedUp hpurpose hname, hlink]
    dsimp only
    rw [if_neg (hfollow _), ← List.append_assoc]
    exact ih purpose rest hrest

/-- What names lead to is found by a walk. -/
theorem walk_target (h : Leads tree links place names found) :
    walk tree .target links place names = .ok ⟨found, tree.get? found⟩ := by
  obtain ⟨left, hwalk⟩ := h.walk_append
  have hend := hwalk .target [] (Or.inl rfl)
  rwa [List.append_nil, walk] at hend

/-- A name that comes last is looked up in the directory. -/
theorem walk_entry (h : Leads tree links place names found) {last : Text}
    (hlast : IsLookedUp last) :
    walk tree .entry links place (names ++ [last]) =
      .ok ⟨found ++ [last], tree.get? (found ++ [last])⟩ := by
  obtain ⟨left, hwalk⟩ := h.walk_append
  rw [hwalk .entry [last] (Or.inr ⟨rfl, List.cons_ne_nil last []⟩),
    walk_isLookedUp (by decide) hlast]
  cases hnode : tree.get? (found ++ [last]) with
  | none => rfl
  | some n =>
    cases n with
    | file bytes stamp => rfl
    | link target => exact if_pos ⟨rfl, rfl⟩
    | directory es =>
      dsimp only
      rw [walk, hnode]

/-- A file in the directory is found with links followed. -/
theorem walk_target_file (h : Leads tree links place names found) {last : Text}
    (hlast : IsLookedUp last) {bytes : List UInt8} {stamp : Stamp}
    (hfile : tree.get? (found ++ [last]) = some (.file bytes stamp)) :
    walk tree .target links place (names ++ [last]) =
      .ok ⟨found ++ [last], some (.file bytes stamp)⟩ := by
  obtain ⟨left, hwalk⟩ := h.walk_append
  rw [hwalk .target [last] (Or.inl rfl), walk_isLookedUp (by decide) hlast, hfile]
  rfl

/-- Names lead to one place only. -/
theorem unique {other : List Text} (h : Leads tree links place names found)
    (h' : Leads tree links place names other) : found = other :=
  (Location.mk.inj (Except.ok.inj (h.walk_target.symm.trans h'.walk_target))).1

end Leads

/-! ## Walks that end well -/

/-- A walk that ends at a directory has led to it. -/
theorem leads_of_walk_target {location : Location} {es : List (Text × Node)}
    (h : walk tree .target links place names = .ok location)
    (hdirectory : location.node = some (.directory es)) :
    Leads tree links place names location.place := by
  fun_induction walk tree .target links place names with
  | case1 links place =>
    obtain rfl := Except.ok.inj h
    exact .nil links place
  | case2 links place name rest hhere ih => exact .here hhere (ih h)
  | case3 links place rest _ ih => exact .above (ih h)
  | case8 links place name rest hhere habove _ hshort entries hentry ih =>
    exact .enter (.of_not hhere habove hshort) hentry (ih h)
  | case13 place name rest hhere habove _ hshort target hentry _ links start ih =>
    exact .follow (.of_not hhere habove hshort) hentry (ih h)
  | case6 =>
    obtain rfl := Except.ok.inj h
    cases hdirectory
  | case9 =>
    obtain rfl := Except.ok.inj h
    cases hdirectory
  | case11 =>
    obtain rfl := Except.ok.inj h
    cases hdirectory
  | case4 | case5 | case7 | case10 | case12 => cases h

/-- The last name of a walk is looked up in the directory that those before it lead to. -/
theorem exists_leads_of_walk_entry {location : Location} {last : Text} (hlast : IsLookedUp last)
    (h : walk tree .entry links place (names ++ [last]) = .ok location) :
    ∃ found, Leads tree links place names found ∧
      location = ⟨found ++ [last], tree.get? (found ++ [last])⟩ := by
  have hend : ∀ {names rest : List Text} {name : Text}, names ++ [last] = name :: rest →
      rest.isEmpty = true → names = [] ∧ last = name := by
    intro names rest name hall hempty
    obtain ⟨rfl, hname⟩ | ⟨names, rfl, hrest⟩ := List.append_eq_cons_iff.1 hall
    · exact ⟨rfl, (List.cons.inj hname).1⟩
    · simp [hrest] at hempty
  generalize hall : names ++ [last] = all at h
  fun_induction walk tree .entry links place all generalizing names with
  | case1 => simp at hall
  | case2 links place name rest hhere ih =>
    obtain ⟨rfl, hname⟩ | ⟨names, rfl, hrest⟩ := List.append_eq_cons_iff.1 hall
    · obtain rfl := (List.cons.inj hname).1
      exact absurd hhere (not_or.2 ⟨hlast.ne_nil, hlast.ne_here⟩)
    · obtain ⟨found, hfound, hlocation⟩ := ih hrest.symm h
      exact ⟨found, .here hhere hfound, hlocation⟩
  | case3 links place rest _ ih =>
    obtain ⟨rfl, hname⟩ | ⟨names, rfl, hrest⟩ := List.append_eq_cons_iff.1 hall
    · exact absurd (List.cons.inj hname).1 hlast.ne_above
    · obtain ⟨found, hfound, hlocation⟩ := ih hrest.symm h
      exact ⟨found, .above hfound, hlocation⟩
  | case8 links place name rest hhere habove _ hshort entries hentry ih =>
    obtain ⟨rfl, hname⟩ | ⟨names, rfl, hrest⟩ := List.append_eq_cons_iff.1 hall
    · obtain ⟨rfl, rfl⟩ := List.cons.inj hname
      rw [walk] at h
      exact ⟨place, .nil links place, (Except.ok.inj h).symm⟩
    · obtain ⟨found, hfound, hlocation⟩ := ih hrest.symm h
      exact ⟨found, .enter (.of_not hhere habove hshort) hentry hfound, hlocation⟩
  | case13 place name rest hhere habove _ hshort target hentry hnext links start =>
    rename_i ih
    obtain ⟨rfl, hname⟩ | ⟨names, rfl, hrest⟩ := List.append_eq_cons_iff.1 hall
    · obtain ⟨rfl, rfl⟩ := List.cons.inj hname
      exact absurd ⟨rfl, rfl⟩ hnext
    · rw [hrest, ← List.append_assoc] at ih h
      obtain ⟨found, hfound, hlocation⟩ := ih rfl h
      exact ⟨found, .follow (.of_not hhere habove hshort) hentry hfound, hlocation⟩
  | case6 links place name rest _ _ _ _ hnode hempty =>
    obtain ⟨rfl, rfl⟩ := hend hall hempty
    exact ⟨place, .nil links place, by rw [hnode, Except.ok.inj h]⟩
  | case9 links place name rest _ _ _ _ bytes stamp hnode hempty =>
    obtain ⟨rfl, rfl⟩ := hend hall hempty
    exact ⟨place, .nil links place, by rw [hnode, Except.ok.inj h]⟩
  | case11 links place name rest _ _ _ _ target hnode hempty =>
    obtain ⟨rfl, rfl⟩ := hend hall hempty.1
    exact ⟨place, .nil links place, by rw [hnode, Except.ok.inj h]⟩
  | case4 | case5 | case7 | case10 | case12 => cases h

/-- What is found with links followed is found without the last one followed. -/
theorem exists_walk_entry_of_walk_target {location : Location}
    (h : walk tree .target links place names = .ok location) (hsome : location.node.isSome = true) :
    ∃ entry, walk tree .entry links place names = .ok entry ∧ entry.node.isSome = true := by
  have hentry : Purpose.entry ≠ .output := by decide
  fun_induction walk tree .target links place names with
  | case1 => exact ⟨location, by rwa [walk], hsome⟩
  | case2 links place name rest hhere ih =>
    rw [walk_here hhere]
    exact ih h
  | case3 links place rest _ ih =>
    rw [walk_above]
    exact ih h
  | case8 links place name rest hhere habove _ hshort entries hnode ih =>
    rw [walk_isLookedUp hentry (.of_not hhere habove hshort), hnode]
    exact ih h
  | case9 links place name rest hhere habove _ hshort bytes stamp hnode hlast =>
    rw [walk_isLookedUp hentry (.of_not hhere habove hshort), hnode]
    exact ⟨_, if_pos hlast, rfl⟩
  | case13 place name rest hhere habove _ hshort target hnode _ links start ih =>
    rw [walk_isLookedUp hentry (.of_not hhere habove hshort), hnode]
    dsimp only
    split
    · exact ⟨_, rfl, rfl⟩
    · exact ih h
  | case6 =>
    obtain rfl := Except.ok.inj h
    cases hsome
  | case11 _ _ _ _ _ _ _ _ _ _ hnext => cases hnext.2
  | case4 | case5 | case7 | case10 | case12 => cases h

/-! ## After a file was put into a directory -/

namespace Leads

/-- Names lead to a directory, or no tree matters because none of them is looked up. -/
theorem isDirectory_or_forall (h : Leads tree links place names found) :
    (∃ es, tree.get? found = some (.directory es)) ∨
      found <+: place ∧ ∀ other, Leads other links place names found := by
  induction h with
  | nil links place => exact Or.inr ⟨List.prefix_refl place, fun _ => .nil links place⟩
  | here hname _ ih => exact ih.imp_right fun h => ⟨h.1, fun other => .here hname (h.2 other)⟩
  | above _ ih =>
    exact ih.imp_right fun h =>
      ⟨h.1.trans (List.dropLast_prefix _), fun other => .above (h.2 other)⟩
  | enter _ hentry _ ih =>
    rcases ih with hfound | ⟨hfound, -⟩
    · exact Or.inl hfound
    · exact Or.inl (Node.exists_directory_of_isPrefix hfound hentry)
  | @follow _ place _ _ name target _ hentry _ ih =>
    rcases ih with hfound | ⟨hfound, -⟩
    · exact Or.inl hfound
    · -- The link lies in a directory, and so does its target, if not in the root.
      obtain ⟨es, hes⟩ := Node.exists_directory_of_get?_append (List.cons_ne_nil name []) hentry
      refine Or.inl (Node.exists_directory_of_isPrefix (hfound.trans ?_) hes)
      split
      · exact List.nil_prefix
      · exact List.prefix_refl place

/-- Where names lead after a file was put into a directory, they led before. -/
theorem of_set_file {directory : List Text} {es : List (Text × Node)}
    (hes : tree.get? directory = some (.directory es)) {bytes : List UInt8} {stamp : Stamp}
    {name : Text}
    (h : Leads (tree.set (.file bytes stamp) (directory ++ [name])) links place names found) :
    Leads tree links place names found := by
  induction h with
  | nil links place => exact .nil links place
  | here hname _ ih => exact .here hname ih
  | above _ ih => exact .above ih
  | enter hname hentry _ ih =>
    rcases Node.get?_of_get?_set_file hes bytes stamp name hentry rfl with hold | ⟨-, fs, hold⟩
    · exact .enter hname hold ih
    · exact .enter hname hold ih
  | follow hname hentry _ ih =>
    rcases Node.get?_of_get?_set_file hes bytes stamp name hentry rfl with hold | ⟨hdir, -⟩
    · exact .follow hname hold ih
    · cases hdir

/-- **Frame.** A file that is put into the directory that names lead to leaves them leading to no
other one. -/
theorem eq_of_set_file {bytes : List UInt8} {stamp : Stamp} {name : Text} {after : List Text}
    (h : Leads tree links place names found)
    (hafter : Leads (tree.set (.file bytes stamp) (found ++ [name])) links place names after) :
    after = found := by
  obtain ⟨es, hes⟩ | hall := h.isDirectory_or_forall
  · exact (hafter.of_set_file hes).unique h
  · exact hafter.unique (hall.2 _)

end Leads

end Bindery.Host

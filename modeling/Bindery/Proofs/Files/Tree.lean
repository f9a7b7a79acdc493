import Bindery.Files.Tree
import Bindery.Proofs.Entries

/-!
# Places in file trees

What is found in a tree at a place, and what is found there after a node was put at some place: at
that place the new node, below it what the new node has, above it directories, and anywhere else
what was there before.

* `Node.get?_set`, `Node.get?_set_append`, `Node.exists_directory_get?_set`, `Node.get?_set_beside`.
* `Node.get?_of_get?_set_file`: what is no file after a file was put into a directory was the same
  kind of node before.
* `Node.exists_directory_get?_set_kept`, `Node.get?_set_kept`: what was there before a node was put
  where no directory is.
-/

namespace Bindery.Node

theorem get?_cons (n : Node) (name : Text) (rest : List Text) :
    n.get? (name :: rest) = (Entries.get? n.entries name).bind (·.get? rest) := by
  rw [get?]
  cases Entries.get? n.entries name <;> rfl

theorem get?_append (n : Node) (place rest : List Text) :
    n.get? (place ++ rest) = (n.get? place).bind (·.get? rest) := by
  induction place generalizing n with
  | nil => rfl
  | cons name place ih =>
    rw [List.cons_append, get?_cons, get?_cons]
    cases Entries.get? n.entries name with
    | none => rfl
    | some child => exact ih child

/-- What has something below it is a directory. -/
theorem exists_directory_of_get?_cons {n m : Node} {name : Text} {rest : List Text}
    (h : n.get? (name :: rest) = some m) :
    ∃ es, n = .directory es ∧ name ∈ es.map Prod.fst := by
  rw [get?_cons] at h
  cases hchild : Entries.get? n.entries name with
  | none => exact absurd (hchild ▸ h) nofun
  | some child =>
    have hmem := Entries.mem_of_get?_eq_some hchild
    cases n with
    | directory es => exact ⟨es, rfl, List.mem_map_of_mem hmem⟩
    | file _ _ => exact absurd hmem List.not_mem_nil
    | link _ => exact absurd hmem List.not_mem_nil

/-- The way to anything leads through directories. -/
theorem exists_directory_of_get?_append {n m : Node} {place rest : List Text} (hne : rest ≠ [])
    (h : n.get? (place ++ rest) = some m) : ∃ es, n.get? place = some (.directory es) := by
  rw [get?_append, Option.bind_eq_some_iff] at h
  obtain ⟨above, habove, hrest⟩ := h
  obtain ⟨name, rest, rfl⟩ := List.exists_cons_of_ne_nil hne
  obtain ⟨es, rfl, -⟩ := exists_directory_of_get?_cons hrest
  exact ⟨es, habove⟩

theorem exists_directory_of_isPrefix {n : Node} {above place : List Text} (habove : above <+: place)
    {es : List (Text × Node)} (h : n.get? place = some (.directory es)) :
    ∃ fs, n.get? above = some (.directory fs) := by
  obtain ⟨rest, rfl⟩ := habove
  by_cases hrest : rest = []
  · rw [hrest, List.append_nil] at h
    exact ⟨es, h⟩
  · exact exists_directory_of_get?_append hrest h

/-! ## After a change -/

@[simp] theorem entries_set_cons (n new : Node) (name : Text) (place : List Text) :
    (n.set new (name :: place)).entries = Entries.put name
      (((Entries.get? n.entries name).getD emptyDirectory).set new place) n.entries :=
  rfl

theorem get?_set (n new : Node) (place : List Text) : (n.set new place).get? place = some new := by
  induction place generalizing n with
  | nil => rfl
  | cons name place ih =>
    rw [get?_cons, entries_set_cons, Entries.get?_put, if_pos rfl, Option.bind_some, ih]

/-- Below the place is what the new node has. -/
theorem get?_set_append (n new : Node) (place rest : List Text) :
    (n.set new place).get? (place ++ rest) = new.get? rest := by
  rw [get?_append, get?_set, Option.bind_some]

/-- Above the place are directories. -/
theorem exists_directory_get?_set (n new : Node) {above place : List Text}
    (habove : above <+: place) (hne : above ≠ place) :
    ∃ es, (n.set new place).get? above = some (.directory es) := by
  induction place generalizing n above with
  | nil => exact absurd (List.prefix_nil.1 habove) hne
  | cons name place ih =>
    cases above with
    | nil => exact ⟨_, rfl⟩
    | cons first above =>
      obtain ⟨rfl, hrest⟩ := List.cons_prefix_cons.1 habove
      rw [get?_cons, entries_set_cons, Entries.get?_put, if_pos rfl, Option.bind_some]
      exact ih _ hrest fun heq => hne (congrArg _ heq)

/-- Beside the place nothing changes. -/
theorem get?_set_beside (n new : Node) {place other : List Text} (hbelow : ¬ place <+: other)
    (habove : ¬ other <+: place) : (n.set new place).get? other = n.get? other := by
  induction place generalizing n other with
  | nil => exact absurd List.nil_prefix hbelow
  | cons name place ih =>
    cases other with
    | nil => exact absurd List.nil_prefix habove
    | cons first other =>
      rw [get?_cons, get?_cons, entries_set_cons, Entries.get?_put]
      by_cases hname : name = first
      · subst hname
        rw [List.cons_prefix_cons, and_iff_right rfl] at hbelow habove
        rw [if_pos rfl, Option.bind_some, ih _ hbelow habove]
        cases Entries.get? n.entries name with
        | none =>
          -- Neither a missing directory nor an empty one has anything in it.
          cases other with
          | nil => exact absurd List.nil_prefix habove
          | cons second other => rfl
        | some child => rfl
      · rw [if_neg hname]

/-- A directory stays one after a node was put where no directory is. -/
theorem exists_directory_get?_set_kept {n : Node} {place other : List Text}
    {es : List (Text × Node)} (h : n.get? other = some (.directory es))
    (hplace : ∀ fs, n.get? place ≠ some (.directory fs)) (new : Node) :
    ∃ fs, (n.set new place).get? other = some (.directory fs) := by
  have hbelow : ¬ place <+: other := by
    intro hprefix
    obtain ⟨fs, hfs⟩ := exists_directory_of_isPrefix hprefix h
    exact hplace fs hfs
  by_cases habove : other <+: place
  · refine exists_directory_get?_set n new habove ?_
    rintro rfl
    exact hplace es h
  · exact ⟨es, (get?_set_beside n new hbelow habove).trans h⟩

/-- Two names in one directory are beside each other. -/
theorem get?_set_sibling (n new : Node) (directory : List Text) {name other : Text}
    (hne : other ≠ name) :
    (n.set new (directory ++ [name])).get? (directory ++ [other]) =
      n.get? (directory ++ [other]) := by
  refine get?_set_beside n new (fun hprefix => hne ?_) (fun hprefix => hne ?_)
  · have heq := hprefix.eq_of_length (by simp)
    exact (List.singleton_injective (List.append_cancel_left heq)).symm
  · have heq := hprefix.eq_of_length (by simp)
    exact List.singleton_injective (List.append_cancel_left heq)

/-- What is no file after a file was put into a directory was the same kind of node before. -/
theorem get?_of_get?_set_file {n : Node} {directory : List Text} {es : List (Text × Node)}
    (hdirectory : n.get? directory = some (.directory es)) (bytes : List UInt8) (stamp : Stamp)
    (name : Text) {place : List Text} {m : Node}
    (h : (n.set (.file bytes stamp) (directory ++ [name])).get? place = some m)
    (hfile : m.isFile = false) :
    n.get? place = some m ∨
      (m.isDirectory = true ∧ ∃ fs, n.get? place = some (.directory fs)) := by
  by_cases hbelow : directory ++ [name] <+: place
  · obtain ⟨rest, rfl⟩ := hbelow
    rw [get?_set_append] at h
    cases rest with
    | nil =>
      obtain rfl := Option.some.inj h
      cases hfile
    | cons first rest => cases h
  by_cases habove : place <+: directory ++ [name]
  · have hne : place ≠ directory ++ [name] := fun heq => hbelow (heq ▸ List.prefix_refl _)
    obtain ⟨fs, hfs⟩ := exists_directory_get?_set n (.file bytes stamp) habove hne
    obtain rfl := Option.some.inj (hfs.symm.trans h)
    have hplace : place <+: directory := by
      rcases List.prefix_concat_iff.1 habove with heq | hprefix
      · exact absurd heq hne
      · exact hprefix
    exact Or.inr ⟨rfl, exists_directory_of_isPrefix hplace hdirectory⟩
  · exact Or.inl ((get?_set_beside n _ hbelow habove).symm.trans h)

/-- What is no directory stays what it is after a node was put into a directory elsewhere, where no
directory is. -/
theorem get?_set_kept {n : Node} {directory : List Text} {es : List (Text × Node)}
    (hdirectory : n.get? directory = some (.directory es)) {name : Text}
    (hplace : ∀ fs, n.get? (directory ++ [name]) ≠ some (.directory fs)) (new : Node)
    {other : List Text} {m : Node} (h : n.get? other = some m) (hm : m.isDirectory = false)
    (hne : other ≠ directory ++ [name]) :
    (n.set new (directory ++ [name])).get? other = some m := by
  refine (get?_set_beside n new ?_ ?_).trans h
  · rintro ⟨rest, rfl⟩
    have hrest : rest ≠ [] := by
      rintro rfl
      exact hne (List.append_nil _)
    obtain ⟨fs, hfs⟩ := exists_directory_of_get?_append hrest h
    exact hplace fs hfs
  · intro habove
    rcases List.prefix_concat_iff.1 habove with heq | hprefix
    · exact hne heq
    · obtain ⟨fs, hfs⟩ := exists_directory_of_isPrefix hprefix hdirectory
      obtain rfl := Option.some.inj (h.symm.trans hfs)
      cases hm

end Bindery.Node

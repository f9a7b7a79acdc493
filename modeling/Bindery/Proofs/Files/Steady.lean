import Bindery.Proofs.Files.Reached

/-!
# What stays when a file is put into a directory

Names lead where they did after a file was put into a directory, if what it takes the place of leads
to no directory itself.  What is found is found at the same place, if the new file takes the place of
nothing or of a file.

* `Leads.set_file`, `LeadsTo.put`: where names, and paths, lead.
* `walk_target_set`: what is found elsewhere.
* `LeadsTo.isDirectory`, `exists_leadsTo_of_node_child`: the directory of a file is there.
* `LeadsTo.locate_output`, `replaceFile_of_leadsTo`: when a file can be written, and when it can take
  the place of another.
-/

namespace Bindery.Host

open Bindery.Path (Parsed)

variable {tree : Node} {links : Nat} {place names found : List Text} {purpose : Purpose}

/-- A name leads nowhere if nothing but a file has it. -/
theorem not_leads_of_isFile {name : Text} (hname : IsLookedUp name)
    (hfile : ∀ n, tree.get? (place ++ [name]) = some n → n.isFile = true) :
    ¬ Leads tree links place [name] found := by
  generalize hnames : [name] = names
  intro hleads
  cases hleads with
  | nil => cases hnames
  | here hhere _ =>
    obtain rfl := (List.cons.inj hnames).1
    exact absurd hhere (not_or.2 ⟨hname.ne_nil, hname.ne_here⟩)
  | above _ => exact absurd (List.cons.inj hnames).1 hname.ne_above
  | enter _ hdirectory _ =>
    obtain rfl := (List.cons.inj hnames).1
    cases hfile _ hdirectory
  | follow _ hlink _ =>
    obtain rfl := (List.cons.inj hnames).1
    cases hfile _ hlink

theorem endsInSlash_append {last : Text} (hlast : last ≠ []) (rest : List Text) :
    endsInSlash (rest ++ [last]) = false := by
  simp [endsInSlash, hlast]

namespace Leads

/-- More links may be followed than are there. -/
theorem more (h : Leads tree links place names found) (n : Nat) :
    Leads tree (links + n) place names found := by
  induction h with
  | nil links place => exact .nil _ place
  | here hname _ ih => exact .here hname ih
  | above _ ih => exact .above ih
  | enter hname hdirectory _ ih => exact .enter hname hdirectory ih
  | @follow links _ _ _ _ _ hname hlink _ ih =>
    rw [Nat.add_right_comm]
    exact .follow hname hlink ih

/-- Names lead somewhere before those after them do. -/
theorem exists_front {front rest : List Text} (h : Leads tree links place (front ++ rest) found) :
    ∃ between, Leads tree links place front between := by
  generalize hall : front ++ rest = all at h
  induction h generalizing front with
  | nil links place =>
    rw [(List.append_eq_nil_iff.1 hall).1]
    exact ⟨place, .nil links place⟩
  | @here links place _ _ _ hname _ ih =>
    obtain ⟨rfl, -⟩ | ⟨front, rfl, hrest⟩ := List.append_eq_cons_iff.1 hall
    · exact ⟨place, .nil links place⟩
    · obtain ⟨between, hbetween⟩ := ih hrest.symm
      exact ⟨between, .here hname hbetween⟩
  | @above links place _ _ _ ih =>
    obtain ⟨rfl, -⟩ | ⟨front, rfl, hrest⟩ := List.append_eq_cons_iff.1 hall
    · exact ⟨place, .nil links place⟩
    · obtain ⟨between, hbetween⟩ := ih hrest.symm
      exact ⟨between, .above hbetween⟩
  | @enter links place _ _ _ _ hname hdirectory _ ih =>
    obtain ⟨rfl, -⟩ | ⟨front, rfl, hrest⟩ := List.append_eq_cons_iff.1 hall
    · exact ⟨place, .nil links place⟩
    · obtain ⟨between, hbetween⟩ := ih hrest.symm
      exact ⟨between, .enter hname hdirectory hbetween⟩
  | @follow links place more _ _ target hname hlink _ ih =>
    obtain ⟨rfl, -⟩ | ⟨front, rfl, hrest⟩ := List.append_eq_cons_iff.1 hall
    · exact ⟨place, .nil _ place⟩
    · have hnames : (target.splitOn '/' ++ front) ++ rest = target.splitOn '/' ++ more := by
        rw [List.append_assoc, hrest]
      obtain ⟨between, hbetween⟩ := ih hnames
      exact ⟨between, .follow hname hlink hbetween⟩

/-- **Frame.** A file takes the place of what leads to no directory: names lead where they did. -/
theorem set_file {directory : List Text} {name : Text} (hname : IsLookedUp name)
    {es : List (Text × Node)} (hes : tree.get? directory = some (.directory es))
    (hfree : ∀ found, ¬ Leads tree links directory [name] found) (bytes : List UInt8)
    (stamp : Stamp) (h : Leads tree links place names found) :
    Leads (tree.set (.file bytes stamp) (directory ++ [name])) links place names found := by
  induction h with
  | nil links place => exact .nil links place
  | here hname _ ih => exact .here hname (ih hfree)
  | above _ ih => exact .above (ih hfree)
  | @enter links place _ _ first fs hfirst hdirectory _ ih =>
    obtain ⟨gs, hgs⟩ := Node.exists_directory_get?_set_kept hdirectory
      (fun fs hfs => hfree _ (.enter hname hfs (.nil links _))) (.file bytes stamp)
    exact .enter hfirst hgs (ih hfree)
  | @follow links place _ _ first target hfirst hlink hrest ih =>
    have hless : ∀ found, ¬ Leads tree links directory [name] found :=
      fun found hfound => hfree found (hfound.more 1)
    -- The link that is followed here leads to a directory, so it is not where the file is put.
    have hne : place ++ [first] ≠ directory ++ [name] := by
      intro heq
      obtain ⟨rfl, hlast⟩ := List.append_inj' heq rfl
      obtain rfl := List.singleton_injective hlast
      obtain ⟨between, hbetween⟩ := hrest.exists_front
      refine hfree between (.follow hname hlink ?_)
      rwa [List.append_nil]
    have hlink' := Node.get?_set_kept hes
      (fun fs hfs => hfree _ (.enter hname hfs (.nil _ _))) (.file bytes stamp) hlink rfl hne
    exact .follow hfirst hlink' (ih hless)

/-- A file may be written where no other node than a file is. -/
theorem walk_output (h : Leads tree links place names found) {last : Text}
    (hlast : IsLookedUp last)
    (hfree : ∀ n, tree.get? (found ++ [last]) = some n → n.isFile = true) :
    ∃ location, walk tree .output links place (names ++ [last]) = .ok location := by
  -- More names follow, so no name but the last is that of the file.
  have hgoes := endsInSlash_append hlast.ne_nil
  induction h with
  | nil links place =>
    rw [List.nil_append, walk, if_neg (not_or.2 ⟨hlast.ne_nil, hlast.ne_here⟩),
      if_neg hlast.ne_above, if_neg (by decide), if_neg (Nat.not_lt_of_le hlast.short)]
    cases hnode : tree.get? (place ++ [last]) with
    | none => exact ⟨_, rfl⟩
    | some n =>
      cases n with
      | file bytes stamp => exact ⟨_, rfl⟩
      | link target => cases hfree _ hnode
      | directory es => cases hfree _ hnode
  | here hname _ ih =>
    rw [List.cons_append, walk_here hname]
    exact ih hfree
  | above _ ih =>
    rw [List.cons_append, walk_above]
    exact ih hfree
  | @enter links place rest _ name es hname hdirectory _ ih =>
    rw [List.cons_append, walk, if_neg (not_or.2 ⟨hname.ne_nil, hname.ne_here⟩),
      if_neg hname.ne_above, if_neg (by simp [hgoes]), if_neg (Nat.not_lt_of_le hname.short),
      hdirectory]
    exact ih hfree
  | @follow links place rest _ name target hname hlink _ ih =>
    rw [List.cons_append, walk, if_neg (not_or.2 ⟨hname.ne_nil, hname.ne_here⟩),
      if_neg hname.ne_above, if_neg (by simp [hgoes]), if_neg (Nat.not_lt_of_le hname.short),
      hlink]
    dsimp only
    rw [if_neg (by simp), ← List.append_assoc]
    exact ih hfree

end Leads

/-- What is found is found at the same place after a file was put where nothing or a file was, or
any node where nothing was. -/
theorem walk_target_set {directory : List Text} {es : List (Text × Node)} {name : Text}
    (hes : tree.get? directory = some (.directory es))
    (hfile : ∀ n, tree.get? (directory ++ [name]) = some n → n.isFile = true) {new : Node}
    (hnew : new.isFile = true ∨ tree.get? (directory ++ [name]) = none) {n : Node}
    (h : walk tree .target links place names = .ok ⟨found, some n⟩) :
    walk (tree.set new (directory ++ [name])) .target links place names =
      .ok ⟨found, (tree.set new (directory ++ [name])).get? found⟩ := by
  have hplace : ∀ fs, tree.get? (directory ++ [name]) ≠ some (.directory fs) := by
    intro fs hfs
    cases hfile _ hfs
  fun_induction walk tree .target links place names with
  | case1 links place =>
    obtain ⟨rfl, -⟩ := Location.mk.inj (Except.ok.inj h)
    rw [walk]
  | case2 links place name rest hhere ih =>
    rw [walk_here hhere]
    exact ih h
  | case3 links place rest _ ih =>
    rw [walk_above]
    exact ih h
  | case8 links place name rest hhere habove _ hshort entries hnode ih =>
    rw [walk_isLookedUp (by decide) (.of_not hhere habove hshort)]
    obtain ⟨fs, hfs⟩ := Node.exists_directory_get?_set_kept hnode hplace new
    rw [hfs]
    exact ih h
  | case9 links place last rest hhere habove _ hshort bytes stamp hnode hlast =>
    obtain ⟨rfl, -⟩ := Location.mk.inj (Except.ok.inj h)
    -- The file that ends the walk may be the one that was there.
    obtain ⟨bytes', stamp', hthere⟩ : ∃ bytes' stamp',
        (tree.set new (directory ++ [name])).get? (place ++ [last]) =
          some (.file bytes' stamp') := by
      by_cases heq : place ++ [last] = directory ++ [name]
      · rw [heq] at hnode ⊢
        rw [Node.get?_set]
        cases new with
        | file bytes' stamp' => exact ⟨bytes', stamp', rfl⟩
        | link _ => cases hnode.symm.trans (hnew.resolve_left Bool.false_ne_true)
        | directory _ => cases hnode.symm.trans (hnew.resolve_left Bool.false_ne_true)
      · exact ⟨bytes, stamp, Node.get?_set_kept hes hplace new hnode rfl heq⟩
    rw [walk_isLookedUp (by decide) (.of_not hhere habove hshort), hthere]
    exact if_pos hlast
  | case13 place last rest hhere habove _ hshort target hnode hentry links start ih =>
    have hne : place ++ [last] ≠ directory ++ [name] := by
      intro heq
      cases hfile _ (heq ▸ hnode)
    rw [walk_isLookedUp (by decide) (.of_not hhere habove hshort),
      Node.get?_set_kept hes hplace new hnode rfl hne]
    exact (if_neg hentry).trans (ih h)
  | case6 => cases (Location.mk.inj (Except.ok.inj h)).2
  | case11 _ _ _ _ _ _ _ _ _ _ hnext => cases hnext.2
  | case4 | case5 | case7 | case10 | case12 => cases h

/-- A name is only looked up if it is not too long. -/
theorem short_of_walk_entry {last : Text} (hhere : ¬(last = [] ∨ last = ['.']))
    (habove : last ≠ ['.', '.']) {location : Location}
    (h : walk tree .entry links place (names ++ [last]) = .ok location) :
    Utf8.byteLength last ≤ maxNameBytes := by
  have hend : ∀ {names rest : List Text} {name : Text}, names ++ [last] = name :: rest →
      rest.isEmpty = true → last = name := by
    intro names rest name hall hempty
    obtain ⟨rfl, hname⟩ | ⟨names, rfl, hrest⟩ := List.append_eq_cons_iff.1 hall
    · exact (List.cons.inj hname).1
    · simp [hrest] at hempty
  generalize hall : names ++ [last] = all at h
  fun_induction walk tree .entry links place all generalizing names with
  | case1 => simp at hall
  | case2 links place name rest hname ih =>
    obtain ⟨rfl, heq⟩ | ⟨names, rfl, hrest⟩ := List.append_eq_cons_iff.1 hall
    · exact absurd ((List.cons.inj heq).1 ▸ hname) hhere
    · exact ih hrest.symm h
  | case3 links place rest _ ih =>
    obtain ⟨rfl, heq⟩ | ⟨names, rfl, hrest⟩ := List.append_eq_cons_iff.1 hall
    · exact absurd (List.cons.inj heq).1 habove
    · exact ih hrest.symm h
  | case8 links place name rest _ _ _ hshort entries _ ih =>
    obtain ⟨rfl, heq⟩ | ⟨names, rfl, hrest⟩ := List.append_eq_cons_iff.1 hall
    · exact (List.cons.inj heq).1 ▸ Nat.le_of_not_lt hshort
    · exact ih hrest.symm h
  | case13 place name rest _ _ _ hshort target _ _ links _ =>
    rename_i ih
    obtain ⟨rfl, heq⟩ | ⟨names, rfl, hrest⟩ := List.append_eq_cons_iff.1 hall
    · exact (List.cons.inj heq).1 ▸ Nat.le_of_not_lt hshort
    · have hnames : (target.splitOn '/' ++ names) ++ [last] = target.splitOn '/' ++ rest := by
        rw [hrest, List.append_assoc]
      exact ih hnames h
  | case6 links place name rest _ _ _ hshort _ hempty =>
    exact hend hall hempty ▸ Nat.le_of_not_lt hshort
  | case9 links place name rest _ _ _ hshort _ _ _ hempty =>
    exact hend hall hempty ▸ Nat.le_of_not_lt hshort
  | case11 links place name rest _ _ _ hshort _ _ hempty =>
    exact hend hall hempty.1 ▸ Nat.le_of_not_lt hshort
  | case4 | case5 | case7 | case10 | case12 => cases h

/-! ## Names out of a removed working directory -/

theorem exists_of_climb_entry {last : Text} {lost left : Nat} (hhere : ¬(last = [] ∨ last = ['.']))
    (habove : last ≠ ['.', '.']) {rest : List Text}
    (h : climb .entry lost (names ++ [last]) = .ok (left, rest)) :
    left = 0 ∧ ∃ front, rest = front ++ [last] := by
  generalize hall : names ++ [last] = all at h
  fun_induction climb .entry lost all generalizing names with
  | case1 =>
    obtain ⟨rfl, rfl⟩ := Prod.mk.inj (Except.ok.inj h)
    exact ⟨rfl, names, hall.symm⟩
  | case2 => simp at hall
  | case3 lost name more hname ih =>
    obtain ⟨rfl, heq⟩ | ⟨names, rfl, hrest⟩ := List.append_eq_cons_iff.1 hall
    · exact absurd ((List.cons.inj heq).1 ▸ hname) hhere
    · exact ih hrest.symm h
  | case4 lost more _ ih =>
    obtain ⟨rfl, heq⟩ | ⟨names, rfl, hrest⟩ := List.append_eq_cons_iff.1 hall
    · exact absurd (List.cons.inj heq).1 habove
    · exact ih hrest.symm h
  | case5 | case6 => cases h

/-- A name that comes last stands for no directory, so a file of that name is reached as any node
is. -/
theorem climb_output_append {last : Text} (hlast : IsLookedUp last) (lost : Nat)
    (names : List Text) :
    climb .output lost (names ++ [last]) = climb .target lost (names ++ [last]) := by
  fun_induction climb .target lost names with
  | case1 names => rw [climb, climb]
  | case2 lost =>
    have hhere := not_or.2 ⟨hlast.ne_nil, hlast.ne_here⟩
    rw [List.nil_append, climb, if_neg hhere, if_neg hlast.ne_above, if_neg (by decide), climb,
      if_neg hhere, if_neg hlast.ne_above, if_neg (by decide)]
  | case3 lost name rest hhere ih =>
    rw [List.cons_append, climb, climb, if_pos hhere, if_pos hhere, ih]
  | case4 lost rest hhere ih =>
    rw [List.cons_append, climb, climb, if_neg hhere, if_neg hhere, if_pos rfl, if_pos rfl, ih]
  | case5 lost name rest hhere habove hout => cases hout.1
  | case6 lost name rest hhere habove hout =>
    have hgoes := endsInSlash_append hlast.ne_nil rest
    rw [List.cons_append, climb, if_neg hhere, if_neg habove, if_neg (by simp [hgoes]), climb,
      if_neg hhere, if_neg habove, if_neg fun hout => absurd hout.1 (by decide)]

/-! ## Paths -/

variable {h : Host} {p q : Parsed} {name : Text} {bytes : List UInt8}

/-- The path of a directory is shorter than that of a name in it. -/
theorem Fits.of_child (hchild : Fits (p.child name)) : Fits p := by
  have htext : ∀ p : Parsed, p.root ++ List.intercalate ['/'] p.names ≠ [] →
      p.toText = p.root ++ List.intercalate ['/'] p.names := by
    intro p hne
    rw [Parsed.toText]
    split
    · next heq => exact absurd heq hne
    · rfl
  by_cases hempty : p.root ++ List.intercalate ['/'] p.names = []
  · have hhere : p.toText = ['.'] := by
      rw [Parsed.toText, hempty]
    exact ⟨by rw [hhere]; decide, by rw [hhere]; decide⟩
  · have hsub : (p.root ++ List.intercalate ['/'] p.names).Sublist
        (p.root ++ List.intercalate ['/'] (p.names ++ [name])) :=
      (List.Sublist.refl p.root).append
        (Text.intercalate_sublist '/' (List.sublist_append_left p.names [name]))
    have hne : (p.child name).root ++ List.intercalate ['/'] (p.child name).names ≠ [] := by
      intro heq
      rw [Parsed.child] at heq
      rw [heq] at hsub
      exact hempty (List.sublist_nil.1 hsub)
    have htexts : p.toText.Sublist (p.child name).toText := by
      rw [htext p hempty, htext _ hne]
      exact hsub
    exact ⟨fun hnull => hchild.no_null (htexts.subset hnull),
      Nat.lt_of_le_of_lt (Utf8.byteLength_le_of_sublist htexts) hchild.short⟩

/-- A name that is looked up in the directory at a path is not too long. -/
theorem short_of_locate_entry (hp : (p.child name).IsProper)
    (hhere : ¬(name = [] ∨ name = ['.'])) (habove : name ≠ ['.', '.']) {location : Location}
    (hlocate : h.locate .entry (p.child name).toText = .ok location) :
    Utf8.byteLength name ≤ maxNameBytes := by
  obtain ⟨-, hfollow⟩ := (locate_eq_ok_iff hp).1 hlocate
  rw [follow, Parsed.isAbsolute_child, Parsed.child] at hfollow
  split at hfollow
  · exact short_of_walk_entry hhere habove hfollow
  · rw [walkHere] at hfollow
    split at hfollow
    · cases hfollow
    · next hclimb =>
      obtain ⟨-, front, rfl⟩ := exists_of_climb_entry hhere habove hclimb
      exact short_of_walk_entry hhere habove hfollow
    · next hclimb => cases (exists_of_climb_entry hhere habove hclimb).1

theorem short_of_node (hp : (p.child name).IsProper) (hhere : ¬(name = [] ∨ name = ['.']))
    (habove : name ≠ ['.', '.']) {n : Node} (hnode : h.node (p.child name).toText = .ok n) :
    Utf8.byteLength name ≤ maxNameBytes := by
  obtain ⟨hfits, found, hfollow⟩ := (nodeAt_eq_ok_iff_follow hp).1 hnode
  obtain ⟨entry, hentry, -⟩ := exists_follow_entry_of_follow_target hfollow rfl
  exact short_of_locate_entry hp hhere habove ((locate_eq_ok_iff hp).2 ⟨hfits, hentry⟩)

namespace LeadsTo

/-- **Frame.** A path leads where it did after a file was put in the place of what leads to no
directory. -/
theorem put {directory : List Text} (hp : h.LeadsTo p place) (hname : IsLookedUp name)
    {es : List (Text × Node)} (hes : h.tree.get? directory = some (.directory es))
    (hfree : ∀ found, ¬ Leads h.tree maxLinks directory [name] found) (bytes : List UInt8) :
    (h.put (directory ++ [name]) bytes).LeadsTo p place := by
  obtain ⟨start, hstart, hleads⟩ := hp
  exact ⟨start, hstart, hleads.set_file hname hes hfree bytes _⟩

/-- A path that leads to the place of a directory is its path. -/
theorem isDirectory (hp : h.LeadsTo p place) (hproper : p.IsProper) (hfits : Fits p)
    {es : List (Text × Node)} (hes : h.tree.get? place = some (.directory es)) :
    h.isDirectory p.toText = true := by
  obtain ⟨start, hstart, hleads⟩ := hp
  have hnode : h.node p.toText = .ok (.directory es) :=
    (nodeAt_eq_ok_iff_follow hproper).2
      ⟨hfits, place, by rw [follow_of_start? (by decide) hstart, hleads.walk_target, hes]⟩
  rw [Host.isDirectory, hnode]
  rfl

/-- A file may be written where no other node than a file is. -/
theorem locate_output (hp : h.LeadsTo p place) (hproper : (p.child name).IsProper)
    (hname : IsLookedUp name) (hfits : Fits (p.child name))
    (hfree : ∀ n, h.tree.get? (place ++ [name]) = some n → n.isFile = true) :
    ∃ location, h.locate .output (p.child name).toText = .ok location := by
  obtain ⟨start, hstart, hleads⟩ := hp
  obtain ⟨location, hwalk⟩ := hleads.walk_output hname hfree
  refine ⟨location, (locate_eq_ok_iff hproper).2 ⟨hfits, ?_⟩⟩
  have hchild := start?_child (h := h) (p := p) hname
  rw [hstart, start?] at hchild
  rw [follow]
  split at hchild
  · next habs =>
    rw [if_pos habs]
    obtain ⟨hplace, hnames⟩ := Prod.mk.inj (Option.some.inj hchild)
    rw [hplace, hnames]
    exact hwalk
  · next habs =>
    rw [if_neg habs, walkHere, Parsed.child, climb_output_append hname]
    rw [Parsed.child] at hchild
    split at hchild
    · next hclimb =>
      obtain ⟨hplace, hnames⟩ := Prod.mk.inj (Option.some.inj hchild)
      rw [hclimb, hplace, hnames]
      exact hwalk
    · cases hchild

end LeadsTo

/-- A file that takes the place of no directory is put where its path leads. -/
theorem replaceFile_of_leadsTo (hplace : h.LeadsTo p place)
    (hproper : (p.child name).IsProper) (hname : IsLookedUp name) (hfits : Fits (p.child name))
    (hdirectory : ∀ es, h.tree.get? (place ++ [name]) ≠ some (.directory es))
    (hdraft : ∃ location, h.locate .output (draftPath (p.child name)).toText = .ok location) :
    h.replaceFile (p.child name) bytes = .ok (h.put (place ++ [name]) bytes) := by
  obtain ⟨location, hdraft⟩ := hdraft
  have hentry : h.locate .entry (p.child name).toText =
      .ok ⟨place ++ [name], h.tree.get? (place ++ [name])⟩ :=
    (locate_eq_ok_iff hproper).2 ⟨hfits, (follow_child_iff hname).2 ⟨place, hplace, rfl⟩⟩
  have hlast : (p.child name).name = name := List.getLastD_concat ..
  have hbusy : ¬((name.isEmpty || name == ['.', '.']) = true) := by
    simp [hname.ne_nil, hname.ne_above]
  have hfree : ¬((h.tree.get? (place ++ [name])).any Node.isDirectory = true) := by
    intro hany
    obtain ⟨n, hn, hn'⟩ := (Option.any_eq_true _ _).1 hany
    cases n with
    | directory es => exact hdirectory es hn
    | file _ _ => cases hn'
    | link _ => cases hn'
  rw [replaceFile, hdraft, hentry]
  dsimp only
  rw [hlast, if_neg hbusy, if_neg hfree]
  rfl

/-- What has a path in a directory is in the directory that the path of that leads to. -/
theorem exists_leadsTo_of_node_child (hproper : (p.child name).IsProper) (hname : IsLookedUp name)
    {n : Node} (hnode : h.node (p.child name).toText = .ok n) :
    Fits (p.child name) ∧ ∃ place es, h.LeadsTo p place ∧
      h.tree.get? place = some (.directory es) := by
  obtain ⟨hfits, found, hfollow⟩ := (nodeAt_eq_ok_iff_follow hproper).1 hnode
  obtain ⟨entry, hentry, hsome⟩ := exists_follow_entry_of_follow_target hfollow rfl
  obtain ⟨place, hplace, rfl⟩ := (follow_child_iff hname).1 hentry
  obtain ⟨m, hm⟩ := Option.isSome_iff_exists.1 hsome
  obtain ⟨es, hes⟩ := Node.exists_directory_of_get?_append (List.cons_ne_nil name []) hm
  exact ⟨hfits, place, es, hplace, hes⟩

end Bindery.Host

import Bindery.Proofs.Files.Steady
import Bindery.Proofs.Outcome

/-!
# What was written is read

Where a file may be written is a name in a directory that no directory and no link has.  After a file
was put there, the same names lead to it: what was looked up on the way to that place is neither the
place nor below it.

* `isFree_of_walk`: where a walk may end that follows all links or finds nothing.
* `walk_set_file`: the same walk after a file was put where it ended.
* `readBytes_of_writeFile`: a file that was written is read with the bytes it was written with.
-/

namespace Bindery.Host

variable {tree : Node} {links : Nat} {place names : List Text} {purpose : Purpose}
  {location : Location}

theorem get?_of_walk (h : walk tree purpose links place names = .ok location) :
    tree.get? location.place = location.node := by
  fun_induction walk tree purpose links place names with
  | case1 => rw [← Except.ok.inj h]
  | case2 _ _ _ _ _ ih | case3 _ _ _ _ ih => exact ih h
  | case8 => next ih => exact ih h
  | case13 => next ih => exact ih h
  | case6 _ _ _ _ _ _ _ _ hnode | case9 _ _ _ _ _ _ _ _ _ _ hnode
  | case11 _ _ _ _ _ _ _ _ _ hnode => rw [← Except.ok.inj h, hnode]
  | case4 | case5 | case7 | case10 | case12 => cases h

/-- A link leads on from its directory or from the root. -/
theorem start_isPrefix (target : Text) (place : List Text) :
    (if Path.isAbsolute target then [] else place) <+: place := by
  split
  · exact List.nil_prefix
  · exact List.prefix_refl place

/-- A name in a directory that no directory and no link has. -/
def IsFree (tree : Node) (place : List Text) : Prop :=
  ∃ directory name es, place = directory ++ [name] ∧
    tree.get? directory = some (.directory es) ∧
    ∀ n, tree.get? place = some n → n.isFile = true

/-- A walk from a directory that follows all links, or finds nothing, ends at a directory or at a
free place. -/
theorem isFree_of_walk (hpurpose : purpose = .entry → location.node = none)
    (h : walk tree purpose links place names = .ok location)
    (hplace : ∃ es, tree.get? place = some (.directory es))
    (hnode : ∀ es, location.node ≠ some (.directory es)) : IsFree tree location.place := by
  fun_induction walk tree purpose links place names with
  | case1 =>
    obtain ⟨es, hes⟩ := hplace
    rw [← Except.ok.inj h] at hnode
    exact absurd hes (hnode es)
  | case2 _ _ _ _ _ ih => exact ih h hplace
  | case3 _ place _ _ ih =>
    obtain ⟨es, hes⟩ := hplace
    exact ih h (Node.exists_directory_of_isPrefix (List.dropLast_prefix place) hes)
  | case8 _ _ _ _ _ _ _ _ entries hentry ih => exact ih h ⟨entries, hentry⟩
  | case13 place _ _ _ _ _ _ target _ _ _ start ih =>
    obtain ⟨es, hes⟩ := hplace
    exact ih h (Node.exists_directory_of_isPrefix (start_isPrefix target place) hes)
  | case6 _ place name _ _ _ _ _ hnone =>
    obtain ⟨es, hes⟩ := hplace
    rw [← Except.ok.inj h]
    exact ⟨place, name, es, rfl, hes, fun n hn =>
      absurd (hn.symm.trans hnone) (Option.some_ne_none n)⟩
  | case9 _ place name _ _ _ _ _ bytes stamp hfile =>
    obtain ⟨es, hes⟩ := hplace
    rw [← Except.ok.inj h]
    refine ⟨place, name, es, rfl, hes, fun n hn => ?_⟩
    obtain rfl := Option.some.inj (hn.symm.trans hfile)
    rfl
  | case11 _ _ _ _ _ _ _ _ _ _ hlast =>
    have hnone := hpurpose hlast.2
    rw [← Except.ok.inj h] at hnone
    cases hnone
  | case4 | case5 | case7 | case10 | case12 => cases h

/-- A link stays what it is after a file was put at a free place. -/
theorem IsFree.get?_set_of_link (hfree : IsFree tree place) (new : Node) {target : Text}
    {other : List Text} (hother : tree.get? other = some (.link target)) :
    (tree.set new place).get? other = some (.link target) := by
  obtain ⟨directory, name, es, rfl, hes, hfile⟩ := hfree
  refine Node.get?_set_kept hes (fun fs hfs => ?_) new hother rfl ?_
  · cases hfile _ hfs
  · rintro rfl
    cases hfile _ hother

/-- The names by which a place was found to write a file lead to that file. -/
theorem walk_set_file (h : walk tree .output links place names = .ok location)
    (hnode : ∀ es, location.node ≠ some (.directory es)) (bytes : List UInt8) (stamp : Stamp) :
    walk (tree.set (.file bytes stamp) location.place) .target links place names =
      .ok ⟨location.place, some (.file bytes stamp)⟩ := by
  have hend : ∀ es, tree.get? location.place ≠ some (.directory es) := by
    rwa [get?_of_walk h]
  have hfile := Node.get?_set tree (.file bytes stamp) location.place
  fun_induction walk tree .output links place names with
  | case1 links place =>
    obtain rfl := Except.ok.inj h
    rw [walk, hfile]
  | case2 links place name rest hhere ih =>
    rw [walk_here hhere]
    exact ih h
  | case3 links place rest _ ih =>
    rw [walk_above]
    exact ih h
  | case8 links place name rest hhere habove _ hshort entries hentry ih =>
    obtain ⟨fs, hfs⟩ := Node.exists_directory_get?_set_kept hentry hend (.file bytes stamp)
    rw [walk_isLookedUp (by decide) (.of_not hhere habove hshort), hfs]
    exact ih h
  | case13 place name rest hhere habove _ hshort target hlink _ links start ih =>
    obtain ⟨es, hes⟩ := Node.exists_directory_of_get?_append (List.cons_ne_nil name []) hlink
    have hout : Purpose.output = .entry → location.node = none := by rintro ⟨⟩
    have hfree := isFree_of_walk hout h
      (Node.exists_directory_of_isPrefix (start_isPrefix target place) hes) hnode
    rw [walk_isLookedUp (by decide) (.of_not hhere habove hshort),
      hfree.get?_set_of_link _ hlink]
    exact (if_neg (by simp)).trans (ih h)
  | case6 links place name rest hhere habove _ hshort _ hlast
  | case9 links place name rest hhere habove _ hshort _ _ _ hlast =>
    obtain rfl := Except.ok.inj h
    rw [walk_isLookedUp (by decide) (.of_not hhere habove hshort), hfile]
    exact if_pos hlast
  | case11 _ _ _ _ _ _ _ _ _ _ hnext => cases hnext.2
  | case4 | case5 | case7 | case10 | case12 => cases h

theorem climb_target_of_output {lost : Nat} {result : Nat × List Text}
    (h : climb .output lost names = .ok result) : climb .target lost names = .ok result := by
  fun_induction climb .output lost names with
  | case1 => rwa [climb]
  | case2 => rwa [climb]
  | case3 _ _ _ hhere ih =>
    rw [climb, if_pos hhere]
    exact ih h
  | case4 _ _ hhere ih =>
    rw [climb, if_neg hhere, if_pos rfl]
    exact ih h
  | case5 | case6 => cases h

variable {h next : Host} {path : Text} {bytes : List UInt8} {n : Option Node}

theorem walkHere_put (hwalk : h.walkHere .output names = .ok ⟨place, n⟩)
    (hn : ∀ es, n ≠ some (.directory es)) (bytes : List UInt8) :
    (h.put place bytes).walkHere .target names =
      .ok ⟨place, some (.file bytes (.fresh h.clock))⟩ := by
  rw [walkHere] at hwalk ⊢
  split at hwalk
  · cases hwalk
  · next names hclimb =>
    rw [show climb .target (h.put place bytes).lost _ = _ from climb_target_of_output hclimb]
    exact walk_set_file hwalk hn bytes _
  · obtain ⟨-, rfl⟩ := Location.mk.inj (Except.ok.inj hwalk)
    exact absurd rfl (hn [])

/-- The path by which a place was found to write a file leads to that file. -/
theorem locate_put (hlocate : h.locate .output path = .ok ⟨place, n⟩)
    (hn : ∀ es, n ≠ some (.directory es)) (bytes : List UInt8) :
    (h.put place bytes).locate .target path =
      .ok ⟨place, some (.file bytes (.fresh h.clock))⟩ := by
  rw [locate] at hlocate ⊢
  split at hlocate
  · cases hlocate
  next hnull =>
  split at hlocate
  · cases hlocate
  next hempty =>
  split at hlocate
  · cases hlocate
  next hshort =>
  rw [if_neg hnull, if_neg hempty, if_neg hshort]
  have hfound := eq_ok_of_mapError hlocate
  dsimp only
  split at hfound
  · next habs =>
    have hput : walk (h.put place bytes).tree .target maxLinks [] (path.splitOn '/') = _ :=
      walk_set_file hfound hn bytes (.fresh h.clock)
    rw [if_pos habs, hput]
    rfl
  · next habs =>
    rw [if_neg habs, walkHere_put hfound hn]
    rfl

/-- **What was written is read.** -/
theorem readBytes_of_writeFile (hwrite : h.writeFile path bytes = .ok next) :
    next.readBytes path = .ok bytes := by
  rw [writeFile, writeStamped] at hwrite
  split at hwrite
  · cases hwrite
  next place n hlocate =>
  split at hwrite
  · cases hwrite
  next hnode =>
  have hput : h.put place bytes = next := Except.ok.inj hwrite
  have hdirectory : ∀ es, n ≠ some (.directory es) := by
    rintro es rfl
    exact hnode rfl
  rw [← hput, readBytes, node, nodeAt, locate_put hlocate hdirectory]

end Bindery.Host

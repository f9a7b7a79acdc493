import Bindery.Entries
import Mathlib.Data.List.Nodup

/-!
# Look-ups in named entries

An entry that is found is one of the entries, and where no name comes twice the entries are
exactly what is found.  Putting a second collection into a first changes what is found to what the
second has, where it has something, and lists the names of both, each where it comes first.
-/

namespace Bindery.Entries

variable {α : Type}

/-- A value that is found stands among the entries. -/
theorem mem_of_get?_eq_some {es : Entries α} {n : Text} {v : α} (h : es.get? n = some v) :
    (n, v) ∈ es := by
  induction es with
  | nil => exact absurd h nofun
  | cons e r ih =>
    obtain ⟨m, w⟩ := e
    rw [get?] at h
    split at h
    · next hm =>
      rw [hm, Option.some.inj h]
      exact List.mem_cons_self
    · exact List.mem_cons_of_mem _ (ih h)

/-- Without repeated names every entry is found. -/
theorem get?_eq_some_of_mem {es : Entries α} (hes : es.names.Nodup) {n : Text} {v : α}
    (h : (n, v) ∈ es) : es.get? n = some v := by
  induction es with
  | nil => exact absurd h List.not_mem_nil
  | cons e r ih =>
    obtain ⟨m, w⟩ := e
    rw [names, List.map_cons, List.nodup_cons] at hes
    rw [get?]
    rcases List.mem_cons.1 h with heq | h
    · obtain ⟨rfl, rfl⟩ := Prod.mk.inj heq
      rw [if_pos rfl]
    · have hn : n ∈ r.map Prod.fst := List.mem_map_of_mem h
      have hne : m ≠ n := fun hm => hes.1 (hm ▸ hn)
      rw [if_neg hne]
      exact ih hes.2 h

/-- A name is found where it is one of the names. -/
theorem get?_eq_none_iff {es : Entries α} {n : Text} : es.get? n = none ↔ n ∉ es.names := by
  induction es with
  | nil => simp [get?, names]
  | cons e r ih =>
    obtain ⟨m, w⟩ := e
    rw [get?, names, List.map_cons, List.mem_cons, not_or]
    by_cases hm : m = n
    · simp [hm]
    · rw [if_neg hm, ih]
      exact ⟨fun h => ⟨fun hn => hm hn.symm, h⟩, fun h => h.2⟩

/-- What `remove` leaves of the names. -/
theorem mem_names_remove_iff {es : Entries α} {name n : Text} :
    n ∈ (es.remove name).names ↔ n ≠ name ∧ n ∈ es.names := by
  simp [remove, names, and_comm]

theorem nodup_names_remove {es : Entries α} (hes : es.names.Nodup) (name : Text) :
    (es.remove name).names.Nodup :=
  hes.sublist (List.filter_sublist.map Prod.fst)

/-- Entries one after the other: the first ones are looked through first. -/
theorem get?_append (es fs : Entries α) (n : Text) :
    (es ++ fs).get? n = (es.get? n).or (fs.get? n) := by
  induction es with
  | nil => rfl
  | cons e r ih =>
    obtain ⟨m, v⟩ := e
    rw [List.cons_append, get?, get?, ih]
    split <;> rfl

theorem names_cons (m : Text) (v : α) (r : Entries α) : names ((m, v) :: r) = m :: names r := rfl

/-- A new name goes to the end. -/
theorem put_of_notMem {es : Entries α} {name : Text} (hname : name ∉ es.names) (value : α) :
    es.put name value = es ++ [(name, value)] := by
  induction es with
  | nil => rfl
  | cons e r ih =>
    obtain ⟨m, w⟩ := e
    rw [names_cons, List.mem_cons, not_or] at hname
    rw [put, if_neg (Ne.symm hname.1), ih hname.2]
    rfl

/-- Putting the value that is there already changes nothing. -/
theorem put_of_get?_eq_some {es : Entries α} {name : Text} {value : α}
    (h : es.get? name = some value) : es.put name value = es := by
  induction es with
  | nil => exact absurd h nofun
  | cons e r ih =>
    obtain ⟨n, v⟩ := e
    rw [get?] at h
    rw [put]
    split at h
    · next hn => rw [if_pos hn, Option.some.inj h]
    · next hn => rw [if_neg hn, ih h]

/-- What `put` leaves of the names. -/
theorem names_put (es : Entries α) (name : Text) (value : α) :
    (es.put name value).names = if name ∈ es.names then es.names else es.names ++ [name] := by
  induction es with
  | nil => rfl
  | cons e r ih =>
    obtain ⟨m, v⟩ := e
    rw [put, names_cons]
    by_cases hm : m = name
    · rw [if_pos hm, if_pos (hm ▸ List.mem_cons_self), names_cons]
    · rw [if_neg hm, names_cons, ih]
      by_cases hn : name ∈ names r
      · rw [if_pos hn, if_pos (List.mem_cons_of_mem m hn)]
      · have hcons : name ∉ m :: names r := by
          rw [List.mem_cons, not_or]
          exact ⟨Ne.symm hm, hn⟩
        rw [if_neg hn, if_neg hcons, List.cons_append]

/-- Putting a value under a name makes no name come twice. -/
theorem nodup_names_put {es : Entries α} (hes : es.names.Nodup) (name : Text) (value : α) :
    (es.put name value).names.Nodup := by
  rw [names_put]
  split
  · exact hes
  · next hn => exact List.Nodup.append hes (List.nodup_singleton name) (by simpa using hn)

/-- Of entries put into others, those with a name of their own are found as they are. -/
theorem get?_merge (es new : Entries α) (hnew : new.names.Nodup) (n : Text) :
    (es.merge new).get? n = (new.get? n).or (es.get? n) := by
  induction new generalizing es with
  | nil => rfl
  | cons e r ih =>
    obtain ⟨m, v⟩ := e
    rw [names_cons, List.nodup_cons] at hnew
    have hrest : (es.merge ((m, v) :: r)).get? n = (get? r n).or ((es.put m v).get? n) :=
      ih (es.put m v) hnew.2
    rw [hrest, get?_put, get?]
    by_cases hm : m = n
    · -- The name does not come again, so what was put first stays.
      have hnone : get? r n = none := get?_eq_none_iff.2 (hm ▸ hnew.1)
      rw [if_pos hm, if_pos hm, hnone]
      rfl
    · rw [if_neg hm, if_neg hm]

/-- What `put` leaves among the entries. -/
theorem mem_of_mem_put {es : Entries α} {name : Text} {value : α} {e : Text × α}
    (h : e ∈ es.put name value) : e = (name, value) ∨ e ∈ es := by
  induction es with
  | nil => exact Or.inl (List.mem_singleton.1 h)
  | cons d r ih =>
    obtain ⟨m, w⟩ := d
    rw [put] at h
    split at h
    · next hm =>
      rcases List.mem_cons.1 h with rfl | h
      · exact Or.inl (by rw [hm])
      · exact Or.inr (List.mem_cons_of_mem _ h)
    · rcases List.mem_cons.1 h with rfl | h
      · exact Or.inr List.mem_cons_self
      · exact (ih h).imp_right (List.mem_cons_of_mem _)

/-- Putting entries together makes no new ones. -/
theorem mem_of_mem_merge {es new : Entries α} {e : Text × α} (h : e ∈ es.merge new) :
    e ∈ es ∨ e ∈ new := by
  induction new generalizing es with
  | nil => exact Or.inl h
  | cons d r ih =>
    rcases ih h with h | h
    · rcases mem_of_mem_put h with rfl | h
      · exact Or.inr List.mem_cons_self
      · exact Or.inl h
    · exact Or.inr (List.mem_cons_of_mem _ h)

/-- Where no name comes twice there is nothing to erase. -/
theorem eraseDups_of_nodup {names : List Text} (h : names.Nodup) : names.eraseDups = names := by
  induction names with
  | nil => rw [List.eraseDups_nil]
  | cons n names ih =>
    obtain ⟨hn, hnames⟩ := List.nodup_cons.1 h
    have hkeep : names.filter (fun m => !m == n) = names := by
      rw [List.filter_eq_self]
      intro m hm
      have hne : m ≠ n := fun heq => hn (heq ▸ hm)
      simpa using hne
    rw [List.eraseDups_cons, hkeep, ih hnames]

/-- Whatever repeats is erased. -/
theorem nodup_eraseDups : (names : List Text) → names.eraseDups.Nodup
  | [] => List.nodup_nil
  | n :: names => by
    rw [List.eraseDups_cons, List.nodup_cons, List.mem_eraseDups]
    exact ⟨fun hn => by simpa using (List.mem_filter.1 hn).2, nodup_eraseDups _⟩
termination_by names => names.length
decreasing_by exact Nat.lt_succ_of_le (List.length_filter_le _ names)

/-- Putting entries into others makes no name come twice. -/
theorem nodup_names_merge {es : Entries α} (hes : es.names.Nodup) (new : Entries α) :
    (es.merge new).names.Nodup := by
  induction new generalizing es with
  | nil => exact hes
  | cons e r ih => exact ih (nodup_names_put hes e.1 e.2)

/-- The names of entries put into others come after the names that are there, each once. -/
theorem eraseDups_names_merge (es new : Entries α) :
    (es.merge new).names.eraseDups = (es.names ++ new.names).eraseDups := by
  induction new generalizing es with
  | nil =>
    have hnil : names ([] : Entries α) = [] := rfl
    rw [hnil, List.append_nil]
    rfl
  | cons e r ih =>
    obtain ⟨m, v⟩ := e
    have hrest : (es.merge ((m, v) :: r)).names.eraseDups =
        ((es.put m v).names ++ names r).eraseDups := ih (es.put m v)
    rw [hrest, names_put, names_cons]
    by_cases hm : m ∈ es.names
    · rw [if_pos hm, List.eraseDups_append, List.eraseDups_append,
        List.cons_removeAll, if_neg (by simpa using hm)]
    · rw [if_neg hm, List.append_assoc, List.singleton_append]

/-- Putting one collection without repeated names into another: the names of the first keep their
places, the new ones of the second follow in their order. -/
theorem names_merge {es new : Entries α} (hes : es.names.Nodup) (hnew : new.names.Nodup) :
    (es.merge new).names = es.names ++ new.names.filter (· ∉ es.names) := by
  have hremove : new.names.removeAll es.names = new.names.filter (· ∉ es.names) := by
    simp [List.removeAll]
  have hdups := eraseDups_names_merge es new
  rwa [eraseDups_of_nodup (nodup_names_merge hes new), List.eraseDups_append,
    eraseDups_of_nodup hes, hremove, eraseDups_of_nodup (hnew.filter _)] at hdups

/-- Without repeated names the entries are their names, each with what is found under it. -/
theorem eq_filterMap {es : Entries α} (hes : es.names.Nodup) :
    es = es.names.filterMap fun n => (es.get? n).map (Prod.mk n) := by
  have hfound : ∀ e ∈ es, (es.get? e.1).map (Prod.mk e.1) = some e := fun e he => by
    rw [get?_eq_some_of_mem hes he]
    rfl
  rw [names, List.filterMap_map]
  exact ((List.filterMap_congr hfound).trans List.filterMap_some).symm

/-- Without repeated names, the names in their order and what is found under them tell all. -/
theorem ext {es fs : Entries α} (hes : es.names.Nodup) (hnames : es.names = fs.names)
    (hget : ∀ n, es.get? n = fs.get? n) : es = fs := by
  have hsame : (fun n => (es.get? n).map (Prod.mk n)) = fun n => (fs.get? n).map (Prod.mk n) :=
    funext fun n => by rw [hget]
  calc es = es.names.filterMap fun n => (es.get? n).map (Prod.mk n) := eq_filterMap hes
    _ = fs.names.filterMap fun n => (fs.get? n).map (Prod.mk n) := by rw [hnames, hsame]
    _ = fs := (eq_filterMap (hnames ▸ hes)).symm

/-- Whether a value is put among new entries before or after these are put into others is the
same. -/
theorem put_merge {es new : Entries α} (hes : es.names.Nodup) (hnew : new.names.Nodup) (name : Text)
    (value : α) : (es.merge new).put name value = es.merge (new.put name value) := by
  have hput := nodup_names_put hnew name value
  -- The names are compared by whether the name is old, new to the first, or new to both.
  refine ext (nodup_names_put (nodup_names_merge hes new) name value) ?_ fun n => ?_
  · rw [names_put, names_merge hes hnew, names_merge hes hput, names_put]
    by_cases hname : name ∈ new.names
    · have hmem : name ∈ es.names ++ new.names.filter (· ∉ es.names) := by
        by_cases hold : name ∈ es.names <;> simp [hname, hold]
      rw [if_pos hmem, if_pos hname]
    · by_cases hold : name ∈ es.names
      · simp [hname, hold]
      · simp [hname, hold]
  · rw [get?_put, get?_merge es new hnew, get?_merge es _ hput, get?_put]
    split <;> rfl

/-- Without repeated names the values are what is found under the names. -/
theorem values_eq_filterMap {es : Entries α} (hes : es.names.Nodup) :
    es.values = es.names.filterMap es.get? := by
  have hfound : ∀ e ∈ es, es.get? e.1 = some e.2 := fun e he => get?_eq_some_of_mem hes he
  rw [names, List.filterMap_map, values, ← List.filterMap_eq_map]
  exact (List.filterMap_congr hfound).symm

end Bindery.Entries

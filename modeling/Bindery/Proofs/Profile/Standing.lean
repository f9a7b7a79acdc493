import Bindery.Profile.LiveRegistry
import Bindery.Proofs.Profile.Keyed
import Mathlib.Data.List.Induction

/-!
# What the history of a registry says

After any operations a registry answers as their history alone says.  A replacement of the profiles
of a root stands until a later operation replaces or drops the profiles of the same root.  By name a
profile is found in the replacement that was made last of those that stand and declare the name, and
the names are listed as they first appear in the replacements that stand.

* `History.standing` are the replacements that stand, `History.answer` is what a history says.
* `LiveRegistry.Follows` is what every operation keeps: the roots are those that stand, and a
  remembered view is the view of them.
* `LiveRegistry.answers_eq_history`: every answer of a sequence of operations.
-/

namespace Bindery

namespace Registry

/-- Names after others are listed each once where they are not among those before them. -/
theorem eraseDups_append_congr {as as' : List Text} (h : as.eraseDups = as'.eraseDups)
    (bs : List Text) : (as ++ bs).eraseDups = (as' ++ bs).eraseDups := by
  have hmem : ∀ b, b ∈ as ↔ b ∈ as' := fun b => by
    rw [← List.mem_eraseDups, h, List.mem_eraseDups]
  have hremove : bs.removeAll as = bs.removeAll as' := by
    refine List.filter_congr fun b _ => ?_
    simp [hmem b]
  rw [List.eraseDups_append, List.eraseDups_append, h, hremove]

theorem nodup_names_live (r : Registry) : r.live.names.Nodup := by
  suffices ∀ (ess : List (Entries Profile)) (acc : Entries Profile), acc.names.Nodup →
      (ess.foldl Entries.merge acc).names.Nodup from this r.byRoot.values [] List.nodup_nil
  intro ess
  induction ess with
  | nil => exact fun acc hacc => hacc
  | cons es ess ih => exact fun acc hacc => ih _ (Entries.nodup_names_merge hacc es)

/-- The view lists every name where it first appears. -/
theorem names_live (r : Registry) :
    r.live.names = (r.byRoot.flatMap fun e => e.2.names).eraseDups := by
  suffices ∀ (roots : Entries (Entries Profile)) (acc : Entries Profile),
      (roots.values.foldl Entries.merge acc).names.eraseDups =
        (acc.names ++ roots.flatMap fun e => e.2.names).eraseDups by
    rw [← Entries.eraseDups_of_nodup (nodup_names_live r)]
    exact this r.byRoot []
  intro roots
  induction roots with
  | nil =>
    intro acc
    rw [List.flatMap_nil, List.append_nil]
    rfl
  | cons d roots ih =>
    intro acc
    rw [List.flatMap_cons, ← List.append_assoc]
    exact (ih (acc.merge d.2)).trans
      (eraseDups_append_congr (Entries.eraseDups_names_merge acc d.2) _)

end Registry

namespace LiveRegistry

/-! ## Operations -/

/-- What can be done with a registry.  The profiles of a root have different names. -/
inductive Operation
  | replaceRoot (root : Text) (profiles : Entries Profile) (distinct : profiles.names.Nodup)
  | dropRoot (root : Text)
  | get (name : Text)
  | getIn (root name : Text)
  | lookup (name : Text) (prefer : Option Text)
  | names
  | profiles
  | has (name : Text)

/-- What an operation answers. -/
inductive Answer
  | done
  | profile (p : Option Profile)
  | names (ns : List Text)
  | profiles (ps : List Profile)
  | truth (b : Bool)
  deriving DecidableEq, Repr

/-- Does an operation. -/
def perform (r : LiveRegistry) : Operation → Answer × LiveRegistry
  | .replaceRoot root profiles _ => (.done, r.replaceRoot root profiles)
  | .dropRoot root => (r.dropRoot root).map .names id
  | .get name => (r.get? name).map .profile id
  | .getIn root name => (.profile (r.scoped? root name), r)
  | .lookup name prefer => (r.lookup name prefer).map .profile id
  | .names => r.names.map .names id
  | .profiles => r.profiles.map .profiles id
  | .has name => (r.has name).map .truth id

/-- The registry after operations. -/
def after (r : LiveRegistry) (ops : List Operation) : LiveRegistry :=
  ops.foldl (fun r op => (r.perform op).2) r

/-- The answers of operations that are done one after the other. -/
def answers (r : LiveRegistry) : List Operation → List Answer
  | [] => []
  | op :: ops => (r.perform op).1 :: answers (r.perform op).2 ops

/-- The root whose profiles an operation replaces or drops. -/
def Operation.changed? : Operation → Option Text
  | replaceRoot root _ _ => some root
  | dropRoot root => some root
  | _ => none

/-! ## Histories -/

/-- The operations so far, in the order in which they were done. -/
abbrev History := List Operation

namespace History

/-- The replacements that stand, in the order in which they were made: no later operation replaces
or drops the profiles of their root. -/
def standing : History → Entries (Entries Profile)
  | [] => []
  | .replaceRoot root profiles _ :: later =>
    if later.any fun op => op.changed? == some root then standing later
    else (root, profiles) :: standing later
  | _ :: later => standing later

/-- The profiles that a root holds. -/
def held (hist : History) (root : Text) : Entries Profile :=
  ((standing hist).get? root).getD []

/-- The profile of a name in the replacement made last of those that stand and declare it. -/
def get? (hist : History) (name : Text) : Option Profile :=
  (standing hist).reverse.findSome? fun e => e.2.get? name

/-- The names that are declared, each once, as they first appear in the replacements that stand. -/
def names (hist : History) : List Text :=
  ((standing hist).flatMap fun e => e.2.names).eraseDups

/-- What a history says of an operation that is done after it. -/
def answer (hist : History) : Operation → Answer
  | .replaceRoot _ _ _ => .done
  | .dropRoot root => .names (held hist root).names
  | .get name => .profile (get? hist name)
  | .getIn root name => .profile ((held hist root).get? name)
  | .lookup name prefer =>
    .profile ((prefer.bind fun root => (held hist root).get? name).or (get? hist name))
  | .names => .names (names hist)
  | .profiles => .profiles ((names hist).filterMap (get? hist))
  | .has name => .truth ((names hist).contains name)

variable {hist : History}

/-- A change of a root ends what stands of it. -/
theorem standing_concat_of_changed {op : Operation} {root : Text}
    (hop : op.changed? = some root) (hist : History) :
    standing (hist ++ [op]) = (standing hist).remove root ++ standing [op] := by
  induction hist with
  | nil => rfl
  | cons first hist ih =>
    cases first with
    | replaceRoot r profiles distinct =>
      rw [List.cons_append, standing, standing, List.any_append, ih]
      by_cases hlater : (hist.any fun op => op.changed? == some r) = true
      · rw [if_pos (by simp [hlater]), if_pos hlater]
      · rw [Bool.not_eq_true] at hlater
        by_cases hr : root = r
        · subst hr
          rw [if_pos (by simp [hop]), if_neg (by simp [hlater]), Entries.remove, Entries.remove,
            List.filter_cons_of_neg (by simp)]
        · rw [if_neg (by simp [hlater, hop, hr]), if_neg (by simp [hlater]), Entries.remove,
            Entries.remove, List.filter_cons_of_pos (by simp [Ne.symm hr]), List.cons_append]
    | _ => exact ih

/-- What changes no root leaves what stands. -/
theorem standing_concat_of_unchanged {op : Operation} (hop : op.changed? = none) (hist : History) :
    standing (hist ++ [op]) = standing hist := by
  induction hist with
  | nil =>
    cases op with
    | replaceRoot _ _ _ => exact absurd hop nofun
    | _ => rfl
  | cons first hist ih =>
    cases first with
    | replaceRoot r profiles distinct =>
      rw [List.cons_append, standing, standing, List.any_append, ih]
      simp [hop]
    | _ => exact ih

/-- The profiles of a replacement that stands have different names. -/
theorem nodup_of_mem_standing {e : Text × Entries Profile} (he : e ∈ standing hist) :
    e.2.names.Nodup := by
  induction hist with
  | nil => exact absurd he List.not_mem_nil
  | cons op hist ih =>
    cases op with
    | replaceRoot root profiles distinct =>
      rw [standing] at he
      split at he
      · exact ih he
      · rcases List.mem_cons.1 he with rfl | he
        · exact distinct
        · exact ih he
    | _ => exact ih he

end History

/-! ## What operations keep -/

/-- A registry is what its history says: it has the roots that stand, and the view that it
remembers, if it does, is the view of these. -/
structure Follows (r : LiveRegistry) (hist : History) : Prop where
  byRoot_eq : r.registry.byRoot = hist.standing
  fresh : ∀ v, r.remembered = some v → v = r.registry.live

namespace Follows

variable {r : LiveRegistry} {hist : History}

theorem empty : LiveRegistry.empty.Follows [] :=
  ⟨rfl, fun _ h => absurd h nofun⟩

theorem view_eq (hr : r.Follows hist) : r.view = r.registry.live := by
  rw [view]
  cases hv : r.remembered with
  | none => rfl
  | some v => exact hr.fresh v hv

theorem get?_view (hr : r.Follows hist) (name : Text) : r.view.get? name = hist.get? name := by
  have hnames : ∀ e ∈ r.registry.byRoot, e.2.names.Nodup := by
    rw [hr.byRoot_eq]
    exact fun e he => History.nodup_of_mem_standing he
  rw [hr.view_eq, History.get?, ← hr.byRoot_eq]
  exact Registry.get?_eq_findSome? hnames name

theorem names_view (hr : r.Follows hist) : r.view.names = hist.names := by
  rw [hr.view_eq, Registry.names_live, hr.byRoot_eq]
  rfl

theorem ofRoot_eq (hr : r.Follows hist) (root : Text) : r.registry.ofRoot root = hist.held root := by
  rw [Registry.ofRoot, hr.byRoot_eq]
  rfl

/-- A question about the view leaves the roots, and remembers the view of them. -/
theorem ask (hr : r.Follows hist) {α : Type} (answer : Entries Profile → α) :
    (r.ask answer).2.Follows hist where
  byRoot_eq := hr.byRoot_eq
  fresh v hv := by
    rw [← Option.some.inj hv]
    exact hr.view_eq

/-- After an operation the registry is what the longer history says. -/
theorem perform (hr : r.Follows hist) (op : Operation) :
    (r.perform op).2.Follows (hist ++ [op]) := by
  have hquestion : ∀ {s : LiveRegistry}, s.Follows hist → op.changed? = none →
      s.Follows (hist ++ [op]) := by
    intro s hs hop
    refine ⟨?_, hs.fresh⟩
    rw [hs.byRoot_eq, History.standing_concat_of_unchanged hop]
  cases op with
  | replaceRoot root profiles distinct =>
    refine ⟨?_, fun _ h => absurd h nofun⟩
    rw [History.standing_concat_of_changed rfl, ← hr.byRoot_eq]
    rfl
  | dropRoot root =>
    refine ⟨?_, fun _ h => absurd h nofun⟩
    rw [History.standing_concat_of_changed rfl, ← hr.byRoot_eq]
    exact (List.append_nil _).symm
  | get name => exact hquestion (hr.ask fun view => view.get? name) rfl
  | getIn root name => exact hquestion hr rfl
  | lookup name prefer =>
    refine hquestion ?_ rfl
    show (r.lookup name prefer).2.Follows hist
    rw [lookup]
    split
    · exact hr
    · exact hr.ask fun view => view.get? name
  | names => exact hquestion (hr.ask Entries.names) rfl
  | profiles => exact hquestion (hr.ask Entries.values) rfl
  | has name => exact hquestion (hr.ask fun view => view.has name) rfl

/-- An operation answers what the history says. -/
theorem answer_eq (hr : r.Follows hist) (op : Operation) :
    (r.perform op).1 = hist.answer op := by
  have hscoped : ∀ root name, r.scoped? root name = (hist.held root).get? name := by
    intro root name
    rw [scoped?, Registry.scoped?, hr.ofRoot_eq]
  cases op with
  | replaceRoot root profiles distinct => rfl
  | dropRoot root => exact congrArg (fun es => Answer.names (Entries.names es)) (hr.ofRoot_eq root)
  | get name => exact congrArg Answer.profile (hr.get?_view name)
  | getIn root name => exact congrArg Answer.profile (hscoped root name)
  | lookup name prefer =>
    rw [LiveRegistry.perform, History.answer, lookup]
    simp only [hscoped]
    cases hp : prefer.bind fun root => (hist.held root).get? name with
    | some p => rfl
    | none => exact congrArg Answer.profile (hr.get?_view name)
  | names => exact congrArg Answer.names hr.names_view
  | profiles =>
    have hdistinct : r.view.names.Nodup := by
      rw [hr.view_eq]
      exact Registry.nodup_names_live _
    have hvalues : r.view.values = hist.names.filterMap hist.get? := by
      rw [Entries.values_eq_filterMap hdistinct, hr.names_view]
      exact List.filterMap_congr fun name _ => hr.get?_view name
    exact congrArg Answer.profiles hvalues
  | has name =>
    refine congrArg Answer.truth ?_
    change (r.view.get? name).isSome = hist.names.contains name
    rw [← hr.names_view, Bool.eq_iff_iff, List.contains_iff_mem, Option.isSome_iff_ne_none, ne_eq,
      Entries.get?_eq_none_iff, not_not]

end Follows

/-- A registry follows all operations that were done with it. -/
theorem follows_after (ops : List Operation) : (empty.after ops).Follows ops := by
  induction ops using List.reverseRecOn with
  | nil => exact Follows.empty
  | append_singleton ops op ih =>
    rw [after, List.foldl_concat]
    exact ih.perform op

/-- The answers of more operations come after those of the first ones. -/
theorem answers_concat (r : LiveRegistry) (ops : List Operation) (op : Operation) :
    r.answers (ops ++ [op]) = r.answers ops ++ [((r.after ops).perform op).1] := by
  induction ops generalizing r with
  | nil => rfl
  | cons first ops ih =>
    rw [List.cons_append, answers, ih]
    rfl

/-- **Every answer** of a registry is what the operations before it say, and whatever view it
remembers at the end lists the names that are declared with the profiles that are found. -/
theorem answers_eq_history (ops : List Operation) :
    empty.answers ops = ops.mapIdx (fun i op => History.answer (ops.take i) op) ∧
      ∀ v, (empty.after ops).remembered = some v →
        v.names = History.names ops ∧ ∀ name, v.get? name = History.get? ops name := by
  refine ⟨?_, fun v hv => ?_⟩
  · induction ops using List.reverseRecOn with
    | nil => rfl
    | append_singleton ops op ih =>
      rw [answers_concat, ih, List.mapIdx_concat, (follows_after ops).answer_eq, List.take_left]
      congr 1
      refine List.mapIdx_eq_mapIdx_iff.2 fun i hi => ?_
      rw [List.take_append_of_le_length (Nat.le_of_lt hi)]
  · have hfollows := follows_after ops
    have hview : (empty.after ops).view = v := by rw [view, hv, Option.getD_some]
    rw [← hview]
    exact ⟨hfollows.names_view, hfollows.get?_view⟩

end LiveRegistry

end Bindery

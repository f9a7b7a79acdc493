import Bindery.Proofs.Engine.History

/-!
# Loading roots

What a load of one root does, told by what its profile file is found to be, and a load of all roots
as a pass over a list of paths.  Where the normal forms of the listed roots are their own normal
forms, a load of all roots visits the listed roots and then the normal forms that were new, and
there it ends.

* `Engine.loadNormal_eq`, `Engine.reloadRoot_eq`
* `Engine.loadAll_eq`: a load of all roots is one pass.
* `Engine.report_loadAll`, `Engine.registry_loadAll`: what it reports and what it leaves.
-/

namespace Bindery

/-- The normal form of a path is its own normal form. -/
def Roots.Fixes (h : Host) (path : Text) : Prop :=
  ∀ root, normalize h path = .ok root → normalize h root = .ok root

theorem Roots.fixes_of_normalize_eq {h : Host} {root : Text}
    (hroot : normalize h root = .ok root) : Fixes h root := by
  intro normal hnormal
  rw [hroot] at hnormal
  rw [← Except.ok.inj hnormal, hroot]

namespace Engine

variable {e : Engine} {h : Host}

/-! ## One root -/

@[simp] theorem settings_addNormal (e : Engine) (root : Text) :
    (e.addNormal root).settings = e.settings := by
  unfold addNormal
  split <;> rfl

@[simp] theorem registry_addNormal (e : Engine) (root : Text) :
    (e.addNormal root).registry = e.registry := by
  unfold addNormal
  split <;> rfl

@[simp] theorem loaded_addNormal (e : Engine) (root : Text) :
    (e.addNormal root).loaded = e.loaded := by
  unfold addNormal
  split <;> rfl

theorem mem_roots_addNormal (e : Engine) (root : Text) : root ∈ (e.addNormal root).roots := by
  unfold addNormal
  split
  · next hroot => exact List.contains_iff_mem.1 hroot
  · exact List.mem_append_right e.roots (List.mem_singleton.2 rfl)

theorem addNormal_of_mem {root : Text} (hroot : root ∈ e.roots) : e.addNormal root = e :=
  if_pos (List.contains_iff_mem.2 hroot)

/-- What a load of a root in its normal form does. -/
theorem loadNormal_eq (e : Engine) (h : Host) (root : Text) :
    e.loadNormal h root =
      if e.loaded.contains root then (e, .ok true)
      else
        match Config.find e.settings h root with
        | .missing => (e, .ok false)
        | .text content => (e.accept root (Profile.readText root content), .ok true)
        | .unreadable f => (e, ⟨⟨[parseFailure (e.configPath root) f], []⟩, .ok false⟩)
        | .fault f => (e, .fail f) := by
  rw [loadNormal, Config.find, hasConfig, Profile.load, configPath]
  split
  · rfl
  · cases Roots.hasConfig h root e.settings.configFileName with
    | error f => rfl
    | ok found =>
      cases found with
      | false => rfl
      | true =>
        cases Profile.readFile h (Roots.configPath root e.settings.configFileName) with
        | error f => cases f <;> rfl
        | ok content => rfl

/-- What a reload does of a root whose normal form is its own normal form. -/
theorem reloadRoot_eq {path root : Text} (hnormal : Roots.normalize h path = .ok root)
    (hfix : Roots.normalize h root = .ok root) :
    e.reloadRoot h path =
      let unmarked := (e.addNormal root).reopenNormal root
      match Config.find e.settings h root with
      | .missing => (unmarked.invalidateNormal root, .ok false)
      | .text content => (unmarked.accept root (Profile.readText root content), .ok true)
      | .unreadable f => (unmarked, ⟨⟨[parseFailure (e.configPath root) f], []⟩, .ok false⟩)
      | .fault f => (unmarked, .fail f) := by
  have hsettings : ((e.addNormal root).reopenNormal root).settings = e.settings :=
    settings_addNormal e root
  have hlisted : root ∈ ((e.addNormal root).reopenNormal root).roots := mem_roots_addNormal e root
  have hunmarked : ((e.addNormal root).reopenNormal root).loaded.contains root = false := by
    simp [reopenNormal]
  rw [reloadRoot, hnormal]
  dsimp only
  rw [loadRoot, invalidateRoot, hfix, hasConfig, hsettings]
  dsimp only [Except.map]
  rw [addNormal_of_mem hlisted, loadNormal_eq, hunmarked, hsettings, configPath, configPath,
    hsettings, Config.find]
  cases Roots.hasConfig h root e.settings.configFileName with
  | error f => rfl
  | ok found =>
    cases found with
    | false => rfl
    | true =>
      cases Profile.readFile h (Roots.configPath root e.settings.configFileName) with
      | error f => cases f <;> rfl
      | ok content => rfl

/-- The report that is due when a path is loaded: one if its root is not loaded and has a profile
file that cannot be read. -/
def failure? (e : Engine) (h : Host) (path : Text) : Option Diagnostic :=
  match Roots.normalize h path with
  | .error _ => none
  | .ok root =>
    if e.loaded.contains root then none
    else
      match Config.find e.settings h root with
      | .unreadable f => some (parseFailure (e.configPath root) f)
      | _ => none

/-- Whether a load of a path finds profiles of its root: former ones or those of its file. -/
def yields (e : Engine) (h : Host) (path : Text) : Bool :=
  match Roots.normalize h path with
  | .error _ => false
  | .ok root =>
    e.loaded.contains root ||
      match Config.find e.settings h root with
      | .text _ => true
      | _ => false

/-- What a load of a path can do: it is cut short, it changes no profiles, or it takes those that
the profile file of a root declares. -/
theorem loadRoot_cases (e : Engine) (h : Host) (path : Text) :
    (∃ f, Roots.normalize h path = .error f ∧ e.loadRoot h path = (e, .fail f)) ∨
      ∃ root, Roots.normalize h path = .ok root ∧
        ((∃ r : Reported Bool, r.notes.diagnostics = (e.failure? h path).toList ∧
            (∀ b, r.result = .ok b → b = e.yields h path) ∧
            e.loadRoot h path = (e.addNormal root, r)) ∨
          ∃ content, root ∉ e.loaded ∧ Config.find e.settings h root = .text content ∧
            e.loadRoot h path =
              ((e.addNormal root).accept root (Profile.readText root content), .ok true)) := by
  rw [loadRoot, failure?, yields]
  cases Roots.normalize h path with
  | error f => exact Or.inl ⟨f, rfl, rfl⟩
  | ok root =>
    refine Or.inr ⟨root, rfl, ?_⟩
    simp only [loadNormal_eq, loaded_addNormal, settings_addNormal, configPath]
    split
    · next hloaded =>
      refine Or.inl ⟨.ok true, rfl, fun b hb => ?_, rfl⟩
      rw [← Except.ok.inj hb, hloaded, Bool.true_or]
    · next hloaded =>
      rw [Bool.not_eq_true] at hloaded
      rw [hloaded, Bool.false_or]
      cases hfind : Config.find e.settings h root with
      | missing => exact Or.inl ⟨.ok false, rfl, fun b hb => (Except.ok.inj hb).symm, rfl⟩
      | text content =>
        have hmem : root ∉ e.loaded := fun hmem => by
          rw [List.contains_iff_mem.2 hmem] at hloaded
          exact absurd hloaded nofun
        exact Or.inr ⟨content, hmem, rfl, rfl⟩
      | unreadable f => exact Or.inl ⟨_, rfl, fun b hb => (Except.ok.inj hb).symm, rfl⟩
      | fault f => exact Or.inl ⟨.fail f, rfl, fun b hb => absurd hb nofun, rfl⟩

/-- A load lists at most one new root, a normal form. -/
theorem roots_loadRoot (e : Engine) (h : Host) (path : Text) :
    (e.loadRoot h path).1.roots = e.roots ∨
      ∃ root, root ∉ e.roots ∧ Roots.normalize h path = .ok root ∧
        (e.loadRoot h path).1.roots = e.roots ++ [root] := by
  have hadd : ∀ root, (e.addNormal root).roots = e.roots ∨
      root ∉ e.roots ∧ (e.addNormal root).roots = e.roots ++ [root] := by
    intro root
    unfold addNormal
    split
    · exact Or.inl rfl
    · next hroot => exact Or.inr ⟨fun hmem => hroot (List.contains_iff_mem.2 hmem), rfl⟩
  rcases loadRoot_cases e h path with
    ⟨f, -, heq⟩ | ⟨root, hroot, ⟨r, -, -, heq⟩ | ⟨content, -, -, heq⟩⟩
  · exact Or.inl (by rw [heq])
  · rw [heq]
    exact (hadd root).imp_right fun h' => ⟨root, h'.1, hroot, h'.2⟩
  · rw [heq]
    exact (hadd root).imp_right fun h' => ⟨root, h'.1, hroot, h'.2⟩

/-- One operation after another: a fault ends it. -/
def andThen (x : Engine × Reported Bool) (k : Engine → Bool → Engine × Reported Bool) :
    Engine × Reported Bool :=
  match x.2.result with
  | .error f => (x.1, ⟨x.2.notes, .error f⟩)
  | .ok b => ((k x.1 b).1, ⟨x.2.notes.append (k x.1 b).2.notes, (k x.1 b).2.result⟩)

/-- Loads one path after another. -/
def loadEach (h : Host) : List Text → Engine → Bool → Engine × Reported Bool
  | [], e, found => (e, .ok found)
  | path :: paths, e, found =>
    andThen (e.loadRoot h path) fun next b => loadEach h paths next (found || b)

variable {x : Engine × Reported Bool} {k l : Engine → Bool → Engine × Reported Bool}

@[simp] theorem andThen_ok (e : Engine) (b : Bool) : andThen (e, .ok b) k = k e b := by
  simp [andThen, Reported.ok, Notes.append, Notes.none]

theorem andThen_congr (hkl : ∀ b, k x.1 b = l x.1 b) : andThen x k = andThen x l := by
  unfold andThen
  cases x.2.result with
  | error f => rfl
  | ok b =>
    dsimp only
    rw [hkl b]

theorem andThen_assoc : andThen (andThen x k) l = andThen x fun e b => andThen (k e b) l := by
  obtain ⟨e, notes, result⟩ := x
  cases result with
  | error f => rfl
  | ok b =>
    simp only [andThen]
    cases (k e b).2.result <;> simp [Notes.append]

theorem andThen_pure (hk : ∀ b, k x.1 b = (x.1, .ok b)) : andThen x k = x := by
  obtain ⟨e, notes, result⟩ := x
  cases result with
  | error f => rfl
  | ok b =>
    simp only [andThen]
    rw [hk b]
    simp [Notes.append, Reported.ok, Notes.none]

theorem loadEach_append (first second : List Text) (e : Engine) (found : Bool) :
    loadEach h (first ++ second) e found =
      andThen (loadEach h first e found) (loadEach h second) := by
  induction first generalizing e found with
  | nil => rw [List.nil_append, loadEach, andThen_ok]
  | cons path first ih =>
    rw [List.cons_append, loadEach, loadEach, andThen_assoc]
    exact andThen_congr fun b => ih _ _

/-- A pass lists new roots behind the others, each the normal form of one of its paths. -/
theorem roots_loadEach (h : Host) (paths : List Text) (e : Engine) (found : Bool) :
    ∃ news, (loadEach h paths e found).1.roots = e.roots ++ news ∧ news.length ≤ paths.length ∧
      ∀ root ∈ news, root ∉ e.roots ∧ ∃ path ∈ paths, Roots.normalize h path = .ok root := by
  induction paths generalizing e found with
  | nil => exact ⟨[], (List.append_nil _).symm, Nat.le_refl 0, fun _ h => absurd h List.not_mem_nil⟩
  | cons path paths ih =>
    have hfirst : ∃ news, (e.loadRoot h path).1.roots = e.roots ++ news ∧ news.length ≤ 1 ∧
        ∀ root ∈ news, root ∉ e.roots ∧ Roots.normalize h path = .ok root := by
      rcases roots_loadRoot e h path with heq | ⟨root, hnew, hroot, heq⟩
      · refine ⟨[], ?_, Nat.zero_le 1, fun _ hr => absurd hr List.not_mem_nil⟩
        rw [heq, List.append_nil]
      · refine ⟨[root], heq, Nat.le_refl 1, fun r hr => ?_⟩
        rw [List.mem_singleton.1 hr]
        exact ⟨hnew, hroot⟩
    obtain ⟨news, heq, hlen, hnews⟩ := hfirst
    rw [loadEach, andThen]
    split
    · refine ⟨news, heq, Nat.le_trans hlen (Nat.le_add_left 1 _), fun root hroot => ?_⟩
      exact ⟨(hnews root hroot).1, path, List.mem_cons_self, (hnews root hroot).2⟩
    · next b _ =>
      -- What is new after the first load is new before it.
      obtain ⟨more, hmoreEq, hmoreLen, hmore⟩ := ih (e.loadRoot h path).1 (found || b)
      refine ⟨news ++ more, ?_, ?_, fun root hroot => ?_⟩
      · rw [hmoreEq, heq, List.append_assoc]
      · rw [List.length_append, List.length_cons]
        omega
      · rcases List.mem_append.1 hroot with hroot | hroot
        · exact ⟨(hnews root hroot).1, path, List.mem_cons_self, (hnews root hroot).2⟩
        · obtain ⟨hnot, other, hother, hnormal⟩ := hmore root hroot
          rw [heq, List.mem_append, not_or] at hnot
          exact ⟨hnot.1, other, List.mem_cons_of_mem path hother, hnormal⟩

/-- A pass over roots that are listed under their normal forms lists no new ones. -/
theorem roots_loadEach_of_fixed {paths : List Text} {found : Bool}
    (hlisted : ∀ path ∈ paths, path ∈ e.roots)
    (hfixed : ∀ path ∈ paths, Roots.normalize h path = .ok path) :
    (loadEach h paths e found).1.roots = e.roots := by
  obtain ⟨news, heq, -, hnews⟩ := roots_loadEach h paths e found
  have hnil : news = [] := by
    refine List.eq_nil_iff_forall_not_mem.2 fun root hroot => ?_
    obtain ⟨hnot, path, hpath, hnormal⟩ := hnews root hroot
    rw [hfixed path hpath] at hnormal
    exact hnot (Except.ok.inj hnormal ▸ hlisted path hpath)
  rw [heq, hnil, List.append_nil]

/-- Roots that stand at a position and after it are loaded in one pass. -/
theorem loadFrom_append {paths rest : List Text} {position fuel : Nat} {found : Bool}
    (hroots : e.roots.drop position = paths ++ rest) :
    e.loadFrom h (paths.length + fuel) position found =
      andThen (loadEach h paths e found)
        fun next b => next.loadFrom h fuel (position + paths.length) b := by
  induction paths generalizing e position found rest with
  | nil => rw [loadEach, andThen_ok, List.length_nil, Nat.zero_add, Nat.add_zero]
  | cons path paths ih =>
    have hhere : e.roots[position]? = some path := by
      rw [← List.head?_drop, hroots]
      rfl
    -- A new root goes to the end, so the roots that are still to come stay where they are.
    have hnext : ∃ more, (e.loadRoot h path).1.roots.drop (position + 1) = paths ++ more := by
      have htail : e.roots.drop (position + 1) = paths ++ rest := by
        rw [← List.tail_drop, hroots]
        rfl
      have hlen : position + 1 ≤ e.roots.length := by
        obtain ⟨hlt, -⟩ := List.getElem?_eq_some_iff.1 hhere
        omega
      rcases roots_loadRoot e h path with heq | ⟨root, -, -, heq⟩
      · exact ⟨rest, by rw [heq, htail]⟩
      · exact ⟨rest ++ [root], by
          rw [heq, List.drop_append_of_le_length hlen, htail, List.append_assoc]⟩
    obtain ⟨more, hmore⟩ := hnext
    have hlength : (path :: paths).length + fuel = (paths.length + fuel) + 1 := by
      rw [List.length_cons]
      omega
    have hstep : e.loadFrom h (paths.length + fuel + 1) position found =
        andThen (e.loadRoot h path) fun next b =>
          next.loadFrom h (paths.length + fuel) (position + 1) (found || b) := by
      have hunfold := loadFrom.eq_def h (paths.length + fuel + 1) position e found
      cases hresult : (e.loadRoot h path).2.result with
      | error f => simp only [hunfold, hhere, andThen, hresult]
      | ok b => simp only [hunfold, hhere, andThen, hresult]
    rw [hlength, hstep, loadEach, andThen_assoc]
    refine andThen_congr fun b => ?_
    rw [ih hmore, List.length_cons]
    exact andThen_congr fun b => by rw [Nat.add_right_comm, Nat.add_assoc]

theorem loadFrom_end {fuel position : Nat} {found : Bool} (hend : e.roots.length ≤ position) :
    e.loadFrom h fuel position found = (e, .ok found) := by
  have hnone : e.roots[position]? = none := List.getElem?_eq_none hend
  rw [loadFrom.eq_def, hnone]
  cases fuel <;> rfl

/-- A load of all roots is a pass over the listed roots and over the normal forms that turn out to
be new. -/
theorem loadAll_eq (hfix : ∀ root ∈ e.roots, Roots.Fixes h root) :
    ∃ news, (loadEach h e.roots e false).1.roots = e.roots ++ news ∧
      (e.loadAll h).1.roots = e.roots ++ news ∧
      (∀ root ∈ news, root ∉ e.roots ∧
        ∃ path ∈ e.roots, Roots.normalize h path = .ok root) ∧
      e.loadAll h = loadEach h (e.roots ++ news) e false := by
  obtain ⟨news, hnews, hlen, hfrom⟩ := roots_loadEach h e.roots e false
  have hsecond : ∀ b, (loadEach h news (loadEach h e.roots e false).1 b).1.roots =
      e.roots ++ news := by
    intro b
    rw [← hnews]
    refine roots_loadEach_of_fixed (fun root hroot => ?_) (fun root hroot => ?_)
    · rw [hnews]
      exact List.mem_append_right e.roots hroot
    · obtain ⟨-, path, hpath, hnormal⟩ := hfrom root hroot
      exact hfix path hpath root hnormal
  have hpass : e.loadAll h = loadEach h (e.roots ++ news) e false := by
    -- The fuel is spent on the listed roots, then on the new ones, and what is left is not needed.
    obtain ⟨fuel, hfuel⟩ : ∃ fuel, 2 * e.roots.length + Host.maxPathBytes =
        e.roots.length + (news.length + fuel) :=
      ⟨2 * e.roots.length + Host.maxPathBytes - e.roots.length - news.length, by omega⟩
    have hlisted : e.roots.drop 0 = e.roots ++ [] := by rw [List.drop_zero, List.append_nil]
    rw [loadAll, hfuel, loadFrom_append hlisted, loadEach_append, Nat.zero_add]
    refine andThen_congr fun b => ?_
    have hrest : (loadEach h e.roots e false).1.roots.drop e.roots.length = news ++ [] := by
      rw [hnews, List.drop_left, List.append_nil]
    rw [loadFrom_append hrest]
    exact andThen_pure fun b' => loadFrom_end (Nat.le_of_eq (by rw [hsecond, List.length_append]))
  refine ⟨news, hnews, ?_, hfrom, hpass⟩
  rw [hpass, loadEach_append, andThen]
  split
  · exact hnews
  · exact hsecond _

/-- Roots that are listed under their normal forms are visited once each. -/
theorem loadAll_of_fixed (hfixed : ∀ root ∈ e.roots, Roots.normalize h root = .ok root) :
    e.loadAll h = loadEach h e.roots e false := by
  have hfix : ∀ root ∈ e.roots, Roots.Fixes h root :=
    fun root hroot => Roots.fixes_of_normalize_eq (hfixed root hroot)
  obtain ⟨news, hfirst, -, -, hall⟩ := loadAll_eq hfix
  rw [roots_loadEach_of_fixed (fun _ hroot => hroot) hfixed, List.self_eq_append_right] at hfirst
  rw [hall, hfirst, List.append_nil]

end Engine

end Bindery

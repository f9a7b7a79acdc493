import Bindery.Diagnostic
import Mathlib.Data.List.Forall2

/-!
# Outcomes of sequences

What a sequence of operations that may fail amounts to.  Taking the result of a reported operation
leaves the notes behind and commutes with sequencing, so every question about results is one about
`Except`; there a sequence has a result iff each of its operations has one, and a fault of the
sequence is the fault of one of them.

* `FailsOnly`: what can be said of the fault of an operation, if it has one.
* `Reported.ReportsOnly`: what can be said of the reports that an operation makes.
-/

namespace Bindery

variable {α β ε : Type}

/-! ## Sequences of `Except` -/

theorem exists_of_isOk {x : Except ε α} (h : x.isOk = true) : ∃ a, x = .ok a := by
  cases x with
  | error e => exact absurd h nofun
  | ok a => exact ⟨a, rfl⟩

/-- An operation after another has a result where both have. -/
theorem bind_eq_ok_iff {x : Except ε α} {f : α → Except ε β} {b : β} :
    (x >>= f) = .ok b ↔ ∃ a, x = .ok a ∧ f a = .ok b := by
  cases x with
  | error e => simp [bind, Except.bind]
  | ok a => simp [bind, Except.bind]

theorem map_eq_ok_iff {x : Except ε α} {f : α → β} {b : β} :
    x.map f = .ok b ↔ ∃ a, x = .ok a ∧ f a = b := by
  cases x <;> simp [Except.map]

/-- To give a fault another form makes no result. -/
theorem eq_ok_of_mapError {γ : Type} {x : Except ε α} {g : ε → γ} {a : α}
    (h : x.mapError g = .ok a) : x = .ok a := by
  cases x with
  | error e => exact absurd h nofun
  | ok b => exact congrArg _ (Except.ok.inj h)

/-- A sequence has results exactly where each operation has its own. -/
theorem mapM_eq_ok_iff {f : α → Except ε β} {xs : List α} {ys : List β} :
    xs.mapM f = .ok ys ↔ List.Forall₂ (fun x y => f x = .ok y) xs ys := by
  induction xs generalizing ys with
  | nil =>
    rw [List.mapM_nil, List.forall₂_nil_left_iff]
    exact ⟨fun h => (Except.ok.inj h).symm, fun h => h ▸ rfl⟩
  | cons x xs ih =>
    rw [List.mapM_cons, List.forall₂_cons_left_iff, bind_eq_ok_iff]
    constructor
    · rintro ⟨y, hy, h⟩
      obtain ⟨rest, hrest, h⟩ := bind_eq_ok_iff.1 h
      exact ⟨y, rest, hy, ih.1 hrest, (Except.ok.inj h).symm⟩
    · rintro ⟨y, rest, hy, hrest, rfl⟩
      exact ⟨y, hy, bind_eq_ok_iff.2 ⟨rest, ih.2 hrest, rfl⟩⟩

/-- A fault of a sequence is the fault of one of its operations. -/
theorem exists_of_mapM_eq_error {f : α → Except ε β} {xs : List α} {e : ε}
    (h : xs.mapM f = .error e) : ∃ x ∈ xs, f x = .error e := by
  induction xs with
  | nil => exact absurd h nofun
  | cons x xs ih =>
    rw [List.mapM_cons] at h
    cases hx : f x with
    | error e' =>
      rw [hx] at h
      exact ⟨x, List.mem_cons_self, hx.trans (congrArg _ (Except.error.inj h))⟩
    | ok y =>
      cases hxs : xs.mapM f with
      | error e' =>
        rw [hx, hxs] at h
        obtain ⟨z, hz, hfz⟩ := ih (hxs.trans h)
        exact ⟨z, List.mem_cons_of_mem x hz, hfz⟩
      | ok ys =>
        rw [hx, hxs] at h
        exact absurd h nofun

/-- Operations that all have a result have one in sequence. -/
theorem exists_mapM_eq_ok {f : α → Except ε β} {xs : List α} (h : ∀ x ∈ xs, ∃ y, f x = .ok y) :
    ∃ ys, xs.mapM f = .ok ys := by
  cases hf : xs.mapM f with
  | ok ys => exact ⟨ys, rfl⟩
  | error e =>
    obtain ⟨x, hx, hfx⟩ := exists_of_mapM_eq_error hf
    obtain ⟨y, hy⟩ := h x hx
    rw [hy] at hfx
    exact absurd hfx nofun

/-- Where a sequence has results, each of its operations has one. -/
theorem exists_of_mapM_eq_ok {f : α → Except ε β} {xs : List α} {ys : List β}
    (h : xs.mapM f = .ok ys) {x : α} (hx : x ∈ xs) : ∃ y, f x = .ok y := by
  rw [mapM_eq_ok_iff] at h
  induction h with
  | nil => exact absurd hx List.not_mem_nil
  | cons hy _ ih =>
    rcases List.mem_cons.1 hx with rfl | hx
    · exact ⟨_, hy⟩
    · exact ih hx

/-- The results of a sequence of lists hold what the lists hold. -/
theorem mem_flatten_of_mapM_eq_ok {f : α → Except ε (List β)} {xs : List α} {yss : List (List β)}
    (h : xs.mapM f = .ok yss) (y : β) :
    y ∈ yss.flatten ↔ ∃ x ∈ xs, ∃ ys, f x = .ok ys ∧ y ∈ ys := by
  rw [mapM_eq_ok_iff] at h
  induction h with
  | nil => simp
  | @cons x ys xs yss hx _ ih =>
    rw [List.flatten_cons, List.mem_append, ih]
    constructor
    · rintro (hy | ⟨z, hz, hfz⟩)
      · exact ⟨x, List.mem_cons_self, ys, hx, hy⟩
      · exact ⟨z, List.mem_cons_of_mem x hz, hfz⟩
    · rintro ⟨z, hz, zs, hfz, hy⟩
      rcases List.mem_cons.1 hz with rfl | hz
      · rw [hx, Except.ok.injEq] at hfz
        exact Or.inl (hfz ▸ hy)
      · exact Or.inr ⟨z, hz, zs, hfz, hy⟩

/-- Operations that all have a list as their result have the lists together as the result. -/
theorem exists_flatten_eq_ok (f : α → Except ε (List β)) (xs : List α)
    (h : ∀ x ∈ xs, ∃ ys, f x = .ok ys) :
    ∃ zs, (xs.mapM f).map List.flatten = .ok zs ∧
      ∀ y, y ∈ zs ↔ ∃ x ∈ xs, ∃ ys, f x = .ok ys ∧ y ∈ ys := by
  obtain ⟨yss, hyss⟩ := exists_mapM_eq_ok h
  exact ⟨yss.flatten, by rw [hyss]; rfl, mem_flatten_of_mapM_eq_ok hyss⟩

/-- The lists of a sequence are put together one by one. -/
theorem map_flatten_mapM_cons (f : α → Except ε (List β)) (x : α) (xs : List α) :
    ((x :: xs).mapM f).map List.flatten =
      f x >>= fun ys => ((xs.mapM f).map List.flatten).map (ys ++ ·) := by
  rw [List.mapM_cons]
  cases f x with
  | error e => rfl
  | ok ys => cases xs.mapM f <;> rfl

/-- Lists that are filtered one by one are filtered together. -/
theorem flatten_mapM_eq_filter {f g : α → Except ε (List β)} {keep : β → Bool} {xs : List α}
    (h : ∀ x ∈ xs, f x = (g x).map (List.filter keep)) :
    (xs.mapM f).map List.flatten = ((xs.mapM g).map List.flatten).map (List.filter keep) := by
  induction xs with
  | nil => rfl
  | cons x xs ih =>
    rw [List.forall_mem_cons] at h
    rw [map_flatten_mapM_cons, map_flatten_mapM_cons, h.1, ih h.2]
    cases g x with
    | error e => rfl
    | ok ys =>
      cases (xs.mapM g).map List.flatten with
      | error e => rfl
      | ok zs => exact congrArg Except.ok (List.filter_append ys zs).symm

/-- Operations whose lists are empty can be left out of a sequence. -/
theorem flatten_mapM_filter {f : α → Except ε (List β)} {keep : α → Bool} {xs : List α}
    (h : ∀ x ∈ xs, keep x = false → f x = .ok []) :
    ((xs.filter keep).mapM f).map List.flatten = (xs.mapM f).map List.flatten := by
  induction xs with
  | nil => rfl
  | cons x xs ih =>
    rw [List.forall_mem_cons] at h
    cases hx : keep x with
    | true => rw [List.filter_cons_of_pos hx, map_flatten_mapM_cons, map_flatten_mapM_cons, ih h.2]
    | false =>
      rw [List.filter_cons_of_neg (Bool.not_eq_true _ ▸ hx), ih h.2, map_flatten_mapM_cons, h.1 hx]
      cases (xs.mapM f).map List.flatten <;> rfl

/-! ## Faults -/

/-- If an operation has no result, its fault has a property. -/
def FailsOnly (F : ε → Prop) (x : Except ε α) : Prop :=
  ∀ e, x = .error e → F e

namespace FailsOnly

variable {F G : ε → Prop} {x : Except ε α}

theorem ok (a : α) : FailsOnly F (.ok a : Except ε α) :=
  fun _ he => absurd he nofun

theorem error {e : ε} (h : F e) : FailsOnly F (.error e : Except ε α) :=
  fun _ he => Except.error.inj he ▸ h

theorem mono (h : FailsOnly F x) (hFG : ∀ e, F e → G e) : FailsOnly G x :=
  fun e he => hFG e (h e he)

/-- An operation after another fails as the first does, or as the second. -/
theorem bind {f : α → Except ε β} (h : FailsOnly F x)
    (hf : ∀ a, x = .ok a → FailsOnly F (f a)) : FailsOnly F (x >>= f) := by
  cases x with
  | error e => exact error (h e rfl)
  | ok a => exact hf a rfl

theorem map (h : FailsOnly F x) (f : α → β) : FailsOnly F (x.map f) := by
  cases x with
  | error e => exact error (h e rfl)
  | ok a => exact ok (f a)

theorem mapM {f : α → Except ε β} {xs : List α} (h : ∀ x ∈ xs, FailsOnly F (f x)) :
    FailsOnly F (xs.mapM f) := by
  intro e he
  obtain ⟨x, hx, hfx⟩ := exists_of_mapM_eq_error he
  exact h x hx e hfx

theorem ok_or_error (h : FailsOnly F x) : (∃ a, x = .ok a) ∨ ∃ e, x = .error e ∧ F e := by
  cases x with
  | error e => exact Or.inr ⟨e, rfl, h e rfl⟩
  | ok a => exact Or.inl ⟨a, rfl⟩

end FailsOnly

/-! ## Results of reported operations -/

namespace Reported

@[simp] theorem result_pure (a : α) : (pure a : Reported α).result = .ok a := rfl

@[simp] theorem notes_pure (a : α) : (pure a : Reported α).notes = .none := rfl

@[simp] theorem result_report (d : Diagnostic) : (report d).result = .ok () := rfl

@[simp] theorem result_consult (root : Text) : (consult root).result = .ok () := rfl

@[simp] theorem result_ofExcept (r : Except Fault α) : (ofExcept r).result = r := rfl

@[simp] theorem result_bind (x : Reported α) (f : α → Reported β) :
    (x >>= f).result = x.result >>= fun a => (f a).result := by
  change (x.bind f).result = _
  rw [Reported.bind]
  cases hx : x.result <;> rfl

@[simp] theorem result_mapM (f : α → Reported β) (xs : List α) :
    (xs.mapM f).result = xs.mapM fun x => (f x).result := by
  induction xs with
  | nil => rfl
  | cons x xs ih =>
    rw [List.mapM_cons, List.mapM_cons, result_bind]
    simp only [result_bind, ih, result_pure]
    rfl

theorem mapM_congr {f g : α → Reported β} {xs : List α} (h : ∀ x ∈ xs, f x = g x) :
    xs.mapM f = xs.mapM g := by
  induction xs with
  | nil => rfl
  | cons x xs ih =>
    rw [List.forall_mem_cons] at h
    rw [List.mapM_cons, List.mapM_cons, h.1, ih h.2]

/-! ## Notes of reported operations -/

variable {x : Reported α} {f : α → Reported β}

theorem diagnostics_bind_of_ok {a : α} (hx : x.result = .ok a) :
    (x >>= f).notes.diagnostics = x.notes.diagnostics ++ (f a).notes.diagnostics := by
  change (x.bind f).notes.diagnostics = _
  rw [Reported.bind, hx]
  rfl

theorem diagnostics_bind_of_error {e : Fault} (hx : x.result = .error e) :
    (x >>= f).notes.diagnostics = x.notes.diagnostics := by
  change (x.bind f).notes.diagnostics = _
  rw [Reported.bind, hx]

/-- To give a result another form makes no report. -/
theorem diagnostics_bind_pure (x : Reported α) (g : α → β) :
    (x >>= fun a => pure (g a)).notes.diagnostics = x.notes.diagnostics := by
  cases hx : x.result with
  | error e => exact diagnostics_bind_of_error hx
  | ok a => rw [diagnostics_bind_of_ok hx, notes_pure, Notes.none, List.append_nil]

/-- A sequence of operations that all have a result makes their reports in order. -/
theorem diagnostics_mapM {f : α → Reported β} {xs : List α}
    (h : ∀ x ∈ xs, ∃ y, (f x).result = .ok y) :
    (xs.mapM f).notes.diagnostics = xs.flatMap fun x => (f x).notes.diagnostics := by
  induction xs with
  | nil => rfl
  | cons x xs ih =>
    rw [List.forall_mem_cons] at h
    obtain ⟨⟨y, hy⟩, hxs⟩ := h
    rw [List.mapM_cons, diagnostics_bind_of_ok hy, diagnostics_bind_pure, ih hxs, List.flatMap_cons]

/-- All reports of an operation have a property. -/
def ReportsOnly (D : Diagnostic → Prop) (x : Reported α) : Prop :=
  ∀ d ∈ x.notes.diagnostics, D d

namespace ReportsOnly

variable {D E : Diagnostic → Prop}

theorem of_nil (h : x.notes.diagnostics = []) : ReportsOnly D x :=
  fun _ hd => absurd (h ▸ hd) List.not_mem_nil

theorem report {d : Diagnostic} (h : D d) : ReportsOnly D (Reported.report d) :=
  fun _ hd => List.mem_singleton.1 hd ▸ h

theorem mono (h : ReportsOnly D x) (hDE : ∀ d, D d → E d) : ReportsOnly E x :=
  fun d hd => hDE d (h d hd)

/-- An operation after another reports what the first does, and then what the second does. -/
theorem bind (h : ReportsOnly D x) (hf : ∀ a, x.result = .ok a → ReportsOnly D (f a)) :
    ReportsOnly D (x >>= f) := by
  intro d hd
  cases hx : x.result with
  | error e => exact h d (diagnostics_bind_of_error hx ▸ hd)
  | ok a =>
    rw [diagnostics_bind_of_ok hx] at hd
    exact (List.mem_append.1 hd).elim (h d) (hf a hx d)

theorem mapM {f : α → Reported β} {xs : List α} (h : ∀ x ∈ xs, ReportsOnly D (f x)) :
    ReportsOnly D (xs.mapM f) := by
  induction xs with
  | nil => exact of_nil rfl
  | cons x xs ih =>
    rw [List.forall_mem_cons] at h
    rw [List.mapM_cons]
    exact h.1.bind fun _ _ => (ih h.2).bind fun _ _ => of_nil rfl

theorem filter_eq_self {shown : Diagnostic → Bool} (h : ReportsOnly (shown · = true) x) :
    x.notes.diagnostics.filter shown = x.notes.diagnostics :=
  List.filter_eq_self.2 h

theorem filter_eq_nil {shown : Diagnostic → Bool} (h : ReportsOnly (shown · = false) x) :
    x.notes.diagnostics.filter shown = [] :=
  List.filter_eq_nil_iff.2 fun d hd => Bool.not_eq_true _ ▸ h d hd

end ReportsOnly

/-- To leave out of a sequence operations that have results is to hide their reports, where these
can be told from those of the others. -/
theorem diagnostics_mapM_filter {f : α → Reported β} {keep : α → Bool} {shown : Diagnostic → Bool}
    {xs : List α} (hkept : ∀ x ∈ xs, keep x = true → ReportsOnly (shown · = true) (f x))
    (hleft : ∀ x ∈ xs, keep x = false →
      (∃ y, (f x).result = .ok y) ∧ ReportsOnly (shown · = false) (f x)) :
    ((xs.filter keep).mapM f).notes.diagnostics = (xs.mapM f).notes.diagnostics.filter shown := by
  induction xs with
  | nil => rfl
  | cons x xs ih =>
    rw [List.forall_mem_cons] at hkept hleft
    have hrest := ih hkept.2 hleft.2
    rw [List.mapM_cons]
    cases hx : keep x with
    | true =>
      rw [List.filter_cons_of_pos hx, List.mapM_cons]
      cases hresult : (f x).result with
      | error e =>
        -- The operation is the last of both sequences.
        rw [diagnostics_bind_of_error hresult, diagnostics_bind_of_error hresult,
          (hkept.1 hx).filter_eq_self]
      | ok y =>
        rw [diagnostics_bind_of_ok hresult, diagnostics_bind_of_ok hresult, diagnostics_bind_pure,
          diagnostics_bind_pure, List.filter_append, (hkept.1 hx).filter_eq_self, hrest]
    | false =>
      obtain ⟨⟨y, hy⟩, hhidden⟩ := hleft.1 hx
      rw [List.filter_cons_of_neg (Bool.not_eq_true _ ▸ hx), diagnostics_bind_of_ok hy,
        diagnostics_bind_pure, List.filter_append, hhidden.filter_eq_nil, List.nil_append, hrest]

end Reported

end Bindery

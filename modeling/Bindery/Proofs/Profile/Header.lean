import Bindery.Profile.Reader
import Bindery.Proofs.Text.Cut
import Mathlib.Data.List.TakeWhile

/-!
# Header lines

A line is a header exactly if it has the shape of one, and what is read from it are its parts.

* `Header.IsHeader`: the shape of a header line, `Header.read?_eq_none_iff` what has none.
* `Header.front`: what stands before the brace; with the body behind the brace this is the whole
  line: `Header.read?_eq_some_iff`.
-/

namespace Bindery.Header

/-- The shape of a header line: a name, perhaps a colon and a text without opening braces, an
opening brace and anything behind it. -/
def IsHeader (line : Text) : Prop :=
  ∃ name body, name ≠ [] ∧ (∀ c ∈ name, isNameChar c = true) ∧
    (line = name ++ '{' :: body ∨ ∃ parents, '{' ∉ parents ∧
      line = name ++ ':' :: (parents ++ '{' :: body))

/-! ## Reading the parts -/

section Shape

variable {name : Text} (hne : name ≠ []) (hname : ∀ c ∈ name, isNameChar c = true)

theorem takeWhile_append_of_not {p : Char → Bool} {s : Text} (hs : ∀ c ∈ s, p c = true) {c : Char}
    (hc : p c = false) (r : Text) :
    (s ++ c :: r).takeWhile p = s ∧ (s ++ c :: r).dropWhile p = c :: r := by
  rw [List.takeWhile_append_of_pos hs, List.dropWhile_append_of_pos hs, List.takeWhile_cons,
    List.dropWhile_cons, hc]
  simp

include hne hname

theorem read?_append (body : Text) : read? (name ++ '{' :: body) = some ⟨name, none, body⟩ := by
  obtain ⟨htake, hdrop⟩ := takeWhile_append_of_not hname (by decide : isNameChar '{' = false) body
  obtain ⟨c, r, rfl⟩ := List.exists_cons_of_ne_nil hne
  rw [read?, htake, hdrop]
  rfl

theorem read?_append_parents {parents : Text} (hparents : '{' ∉ parents) (body : Text) :
    read? (name ++ ':' :: (parents ++ '{' :: body)) = some ⟨name, some parents, body⟩ := by
  obtain ⟨htake, hdrop⟩ :=
    takeWhile_append_of_not hname (by decide : isNameChar ':' = false) (parents ++ '{' :: body)
  have hpass : ∀ c ∈ parents, (c != '{') = true := fun c hc =>
    bne_iff_ne.2 fun heq => hparents (heq ▸ hc)
  obtain ⟨htake', hdrop'⟩ := takeWhile_append_of_not hpass (by decide : ('{' != '{') = false) body
  obtain ⟨c, r, rfl⟩ := List.exists_cons_of_ne_nil hne
  rw [read?, htake, hdrop]
  simp only [htake', hdrop']

end Shape

/-! ## Writing the parts -/

/-- What stands before the opening brace of a header. -/
def front (h : Header) : Text :=
  match h.parents with
  | none => h.name
  | some parents => h.name ++ ':' :: parents

/-- The parts are what a header line can have. -/
structure IsProper (h : Header) : Prop where
  name_ne_nil : h.name ≠ []
  name_chars : ∀ c ∈ h.name, isNameChar c = true
  brace_notMem : ∀ parents ∈ h.parents, '{' ∉ parents

/-- The brace of a header is the first one of its line. -/
theorem IsProper.brace_notMem_front {h : Header} (hh : h.IsProper) : '{' ∉ h.front := by
  have hname : '{' ∉ h.name := fun hmem => absurd (hh.name_chars _ hmem) (by decide)
  rw [front]
  split
  · exact hname
  · next parents hparents =>
    have hbrace := hh.brace_notMem parents hparents
    simp [hname, hbrace]

/-- What is read from a line are its parts. -/
theorem isProper_of_read? {line : Text} {h : Header} (hline : read? line = some h) :
    h.IsProper ∧ line = h.front ++ '{' :: h.body := by
  have hsplit : line.takeWhile isNameChar ++ line.dropWhile isNameChar = line :=
    List.takeWhile_append_dropWhile
  have hname : ∀ c ∈ line.takeWhile isNameChar, isNameChar c = true :=
    fun c hc => List.mem_takeWhile_imp hc
  rw [read?] at hline
  split at hline
  · cases hline
  next hne =>
  split at hline
  · next body hbody =>
    obtain rfl := Option.some.inj hline
    rw [hbody] at hsplit
    exact ⟨⟨hne, hname, nofun⟩, hsplit.symm⟩
  · next r hr =>
    rw [hr] at hsplit
    split at hline
    · next brace body hbody =>
      obtain rfl := Option.some.inj hline
      -- What the search for a brace stops at is one.
      have hbrace := List.head?_dropWhile_not (· != '{') r
      rw [hbody] at hbrace
      obtain rfl : brace = '{' := by simpa using hbrace
      have hparents : r.takeWhile (· != '{') ++ '{' :: body = r := by
        rw [← hbody]
        exact List.takeWhile_append_dropWhile
      refine ⟨⟨hne, hname, ?_⟩, ?_⟩
      · rintro _ ⟨⟩
        exact fun hmem => absurd (List.mem_takeWhile_imp hmem) (by decide)
      · rw [front, List.append_assoc, List.cons_append, hparents]
        exact hsplit.symm
    · cases hline
  · cases hline

/-- A header is read from its parts and from nothing else. -/
theorem read?_eq_some_iff {line : Text} {h : Header} :
    read? line = some h ↔ h.IsProper ∧ line = h.front ++ '{' :: h.body := by
  refine ⟨isProper_of_read?, ?_⟩
  rintro ⟨⟨hne, hname, hbrace⟩, rfl⟩
  obtain ⟨name, parents, body⟩ := h
  cases parents with
  | none => exact read?_append hne hname body
  | some parents =>
    rw [front, List.append_assoc, List.cons_append]
    exact read?_append_parents hne hname (hbrace parents rfl) body

/-- The parts of a header are cut at the first brace of its line. -/
theorem read?_append_brace_eq_some_iff {s : Text} (hs : '{' ∉ s) {body : Text} {h : Header} :
    read? (s ++ '{' :: body) = some h ↔ h.IsProper ∧ s = h.front ∧ body = h.body := by
  rw [read?_eq_some_iff]
  refine and_congr_right fun hproper => ?_
  exact Text.append_cons_inj hs hproper.brace_notMem_front

/-- What stands behind the brace of a line makes it neither a header nor another one. -/
theorem read?_append_brace {s : Text} (hs : '{' ∉ s) (body body' : Text) :
    read? (s ++ '{' :: body') =
      (read? (s ++ '{' :: body)).map fun h => { h with body := body' } := by
  have hreplace {body body' : Text} {h : Header} (hread : read? (s ++ '{' :: body) = some h) :
      read? (s ++ '{' :: body') = some { h with body := body' } := by
    obtain ⟨⟨hne, hname, hbrace⟩, hparts, -⟩ := (read?_append_brace_eq_some_iff hs).1 hread
    exact (read?_append_brace_eq_some_iff hs).2 ⟨⟨hne, hname, hbrace⟩, hparts, rfl⟩
  cases hread : read? (s ++ '{' :: body) with
  | some h => exact hreplace hread
  | none =>
    refine Option.eq_none_iff_forall_ne_some.2 fun h hread' => ?_
    exact nomatch hread.symm.trans (hreplace hread')

theorem isHeader_of_read? {line : Text} {h : Header} (hline : read? line = some h) :
    IsHeader line := by
  obtain ⟨⟨hne, hname, hbrace⟩, rfl⟩ := isProper_of_read? hline
  obtain ⟨name, parents, body⟩ := h
  refine ⟨name, body, hne, hname, ?_⟩
  cases parents with
  | none => exact Or.inl rfl
  | some parents => exact Or.inr ⟨parents, hbrace parents rfl, List.append_assoc ..⟩

/-- A line is read as a header exactly if it has the shape of one. -/
theorem read?_eq_none_iff {line : Text} : read? line = none ↔ ¬IsHeader line := by
  constructor
  · rintro hnone ⟨name, body, hne, hname, rfl | ⟨parents, hparents, rfl⟩⟩
    · cases hnone.symm.trans (read?_append hne hname body)
    · cases hnone.symm.trans (read?_append_parents hne hname hparents body)
  · intro hnot
    cases hread : read? line with
    | none => rfl
    | some h => exact (hnot (isHeader_of_read? hread)).elim

theorem isHeader_iff_exists {line : Text} : IsHeader line ↔ ∃ h, read? line = some h := by
  rw [← Option.ne_none_iff_exists', ne_eq, read?_eq_none_iff, not_not]

instance (line : Text) : Decidable (IsHeader line) :=
  decidable_of_iff (¬read? line = none) (by rw [read?_eq_none_iff, not_not])

end Bindery.Header

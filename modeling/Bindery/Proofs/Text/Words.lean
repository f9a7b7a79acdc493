import Bindery.Proofs.Text.Line

/-!
# Words of a line

The words of a text are parts of it without blanks, and words that are written with a blank between
each two are read again.  A word is a line of its own.

* `IsWord`: a text that is one word.
* `isWord_of_mem_words`, `words_intercalate`: what is read are words, and all words are read.
-/

namespace Bindery.Text

/-- A text that is one word. -/
structure IsWord (s : Text) : Prop where
  ne_nil : s ≠ []
  no_blank : ∀ c ∈ s, isBlank c = false

theorem isWord_iff {s : Text} : IsWord s ↔ s ≠ [] ∧ ∀ c ∈ s, isBlank c = false :=
  ⟨fun ⟨hne, hblank⟩ => ⟨hne, hblank⟩, fun ⟨hne, hblank⟩ => ⟨hne, hblank⟩⟩

instance (s : Text) : Decidable (IsWord s) :=
  letI := List.decidableBAll (fun c => isBlank c = false) s
  decidable_of_iff _ isWord_iff.symm

/-- Whatever ends a line is blank. -/
theorem isBlank_of_isLineBreak {c : Char} (hc : isLineBreak c = true) : isBlank c = true := by
  simp only [isLineBreak, Bool.or_eq_true, Bool.and_eq_true, decide_eq_true_eq, beq_iff_eq] at hc
  simp only [isBlank, blankRanges, List.any_cons, List.any_nil, Bool.or_eq_true, Bool.and_eq_true,
    decide_eq_true_eq]
  omega

/-- A word is a line, and trimming does not change it. -/
theorem IsWord.isLine {s : Text} (hs : IsWord s) : IsLine s := by
  refine ⟨hs.ne_nil, trim_eq_self (fun c hc => ?_) (fun c hc => ?_), fun c hc => ?_⟩
  · exact hs.no_blank c (List.mem_of_head? hc)
  · exact hs.no_blank c (List.mem_of_getLast? hc)
  · rw [Bool.eq_false_iff]
    intro hbreak
    exact absurd ((hs.no_blank c hc).symm.trans (isBlank_of_isLineBreak hbreak)) nofun

/-! ## Reading words -/

theorem words_cons_of_isBlank {c : Char} (hc : isBlank c = true) (r : Text) :
    words (c :: r) = words r := by
  rw [words.eq_def]
  exact if_pos hc

/-- A character that is not blank begins a word of its own, or belongs to the first word behind
it. -/
theorem words_cons_of_not_isBlank {c : Char} (hc : isBlank c = false) (r : Text) :
    words (c :: r) = match r with
      | [] => [[c]]
      | d :: _ =>
        if isBlank d then [c] :: words r
        else match words r with
          | [] => [[c]]
          | w :: ws => (c :: w) :: ws := by
  rw [words.eq_def]
  exact if_neg (by simp [hc])

/-- What is read are words, with the characters of the text. -/
theorem isWord_of_mem_words {s w : Text} (h : w ∈ words s) : IsWord w ∧ ∀ c ∈ w, c ∈ s := by
  induction s generalizing w with
  | nil => exact absurd h List.not_mem_nil
  | cons c r ih =>
    have hrest : ∀ v ∈ words r, IsWord v ∧ ∀ d ∈ v, d ∈ c :: r := fun v hv =>
      ⟨(ih hv).1, fun d hd => List.mem_cons_of_mem c ((ih hv).2 d hd)⟩
    cases hc : isBlank c with
    | true =>
      rw [words_cons_of_isBlank hc] at h
      exact hrest w h
    | false =>
      have hsingle : IsWord [c] ∧ ∀ d ∈ [c], d ∈ c :: r :=
        ⟨⟨List.cons_ne_nil _ _, by simpa using hc⟩, by simp⟩
      rw [words_cons_of_not_isBlank hc] at h
      split at h
      · exact List.mem_singleton.1 h ▸ hsingle
      split at h
      · rcases List.mem_cons.1 h with rfl | h
        · exact hsingle
        · exact hrest w h
      split at h
      · exact List.mem_singleton.1 h ▸ hsingle
      · next v vs hwords =>
        rcases List.mem_cons.1 h with rfl | h
        · obtain ⟨hv, hmem⟩ := hrest v (hwords ▸ List.mem_cons_self)
          exact ⟨⟨List.cons_ne_nil _ _, List.forall_mem_cons.2 ⟨hc, hv.no_blank⟩⟩,
            List.forall_mem_cons.2 ⟨List.mem_cons_self, hmem⟩⟩
        · exact hrest w (hwords ▸ List.mem_cons_of_mem v h)

/-- A word is read from what begins with it, up to a blank or the end; the other words are read from
what follows. -/
theorem words_append {w : Text} (hw : IsWord w) {rest : Text}
    (hrest : ∀ c, rest.head? = some c → isBlank c = true) :
    words (w ++ rest) = w :: words rest := by
  obtain ⟨hne, hblank⟩ := hw
  induction w with
  | nil => exact (hne rfl).elim
  | cons c w ih =>
    rw [List.forall_mem_cons] at hblank
    rw [List.cons_append, words_cons_of_not_isBlank hblank.1]
    cases w with
    | nil =>
      cases rest with
      | nil => rfl
      | cons b rest => exact if_pos (hrest b rfl)
    | cons d w =>
      have hd : isBlank d = false := hblank.2 d List.mem_cons_self
      rw [List.cons_append]
      dsimp only
      rw [if_neg (by simp [hd]), ← List.cons_append, ih (List.cons_ne_nil d w) hblank.2]

/-- Words that are joined by blanks are read again. -/
theorem words_intercalate {b : Char} (hb : isBlank b = true) {ws : List Text}
    (hws : ∀ w ∈ ws, IsWord w) : words (List.intercalate [b] ws) = ws := by
  induction ws with
  | nil => rfl
  | cons w ws ih =>
    rw [List.forall_mem_cons] at hws
    cases ws with
    | nil =>
      rw [List.intercalate_singleton]
      have hword : words (w ++ []) = w :: words [] := words_append hws.1 nofun
      rwa [List.append_nil] at hword
    | cons v ws =>
      rw [List.intercalate_cons_cons, List.append_assoc, List.singleton_append,
        words_append hws.1 (by simp [hb]), words_cons_of_isBlank hb, ih hws.2]

/-- Words that are joined do not begin with a blank. -/
theorem trimLeft_intercalate {sep : Text} {ws : List Text} (hws : ∀ w ∈ ws, IsWord w) :
    trimLeft (List.intercalate sep ws) = List.intercalate sep ws := by
  refine trimLeft_of_head? fun c hc => ?_
  cases ws with
  | nil => cases hc
  | cons w ws =>
    have hw : IsWord w := hws w List.mem_cons_self
    have hhead : (List.intercalate sep (w :: ws)).head? = w.head? := by
      cases ws with
      | nil => rw [List.intercalate_singleton]
      | cons v ws =>
        rw [List.intercalate_cons_cons, List.append_assoc, List.head?_append_of_ne_nil _ hw.ne_nil]
    exact hw.no_blank c (List.mem_of_head? (hhead ▸ hc))

end Bindery.Text

import Bindery.Proofs.Glob.Compile

/-!
# Flawed patterns

A list of patterns is spoiled by a flaw of any of its alternatives.  What is put behind a pattern
does not mend it, so a list that compiles still does when its patterns are cut short by what has
neither braces nor brackets.

* `compile_eq_error`, `exists_compile_iff`: why a list does not compile.
* `read_translate`: what becomes of a single pattern.
* `patternFlaw?_append`, `exists_compile_of_append`: patterns that are cut short.
-/

namespace Bindery.Glob

open Regex

/-! ## Lists -/

theorem alternatives_filter (patterns : List Text) :
    alternatives (patterns.filter (!·.isEmpty)) = alternatives patterns := by
  rw [alternatives, List.filter_filter]
  simp [alternatives]

/-- The flaw that keeps a list from compiling is one of an alternative. -/
theorem compile_eq_error {patterns : List Text} {flaw : Flaw} (h : compile patterns = .error flaw) :
    ∃ alt ∈ alternatives patterns, patternFlaw? alt = some flaw := by
  by_cases hnil : alternatives patterns = []
  · rw [compile, hnil] at h
    cases h
  rcases compile_of_ne_nil hnil with ⟨flaw', hflaw, hcompile⟩ | ⟨r, -, hcompile, -⟩
  · obtain rfl := Except.error.inj (hcompile.symm.trans h)
    exact List.exists_of_findSome?_eq_some hflaw
  · cases hcompile.symm.trans h

/-- A list compiles unless one of its alternatives is flawed. -/
theorem exists_compile_iff {patterns : List Text} :
    (∃ r, compile patterns = .ok r) ↔ ∀ alt ∈ alternatives patterns, patternFlaw? alt = none := by
  constructor
  · rintro ⟨r, hr⟩ alt halt
    rcases compile_of_ne_nil (List.ne_nil_of_mem halt) with
      ⟨flaw, -, hcompile⟩ | ⟨r', hflaw, -, -⟩
    · exact absurd (hr.symm.trans hcompile) nofun
    · exact List.findSome?_eq_none_iff.1 hflaw alt halt
  · intro h
    cases hcompile : compile patterns with
    | ok r => exact ⟨r, rfl⟩
    | error flaw =>
      obtain ⟨alt, halt, hflaw⟩ := compile_eq_error hcompile
      exact absurd (hflaw.symm.trans (h alt halt)) nofun

/-- What becomes of a pattern without brace groups. -/
theorem read_translate (p : Text) :
    (∃ flaw, patternFlaw? p = some flaw ∧ Regex.read (translate p) = .error flaw) ∨
    (∃ r, patternFlaw? p = none ∧ Regex.read (translate p) = .ok r ∧
      ∀ path, r.isMatch path = true ↔ Accepts (pieces p) path) := by
  have hread := read_alternatives (List.cons_ne_nil p [])
  rw [List.map_singleton, List.intercalate_singleton, List.findSome?_singleton] at hread
  simpa using hread

/-- A pattern without brace groups compiles by itself unless it is flawed. -/
theorem read_translate_eq_error_iff {p : Text} {flaw : Flaw} :
    Regex.read (translate p) = .error flaw ↔ patternFlaw? p = some flaw := by
  rcases read_translate p with ⟨flaw', hflaw, hread⟩ | ⟨r, hflaw, hread, -⟩
  · rw [hflaw, hread]
    exact ⟨fun h => congrArg some (Except.error.inj h),
      fun h => congrArg Except.error (Option.some.inj h)⟩
  · rw [hflaw, hread]
    constructor <;> intro h <;> cases h

/-- A pattern without a flaw has an expression. -/
theorem exists_read_translate {p : Text} (h : patternFlaw? p = none) :
    ∃ r, Regex.read (translate p) = .ok r := by
  rcases read_translate p with ⟨flaw, hflaw, -⟩ | ⟨r, -, hr, -⟩
  · cases h.symm.trans hflaw
  · exact ⟨r, hr⟩

/-- The expression of a pattern matches the paths that the pattern accepts as it is read. -/
theorem isMatch_iff_of_read {p : Text} {r : Regex} (hr : Regex.read (translate p) = .ok r)
    (path : Text) : r.isMatch path = true ↔ Accepts (pieces p) path := by
  rcases read_translate p with ⟨flaw, -, hread⟩ | ⟨r', -, hread, hmatch⟩
  · cases hread.symm.trans hr
  · obtain rfl := Except.ok.inj (hread.symm.trans hr)
    exact hmatch path

/-! ## Patterns cut short -/

/-- A bracket before what has none is where it was. -/
theorem exists_of_append_eq {u v p t : Text} (ht : ']' ∉ t) (h : p ++ t = u ++ ']' :: v) :
    ∃ w, p = u ++ ']' :: w ∧ v = w ++ t := by
  rcases List.append_eq_append_iff.1 h with ⟨w, -, hw⟩ | ⟨w, rfl, hw⟩
  · exact absurd (hw ▸ List.mem_append_right w List.mem_cons_self) ht
  · cases w with
    | nil =>
      rw [List.nil_append] at hw
      exact absurd (hw ▸ List.mem_cons_self) ht
    | cons c w =>
      obtain ⟨rfl, rfl⟩ := List.cons.inj hw
      exact ⟨w, rfl, rfl⟩

/-- Without brackets behind it, a class ends where it did. -/
theorem closedClass_append_iff {p body t after : Text} (ht : ']' ∉ t) :
    ClosedClass (p ++ t) body after ↔ ∃ w, ClosedClass p body w ∧ after = w ++ t := by
  constructor
  · intro h
    generalize hq : p ++ t = q at h
    cases h with
    | plain hc hmembers =>
      obtain ⟨w, rfl, rfl⟩ := exists_of_append_eq ht hq
      exact ⟨w, .plain hc hmembers, rfl⟩
    | negated hm hmembers =>
      obtain ⟨w, rfl, rfl⟩ := exists_of_append_eq ht hq
      exact ⟨w, .negated hm hmembers, rfl⟩
  · rintro ⟨w, h, rfl⟩
    cases h with
    | plain hc hmembers =>
      rw [List.append_assoc]
      exact .plain hc hmembers
    | negated hm hmembers =>
      rw [List.append_assoc]
      exact .negated hm hmembers

/-- The classes of a pattern are still there when something without brackets is put behind it. -/
theorem Reading.append {start : Bool} {p t : Text} {ps : List Piece} (h : Reading start p ps)
    (ht : ']' ∉ t) :
    ∃ qs, Reading start (p ++ t) qs ∧ ∀ body, .set body ∈ ps → .set body ∈ qs := by
  -- Stars at the end may be read in another way, but there is no class behind them.
  induction h with
  | nil start => exact ⟨_, reading_piecesFrom start t, nofun⟩
  | directories _ ih =>
    obtain ⟨qs, hqs, hset⟩ := ih
    exact ⟨_, .directories hqs, fun body hbody => by simpa using hset body (by simpa using hbody)⟩
  | anything => exact ⟨_, reading_piecesFrom true _, by simp⟩
  | @stars start p ps hp hread ih =>
    obtain ⟨qs, hqs, hset⟩ := ih
    refine ⟨_, .stars (fun hstart => ?_) hqs, fun body hbody => ?_⟩
    · obtain ⟨hne, hslash⟩ := hp hstart
      obtain ⟨c, r, rfl⟩ := List.exists_cons_of_ne_nil hne
      exact ⟨nofun, hslash⟩
    · simpa using hset body (by simpa using hbody)
  | @star start p ps hp hread ih =>
    by_cases hne : p = []
    · subst hne
      obtain rfl := hread.eq_piecesFrom
      exact ⟨_, reading_piecesFrom start _, by simp [piecesFrom]⟩
    · obtain ⟨qs, hqs, hset⟩ := ih
      obtain ⟨c, r, rfl⟩ := List.exists_cons_of_ne_nil hne
      exact ⟨_, .star hp hqs, fun body hbody => by simpa using hset body (by simpa using hbody)⟩
  | one _ ih =>
    obtain ⟨qs, hqs, hset⟩ := ih
    exact ⟨_, .one hqs, fun body hbody => by simpa using hset body (by simpa using hbody)⟩
  | @set start p body after ps hp _ ih =>
    obtain ⟨qs, hqs, hset⟩ := ih
    refine ⟨_, .set ((closedClass_append_iff ht).2 ⟨after, hp, rfl⟩) hqs, fun other hother => ?_⟩
    rcases List.mem_cons.1 hother with heq | hother
    · exact List.mem_cons.2 (Or.inl heq)
    · exact List.mem_cons_of_mem _ (hset other hother)
  | bracket hp _ ih =>
    obtain ⟨qs, hqs, hset⟩ := ih
    refine ⟨_, .bracket (fun body after hclass => ?_) hqs, fun body hbody => ?_⟩
    · obtain ⟨w, hclosed, -⟩ := (closedClass_append_iff ht).1 hclass
      exact hp body w hclosed
    · simpa using hset body (by simpa using hbody)
  | escaped _ ih =>
    obtain ⟨qs, hqs, hset⟩ := ih
    exact ⟨_, .escaped hqs, fun body hbody => by simpa using hset body (by simpa using hbody)⟩
  | @literal start c p ps hc hback hread ih =>
    by_cases hne : p = []
    · subst hne
      obtain rfl := hread.eq_piecesFrom
      exact ⟨_, reading_piecesFrom start _, by simp [piecesFrom]⟩
    · obtain ⟨qs, hqs, hset⟩ := ih
      exact ⟨_, .literal hc (fun h => absurd (hback h) hne) hqs,
        fun body hbody => by simpa using hset body (by simpa using hbody)⟩

/-- What is without brackets mends no flaw before it. -/
theorem patternFlaw?_of_append {p t : Text} (ht : ']' ∉ t) (h : patternFlaw? (p ++ t) = none) :
    patternFlaw? p = none := by
  rw [patternFlaw?_eq_none_iff] at h ⊢
  rintro ⟨ps, body, hps, hbody, hreversed⟩
  obtain ⟨qs, hqs, hset⟩ := hps.append ht
  exact h ⟨qs, body, hqs, hset body hbody, hreversed⟩

/-- Patterns that are some of a list that compiles, cut short, compile. -/
theorem exists_compile_of_append {patterns shorter : List Text} {t : Text}
    (hbrace : ∀ c ∈ t, isBrace c = false) (hbracket : ']' ∉ t)
    (hshorter : ∀ p ∈ shorter, p ++ t ∈ patterns) (h : ∃ r, compile patterns = .ok r) :
    ∃ r, compile shorter = .ok r := by
  rw [exists_compile_iff] at h ⊢
  intro alt halt
  obtain ⟨p, hp, hne, halt⟩ := mem_alternatives_iff.1 halt
  refine patternFlaw?_of_append hbracket (h (alt ++ t) ?_)
  refine mem_alternatives_iff.2 ⟨p ++ t, hshorter p hp, by simp [hne], ?_⟩
  rw [expandBraces_append_right hbrace]
  exact List.mem_map_of_mem halt

end Bindery.Glob

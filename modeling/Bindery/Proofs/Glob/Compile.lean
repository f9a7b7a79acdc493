import Bindery.Proofs.Glob.Braces
import Bindery.Proofs.Glob.Reading
import Bindery.Proofs.Regex.Reach
import Mathlib.Data.List.Basic

/-!
# Compiling patterns

The text that a pattern is translated to is read again by another grammar, and nothing gets lost on
the way: every piece has its tokens and its expression, class bodies come back as the sets that they
stand for, and the whole expression matches what the pieces accept.  The one fault is a range of a
class whose ends are in the wrong order.

* `lex_flatMap_toText`, `build_alternatives`: what the reader makes of the text.
* `matches_patternRegex_iff`: what the expression of pieces matches.
* `compile_spec`: the whole way, from patterns to the paths that match.
-/

namespace Bindery.Glob

open Regex

/-! ## Classes -/

/-- The two ends of a range are in the wrong order. -/
def isReversed (range : Char × Char) : Bool :=
  range.2 < range.1

/-- A backslash is doubled in the text of a class, any other character stands for itself. -/
def classChar (c : Char) : Text :=
  if c = '\\' then ['\\', '\\'] else [c]

theorem classMember_classChar (c : Char) (s : Text) :
    classMember (classChar c ++ s) = some (classChar c, c, s) := by
  by_cases hc : c = '\\'
  · subst hc
    rfl
  · rw [classChar, if_neg hc, List.singleton_append, classMember]
    rintro d r rfl
    exact absurd rfl hc

/-- The text of a member begins with the member or with a backslash. -/
theorem exists_classChar (c : Char) (s : Text) :
    ∃ d r, classChar c ++ s = d :: r ∧ (d = c ∨ d = '\\') := by
  by_cases hc : c = '\\'
  · exact ⟨'\\', '\\' :: s, by rw [classChar, if_pos hc]; rfl, Or.inr rfl⟩
  · exact ⟨c, s, by rw [classChar, if_neg hc]; rfl, Or.inl rfl⟩

theorem passClose_flatMap {r : Text} (h : ']' ∉ r) (rest : Text) :
    passClose (r.flatMap classChar ++ ']' :: rest) =
      (r.isEmpty, if r.isEmpty then rest else r.flatMap classChar ++ ']' :: rest) := by
  cases r with
  | nil => rfl
  | cons c r =>
    obtain ⟨d, t, hd, hdc⟩ := exists_classChar c (r.flatMap classChar ++ ']' :: rest)
    have hne : d ≠ ']' := by
      rcases hdc with rfl | rfl
      · exact fun hd => h (hd ▸ List.mem_cons_self)
      · exact nofun
    rw [List.flatMap_cons, List.append_assoc, hd, passClose]
    · rfl
    · intro r hr
      exact hne (List.cons.inj hr).1

/-- Two members around a hyphen are a range. -/
theorem classItem_range {lo hi : Char} {r : Text} (hhi : hi ≠ ']') (rest : Text) :
    classItem ((lo :: '-' :: hi :: r).flatMap classChar ++ ']' :: rest) =
      if hi < lo then .error (.badRange (classChar lo) (classChar hi))
      else .ok ([(lo, hi)], passClose (r.flatMap classChar ++ ']' :: rest)) := by
  have htext : (lo :: '-' :: hi :: r).flatMap classChar ++ ']' :: rest =
      classChar lo ++ '-' :: (classChar hi ++ (r.flatMap classChar ++ ']' :: rest)) := by
    simp [List.flatMap_cons, classChar]
  have hclose : ∀ t, classChar hi ++ (r.flatMap classChar ++ ']' :: rest) ≠ ']' :: t := by
    intro t ht
    obtain ⟨d, u, hd, hdc⟩ := exists_classChar hi (r.flatMap classChar ++ ']' :: rest)
    obtain ⟨rfl, -⟩ := List.cons.inj (hd.symm.trans ht)
    rcases hdc with h | h
    · exact hhi h.symm
    · exact absurd h nofun
  rw [htext, classItem, classMember_classChar]
  split
  · next h => exact absurd h nofun
  · next h =>
    simp only [Option.some.injEq, Prod.mk.injEq, List.cons.injEq] at h
    exact absurd h.2.2.2 (hclose _)
  · next h =>
    simp only [Option.some.injEq, Prod.mk.injEq, List.cons.injEq] at h
    obtain ⟨rfl, rfl, -, rfl⟩ := h
    rw [classMember_classChar]
  · next hrange h =>
    simp only [Option.some.injEq, Prod.mk.injEq] at h
    obtain ⟨rfl, rfl, rfl⟩ := h
    exact (hrange _ rfl).elim

/-- A hyphen at the end of a class is a member. -/
theorem classItem_hyphen (c : Char) (rest : Text) :
    classItem ([c, '-'].flatMap classChar ++ ']' :: rest) =
      .ok ([(c, c), ('-', '-')], true, rest) := by
  have htext : [c, '-'].flatMap classChar ++ ']' :: rest = classChar c ++ '-' :: ']' :: rest := by
    simp [List.flatMap_cons, classChar]
  rw [htext, classItem, classMember_classChar]
  rfl

/-- A member without a hyphen after it stands for itself. -/
theorem classItem_single {c : Char} {r : Text} (hr : r.head? ≠ some '-') (rest : Text) :
    classItem ((c :: r).flatMap classChar ++ ']' :: rest) =
      .ok ([(c, c)], passClose (r.flatMap classChar ++ ']' :: rest)) := by
  have hhyphen : ∀ t, r.flatMap classChar ++ ']' :: rest ≠ '-' :: t := by
    intro t ht
    cases r with
    | nil => exact absurd ht nofun
    | cons d r =>
      rw [List.flatMap_cons, List.append_assoc] at ht
      obtain ⟨e, u, he, hed⟩ := exists_classChar d (r.flatMap classChar ++ ']' :: rest)
      obtain ⟨rfl, -⟩ := List.cons.inj (he.symm.trans ht)
      rcases hed with rfl | h
      · exact hr rfl
      · exact absurd h nofun
  rw [List.flatMap_cons, List.append_assoc, classItem, classMember_classChar]
  split
  · next h => exact absurd h nofun
  · next h =>
    simp only [Option.some.injEq, Prod.mk.injEq] at h
    exact absurd h.2.2 (hhyphen _)
  · next h =>
    simp only [Option.some.injEq, Prod.mk.injEq] at h
    exact absurd h.2.2 (hhyphen _)
  · next h =>
    simp only [Option.some.injEq, Prod.mk.injEq] at h
    obtain ⟨rfl, rfl, rfl⟩ := h
    rfl

/-- What follows an item decides whether the class goes on. -/
theorem classRanges_of_item {s r : Text} {ranges : List (Char × Char)} {closed : Bool}
    (h : classItem s = .ok (ranges, closed, r)) :
    classRanges s =
      if closed then .ok (ranges, r) else (classRanges r).map fun x => (ranges ++ x.1, x.2) := by
  rw [classRanges]
  split
  · next h' => cases h.symm.trans h'
  · next h' =>
    obtain ⟨rfl, rfl, rfl⟩ := Prod.mk.injEq .. ▸ Prod.mk.inj (Except.ok.inj (h.symm.trans h'))
    rfl
  · next h' =>
    obtain ⟨rfl, rfl, rfl⟩ := Prod.mk.injEq .. ▸ Prod.mk.inj (Except.ok.inj (h.symm.trans h'))
    rfl

/-- An item is followed by the members that are left, or by the end of the class. -/
theorem classRanges_of_item_flatMap {s r rest : Text} {ranges : List (Char × Char)}
    (hr : ']' ∉ r)
    (h : classItem s = .ok (ranges, passClose (r.flatMap classChar ++ ']' :: rest))) :
    classRanges s =
      if r = [] then .ok (ranges, rest)
      else (classRanges (r.flatMap classChar ++ ']' :: rest)).map fun x =>
        (ranges ++ x.1, x.2) := by
  rw [passClose_flatMap hr] at h
  rw [classRanges_of_item h]
  cases r <;> rfl

/-- A fault of the first item is the fault of the class. -/
theorem classRanges_of_item_error {s : Text} {e : Flaw} (h : classItem s = .error e) :
    classRanges s = .error e := by
  rw [classRanges]
  split
  · next h' => rw [Except.error.inj (h.symm.trans h')]
  · next h' => cases h.symm.trans h'
  · next h' => cases h.symm.trans h'

/-- The ranges of a class, or the fault of the first one that is reversed. -/
def rangesOrFlaw (ranges : List (Char × Char)) (rest : Text) :
    Except Flaw (List (Char × Char) × Text) :=
  match ranges.find? isReversed with
  | none => .ok (ranges, rest)
  | some range => .error (.badRange (classChar range.1) (classChar range.2))

theorem rangesOrFlaw_cons {range : Char × Char} (h : isReversed range = false)
    (ranges : List (Char × Char)) (rest : Text) :
    rangesOrFlaw (range :: ranges) rest =
      (rangesOrFlaw ranges rest).map fun x => (range :: x.1, x.2) := by
  rw [rangesOrFlaw, rangesOrFlaw, List.find?_cons_of_neg (by simp [h])]
  cases ranges.find? isReversed <;> rfl

/-- The ranges of a class are read as they stand. -/
theorem classRanges_flatMap {s : Text} (hs : s ≠ []) (h : ']' ∉ s.tail) (rest : Text) :
    classRanges (s.flatMap classChar ++ ']' :: rest) = rangesOrFlaw (memberRanges s) rest := by
  fun_induction memberRanges s with
  | case1 lo hi r ih =>
    have hhi : hi ≠ ']' := fun hc => h (by simp [hc])
    have hr : ']' ∉ r := fun hc => h (by simp [hc])
    have hitem := @classItem_range lo hi r hhi rest
    by_cases hlt : hi < lo
    · rw [if_pos hlt] at hitem
      rw [classRanges_of_item_error hitem, rangesOrFlaw,
        List.find?_cons_of_pos (by simp [isReversed, hlt])]
    · rw [if_neg hlt] at hitem
      rw [classRanges_of_item_flatMap hr hitem, rangesOrFlaw_cons (by simp [isReversed, hlt])]
      split
      · next hnil => rw [hnil]; rfl
      · next hne => rw [ih hne fun hc => hr (List.mem_of_mem_tail hc)]; rfl
  | case2 c r hrange ih =>
    rw [rangesOrFlaw_cons (by simp [isReversed])]
    by_cases hhyphen : r.head? = some '-'
    · -- After this hyphen nothing may follow, or there would be a range.
      obtain ⟨t, rfl⟩ := List.head?_eq_some_iff.1 hhyphen
      cases t with
      | nil =>
        rw [classRanges_of_item (classItem_hyphen c rest)]
        simp [memberRanges, rangesOrFlaw, isReversed, Except.map]
      | cons d t => exact (hrange d t rfl).elim
    · rw [classRanges_of_item_flatMap (r := r) h (classItem_single hhyphen rest)]
      split
      · next hnil => rw [hnil]; rfl
      · next hne => rw [ih hne fun hc => h (List.mem_of_mem_tail hc)]; rfl
  | case3 => exact (hs rfl).elim

/-- The set of a class, or the fault of its first range that is reversed. -/
def setOrFlaw (set : CharSet) (rest : Text) : Except Flaw (CharSet × Text) :=
  (rangesOrFlaw set.ranges rest).map fun x => (⟨set.negated, x.1⟩, x.2)

/-- A closed class comes back as the set that its body stands for. -/
theorem classSet_classText {s body after : Text} (h : ClosedClass s body after) (rest : Text) :
    classSet (classText body ++ ']' :: rest) = setOrFlaw (bodySet body) rest := by
  cases h with
  | @plain c members _ hc hmem =>
    -- The body does not begin with a sign of negation, and is read as it stands.
    have htext : classText (c :: members) = (c :: members).flatMap classChar := by
      rw [classText]
      · rfl
      · rintro r heq
        exact hc.1 (List.cons.inj heq).1
    have hbody : bodySet (c :: members) = ⟨false, memberRanges (c :: members)⟩ := by
      rw [bodySet]
      · rintro r heq
        exact hc.1 (List.cons.inj heq).1
      · rintro r heq
        exact hc.2 (List.cons.inj heq).1
    obtain ⟨d, t, hd, hdc⟩ := exists_classChar c (members.flatMap classChar ++ ']' :: rest)
    rw [htext, hbody, classSet, classRanges_flatMap (s := c :: members) nofun hmem]
    · rfl
    · rintro r heq
      rw [List.flatMap_cons, List.append_assoc, hd] at heq
      obtain ⟨rfl, -⟩ := List.cons.inj heq
      rcases hdc with h | h
      · exact hc.2 h.symm
      · exact absurd h nofun
  | @negated m c members _ hm hmem =>
    have htext : classText (m :: c :: members) = '^' :: (c :: members).flatMap classChar := by
      rcases hm with rfl | rfl <;> rfl
    have hbody : bodySet (m :: c :: members) = ⟨true, memberRanges (c :: members)⟩ := by
      rcases hm with rfl | rfl <;> rfl
    rw [htext, hbody, List.cons_append, classSet,
      classRanges_flatMap (s := c :: members) nofun hmem]
    rfl

/-! ## Tokens -/

/-- The tokens that the text of a piece is read as. -/
def Piece.tokens : Piece → List Token
  | .directories => [.openGroup, .set .all, .star, .set (.single '/'), .closeGroup, .question]
  | .anything => [.set .all, .star]
  | .part => [.set (.allBut '/'), .star]
  | .one => [.set (.allBut '/')]
  | .set body => [.set (bodySet body)]
  | .char c => [.set (.single c)]

/-- The fault of a class whose ranges are not all in order. -/
def Piece.flaw? : Piece → Option Flaw
  | .set body => ((bodySet body).ranges.find? isReversed).map fun range =>
      .badRange (classChar range.1) (classChar range.2)
  | _ => none

/-- The body of a class is one that a closed class can have. -/
def Piece.Proper : Piece → Prop
  | .set body => ∃ s after, ClosedClass s body after
  | _ => True

theorem lex_escaped (c : Char) (rest : Text) :
    lex (escaped c ++ rest) = (lex rest).map (.set (.single c) :: ·) := by
  rw [escaped]
  split
  · next hc =>
    have hz : c ≠ 'Z' := by
      rintro rfl
      exact absurd hc (by decide)
    rw [List.cons_append, List.singleton_append, lex]
    exact hz
  · next hc =>
    rw [List.singleton_append, lex]
    -- Every character that has a meaning of its own in an expression is escaped.
    all_goals
      intros
      subst_vars
      exact hc (by decide)

theorem lex_bracket (r : Text) :
    lex ('[' :: r) = (classSet r).bind fun x => (lex x.2).map (.set x.1 :: ·) := by
  rw [lex]
  split
  · next h => rw [h]; rfl
  · next h => rw [h]; rfl

/-- A closed class is one token, unless one of its ranges is reversed. -/
theorem lex_set {body s after : Text} (h : ClosedClass s body after) (rest : Text) :
    lex ((Piece.set body).toText ++ rest) =
      match (Piece.set body).flaw? with
      | none => (lex rest).map (.set (bodySet body) :: ·)
      | some flaw => .error flaw := by
  have htext : (Piece.set body).toText ++ rest = '[' :: (classText body ++ ']' :: rest) := by
    change '[' :: classText body ++ [']'] ++ rest = _
    rw [List.append_assoc, List.singleton_append, List.cons_append]
  rw [htext, lex_bracket, classSet_classText h, setOrFlaw, rangesOrFlaw, Piece.flaw?]
  cases (bodySet body).ranges.find? isReversed <;> rfl

/-- A piece is read as its tokens, unless it is at fault. -/
theorem lex_toText_append {p : Piece} (hp : p.Proper) (rest : Text) :
    lex (p.toText ++ rest) =
      match p.flaw? with
      | none => (lex rest).map (p.tokens ++ ·)
      | some flaw => .error flaw := by
  have hclass : ∀ t : Text, lex ("[^/]".toList ++ t) =
      (lex t).map (.set (.allBut '/') :: ·) := by
    intro t
    have hclosed : ClosedClass ('^' :: '/' :: [] ++ ']' :: []) ('^' :: '/' :: []) [] :=
      .negated (Or.inr rfl) nofun
    exact lex_set hclosed t
  cases p with
  | directories =>
    change lex ('(' :: '?' :: ':' :: '.' :: '*' :: '/' :: ')' :: '?' :: rest) = _
    have hslash : lex ('/' :: ')' :: '?' :: rest) =
        (lex (')' :: '?' :: rest)).map (.set (.single '/') :: ·) := lex_escaped '/' _
    rw [lex, lex, lex, hslash, lex, lex]
    cases lex rest <;> rfl
  | anything =>
    change lex ('.' :: '*' :: rest) = _
    rw [lex, lex]
    cases lex rest <;> rfl
  | part =>
    change lex ("[^/]".toList ++ '*' :: rest) = _
    rw [hclass, lex]
    cases lex rest <;> rfl
  | one => exact hclass rest
  | set body =>
    obtain ⟨s, after, h⟩ := hp
    exact lex_set h rest
  | char c => exact lex_escaped c rest

/-- Pieces are read as their tokens one after the other, unless one is at fault. -/
theorem lex_flatMap_toText {ps : List Piece} (hps : ∀ p ∈ ps, p.Proper) (rest : Text) :
    lex (ps.flatMap Piece.toText ++ rest) =
      match ps.findSome? Piece.flaw? with
      | none => (lex rest).map (ps.flatMap Piece.tokens ++ ·)
      | some flaw => .error flaw := by
  induction ps with
  | nil => cases h : lex rest <;> simp [h, Except.map]
  | cons p ps ih =>
    rw [List.forall_mem_cons] at hps
    rw [List.flatMap_cons, List.append_assoc, lex_toText_append hps.1, List.findSome?_cons]
    cases p.flaw? with
    | some flaw => rfl
    | none =>
      rw [ih hps.2]
      cases ps.findSome? Piece.flaw? with
      | some flaw => rfl
      | none => cases lex rest <;> simp [Except.map]

/-- The tokens of a pattern without brace groups. -/
def patternTokens (ps : List Piece) : List Token :=
  .openGroup :: ps.flatMap Piece.tokens ++ [.closeGroup, .atEnd]

/-- The pieces of a pattern have bodies of closed classes. -/
theorem Reading.proper {start : Bool} {p : Text} {ps : List Piece} (h : Reading start p ps) :
    ∀ q ∈ ps, q.Proper := by
  induction h with
  | nil => exact nofun
  | anything => exact List.forall_mem_singleton.2 trivial
  | set hclass _ ih => exact List.forall_mem_cons.2 ⟨⟨_, _, hclass⟩, ih⟩
  | _ => exact List.forall_mem_cons.2 ⟨trivial, by assumption⟩

/-- The fault of a pattern without brace groups. -/
def patternFlaw? (p : Text) : Option Flaw :=
  (pieces p).findSome? Piece.flaw?

/-- The text of a pattern is read as its tokens, unless it is at fault. -/
theorem lex_translate_append (p rest : Text) :
    lex (translate p ++ rest) =
      match patternFlaw? p with
      | none => (lex rest).map (patternTokens (pieces p) ++ ·)
      | some flaw => .error flaw := by
  have htext : translate p ++ rest = '(' :: '?' :: 's' :: ':' ::
      ((pieces p).flatMap Piece.toText ++ ')' :: '\\' :: 'Z' :: rest) := by
    change ['(', '?', 's', ':'] ++ (pieces p).flatMap Piece.toText ++ [')', '\\', 'Z'] ++ rest = _
    simp
  have hproper : ∀ q ∈ pieces p, q.Proper := (reading_piecesFrom true p).proper
  rw [htext, lex, lex_flatMap_toText hproper, lex, lex, patternFlaw?]
  cases (pieces p).findSome? Piece.flaw? with
  | some flaw => rfl
  | none => cases lex rest <;> simp [Except.map, patternTokens]

/-- The choice of patterns is read as their tokens with bars between them, unless one of them is at
fault. -/
theorem lex_alternatives {ps : List Text} (hps : ps ≠ []) :
    lex (List.intercalate ['|'] (ps.map translate)) =
      match ps.findSome? patternFlaw? with
      | none => .ok (List.intercalate [.bar] (ps.map fun p => patternTokens (pieces p)))
      | some flaw => .error flaw := by
  induction ps with
  | nil => exact (hps rfl).elim
  | cons p ps ih =>
    cases ps with
    | nil =>
      have h := lex_translate_append p []
      rw [List.append_nil] at h
      simp only [List.map_cons, List.map_nil, List.intercalate_singleton, h, List.findSome?_cons,
        List.findSome?_nil]
      cases patternFlaw? p <;> simp [lex, Except.map]
    | cons q ps =>
      rw [List.map_cons, List.map_cons, List.intercalate_cons_cons, List.append_assoc,
        lex_translate_append, List.singleton_append, lex, ← List.map_cons,
        ih (List.cons_ne_nil q ps), List.findSome?_cons (a := p)]
      cases patternFlaw? p with
      | some flaw => rfl
      | none => cases (q :: ps).findSome? patternFlaw? <;> simp [Except.map]

/-! ## Expressions -/

/-- The expression that the tokens of a piece are built into. -/
def Piece.toRegex : Piece → Regex
  | .directories => .opt (ofList [.many .all, .set (.single '/')])
  | .anything => .many .all
  | .part => .many (.allBut '/')
  | .one => .set (.allBut '/')
  | .set body => .set (bodySet body)
  | .char c => .set (.single c)

/-- The expression of a pattern without brace groups. -/
def patternRegex (ps : List Piece) : Regex :=
  ofList [ofList (ps.map Piece.toRegex), .atEnd]

theorem build_set {cs : CharSet} {ts : List Token} (hts : ts.head? ≠ some .star) (g : Regex.Group)
    (outer : List Regex.Group) :
    build (.set cs :: ts) g outer = build ts (g.push (.set cs)) outer := by
  rw [build]
  rintro r rfl
  exact hts rfl

theorem build_tokens_append (p : Piece) {ts : List Token} (hts : ts.head? ≠ some .star)
    (g : Regex.Group) (outer : List Regex.Group) :
    build (p.tokens ++ ts) g outer = build ts (g.push p.toRegex) outer := by
  cases p with
  | directories =>
    change build (.openGroup :: .set .all :: .star :: .set (.single '/') :: .closeGroup ::
      .question :: ts) g outer = _
    rw [build, build, build_set (by simp), build]
    rfl
  | anything =>
    change build (.set .all :: .star :: ts) g outer = _
    rw [build]
    rfl
  | part =>
    change build (.set (.allBut '/') :: .star :: ts) g outer = _
    rw [build]
    rfl
  | one => exact build_set hts g outer
  | set body => exact build_set hts g outer
  | char c => exact build_set hts g outer

/-- No piece begins with a star. -/
theorem head?_flatMap_tokens (ps : List Piece) {ts : List Token} (hts : ts.head? ≠ some .star) :
    (ps.flatMap Piece.tokens ++ ts).head? ≠ some .star := by
  cases ps with
  | nil => exact hts
  | cons p ps => cases p <;> exact nofun

theorem build_flatMap_tokens (ps : List Piece) {ts : List Token} (hts : ts.head? ≠ some .star)
    (g : Regex.Group) (outer : List Regex.Group) :
    build (ps.flatMap Piece.tokens ++ ts) g outer =
      build ts { g with parts := g.parts ++ ps.map Piece.toRegex } outer := by
  induction ps generalizing g with
  | nil => simp
  | cons p ps ih =>
    rw [List.flatMap_cons, List.append_assoc, build_tokens_append p (head?_flatMap_tokens ps hts),
      ih]
    simp [Group.push]

theorem build_patternTokens (ps : List Piece) (ts : List Token) (choices : Option Regex) :
    build (patternTokens ps ++ ts) ⟨choices, []⟩ [] =
      build ts ⟨choices, [ofList (ps.map Piece.toRegex), .atEnd]⟩ [] := by
  have htokens : patternTokens ps ++ ts =
      .openGroup :: (ps.flatMap Piece.tokens ++ .closeGroup :: .atEnd :: ts) := by
    simp [patternTokens]
  rw [htokens, build, build_flatMap_tokens ps (by simp), build, build]
  · rfl
  · rintro r heq
    exact absurd heq nofun

/-! ## What the expressions match -/

/-- The texts that a piece stands for by itself. -/
def Piece.Spans : Piece → Text → Prop
  | .directories, u => u = [] ∨ ∃ t, u = t ++ ['/']
  | .anything, _ => True
  | .part, u => '/' ∉ u
  | .one, u => ∃ c, c ≠ '/' ∧ u = [c]
  | .set body, u => ∃ c, (bodySet body).holds c = true ∧ u = [c]
  | .char c, u => u = [c]

/-- A list of pieces accepts what its first piece spans and then what the others accept. -/
theorem accepts_cons_iff {p : Piece} {ps : List Piece} {s : Text} :
    Accepts (p :: ps) s ↔ ∃ u v, s = u ++ v ∧ p.Spans u ∧ Accepts ps v := by
  constructor
  · intro h
    cases h with
    | noDirectories h => exact ⟨[], s, rfl, Or.inl rfl, h⟩
    | directories t h => exact ⟨t ++ ['/'], _, by simp, Or.inr ⟨t, rfl⟩, h⟩
    | anything t h => exact ⟨t, _, rfl, trivial, h⟩
    | part ht h => exact ⟨_, _, rfl, ht, h⟩
    | one hc h => exact ⟨[_], _, rfl, ⟨_, hc, rfl⟩, h⟩
    | set hc h => exact ⟨[_], _, rfl, ⟨_, hc, rfl⟩, h⟩
    | char c h => exact ⟨[c], _, rfl, rfl, h⟩
  · rintro ⟨u, v, rfl, hu, h⟩
    cases p with
    | directories =>
      rcases hu with rfl | ⟨t, rfl⟩
      · exact .noDirectories h
      · rw [List.append_assoc, List.singleton_append]
        exact .directories t h
    | anything => exact .anything u h
    | part => exact .part hu h
    | one =>
      obtain ⟨c, hc, rfl⟩ := hu
      exact .one hc h
    | set body =>
      obtain ⟨c, hc, rfl⟩ := hu
      exact .set hc h
    | char c =>
      obtain rfl := hu
      exact .char c h

/-- The expression of a piece matches the beginnings that the piece spans. -/
theorem matches_toRegex_iff {p : Piece} {s t : Text} :
    p.toRegex.Matches s t ↔ ∃ u, s = u ++ t ∧ p.Spans u := by
  -- One character, a class and a character by itself are all sets.
  have hset : ∀ cs : CharSet, Matches (.set cs) s t ↔
      ∃ u, s = u ++ t ∧ ∃ c, cs.holds c = true ∧ u = [c] := by
    intro cs
    rw [matches_set_iff]
    constructor
    · rintro ⟨c, rfl, hc⟩
      exact ⟨[c], rfl, c, hc, rfl⟩
    · rintro ⟨u, rfl, c, hc, rfl⟩
      exact ⟨c, rfl, hc⟩
  cases p with
  | directories =>
    rw [Piece.toRegex, matches_opt_iff, matches_ofList_cons_iff]
    simp only [matches_many_iff_append, ofList, matches_set_iff, CharSet.holds_all,
      CharSet.holds_single, decide_eq_true_eq, implies_true, and_true]
    constructor
    · rintro (rfl | ⟨_, ⟨u, rfl⟩, c, rfl, rfl⟩)
      · exact ⟨[], rfl, Or.inl rfl⟩
      · exact ⟨u ++ ['/'], by simp, Or.inr ⟨u, rfl⟩⟩
    · rintro ⟨u, rfl, rfl | ⟨v, rfl⟩⟩
      · exact Or.inl rfl
      · exact Or.inr ⟨'/' :: t, ⟨v, by simp⟩, '/', rfl, rfl⟩
  | anything =>
    rw [Piece.toRegex, matches_many_iff_append]
    simp [Piece.Spans]
  | part =>
    rw [Piece.toRegex, matches_many_iff_append]
    refine exists_congr fun u => and_congr_right fun _ => ?_
    simp only [CharSet.holds_allBut, Bool.not_eq_true', decide_eq_false_iff_not]
    exact ⟨fun h hu => h _ hu rfl, fun h c hc hslash => h (hslash ▸ hc)⟩
  | one =>
    rw [Piece.toRegex, hset]
    simp [Piece.Spans]
  | set body =>
    rw [Piece.toRegex, hset]
    rfl
  | char c =>
    rw [Piece.toRegex, hset]
    simp [Piece.Spans]

/-- The expression of a pattern matches the texts that its pieces accept, as a whole. -/
theorem matches_patternRegex_iff {ps : List Piece} {s t : Text} :
    (patternRegex ps).Matches s t ↔ t = [] ∧ Accepts ps s := by
  have hpieces : ∀ s t, (ofList (ps.map Piece.toRegex)).Matches s t ↔
      ∃ u, s = u ++ t ∧ Accepts ps u := by
    induction ps with
    | nil =>
      intro s t
      rw [List.map_nil, ofList, matches_empty_iff]
      constructor
      · rintro rfl
        exact ⟨[], rfl, .nil⟩
      · rintro ⟨u, rfl, h⟩
        cases h
        rfl
    | cons p ps ih =>
      intro s t
      rw [List.map_cons, matches_ofList_cons_iff]
      simp only [matches_toRegex_iff, ih, accepts_cons_iff]
      constructor
      · rintro ⟨_, ⟨u, rfl, hu⟩, v, rfl, hv⟩
        exact ⟨u ++ v, by simp, u, v, rfl, hu, hv⟩
      · rintro ⟨_, rfl, u, v, rfl, hu, hv⟩
        exact ⟨v ++ t, ⟨u, by simp, hu⟩, v, rfl, hv⟩
  rw [patternRegex, matches_ofList_cons_iff]
  simp only [hpieces, ofList, matches_atEnd_iff]
  constructor
  · rintro ⟨_, ⟨u, rfl, hu⟩, rfl, rfl⟩
    rw [List.append_nil]
    exact ⟨rfl, hu⟩
  · rintro ⟨rfl, h⟩
    exact ⟨[], ⟨s, by simp, h⟩, rfl, rfl⟩

/-- The tokens of a choice of patterns are built into an expression that matches what one of the
patterns accepts, or what the choices before them match. -/
theorem build_alternatives {pss : List (List Piece)} (hpss : pss ≠ []) (choices : Option Regex) :
    ∃ r, build (List.intercalate [.bar] (pss.map patternTokens)) ⟨choices, []⟩ [] = .ok r ∧
      ∀ s t, r.Matches s t ↔
        (∃ c ∈ choices, c.Matches s t) ∨ (t = [] ∧ ∃ ps ∈ pss, Accepts ps s) := by
  have hclose : ∀ (ps : List Piece) (choices : Option Regex) (s t : Text),
      (Regex.Group.close ⟨choices, [ofList (ps.map Piece.toRegex), .atEnd]⟩).Matches s t ↔
        (∃ c ∈ choices, c.Matches s t) ∨ (t = [] ∧ Accepts ps s) := by
    intro ps choices s t
    rw [← matches_patternRegex_iff]
    cases choices with
    | none => simp [Regex.Group.close, patternRegex]
    | some c => simp [Regex.Group.close, patternRegex, matches_alt_iff]
  induction pss generalizing choices with
  | nil => exact (hpss rfl).elim
  | cons ps pss ih =>
    cases pss with
    | nil =>
      have hbuild := build_patternTokens ps [] choices
      rw [List.append_nil] at hbuild
      refine ⟨_, by rw [List.map_singleton, List.intercalate_singleton, hbuild, build], ?_⟩
      simpa using hclose ps choices
    | cons qs pss =>
      obtain ⟨r, hr, hmatches⟩ := ih (List.cons_ne_nil qs pss)
        (some (Regex.Group.close ⟨choices, [ofList (ps.map Piece.toRegex), .atEnd]⟩))
      refine ⟨r, ?_, fun s t => ?_⟩
      · rw [List.map_cons, List.map_cons, List.intercalate_cons_cons, List.append_assoc,
          build_patternTokens, List.singleton_append, build, ← List.map_cons]
        exact hr
      · rw [hmatches]
        simp only [Option.mem_some_iff, exists_eq_left', hclose, List.exists_mem_cons_iff,
          or_assoc, ← and_or_left]

/-! ## The whole way -/

/-- A class has a range whose ends are in the wrong order. -/
def HasReversedRange (body : Text) : Prop :=
  ∃ range ∈ (bodySet body).ranges, range.2 < range.1

theorem Piece.flaw?_eq_none_iff {p : Piece} :
    p.flaw? = none ↔ ∀ body, p = .set body → ¬HasReversedRange body := by
  cases p with
  | set body =>
    rw [Piece.flaw?, Option.map_eq_none_iff, List.find?_eq_none]
    simp [HasReversedRange, isReversed]
  | _ => simp [Piece.flaw?]

/-- The only fault of a pattern is a reversed range of one of its classes. -/
theorem patternFlaw?_eq_none_iff {p : Text} :
    patternFlaw? p = none ↔
      ¬∃ ps body, Reading true p ps ∧ .set body ∈ ps ∧ HasReversedRange body := by
  rw [patternFlaw?, List.findSome?_eq_none_iff]
  simp only [Piece.flaw?_eq_none_iff, reading_iff]
  constructor
  · rintro h ⟨_, body, rfl, hmem, hrev⟩
    exact h _ hmem body rfl hrev
  · rintro h _ hmem body rfl hrev
    exact h ⟨pieces p, body, rfl, hmem, hrev⟩

theorem mem_alternatives_iff {patterns : List Text} {alt : Text} :
    alt ∈ alternatives patterns ↔ ∃ p ∈ patterns, p ≠ [] ∧ alt ∈ expandBraces p := by
  simp [alternatives, and_assoc]

theorem alternatives_eq_nil_iff {patterns : List Text} :
    alternatives patterns = [] ↔ ∀ p ∈ patterns, p = [] := by
  rw [alternatives, List.flatMap_eq_nil_iff]
  simp [expandBraces_ne_nil]

/-- What becomes of the choice of some patterns without brace groups. -/
theorem read_alternatives {ps : List Text} (hps : ps ≠ []) :
    (∃ flaw, ps.findSome? patternFlaw? = some flaw ∧
      Regex.read (List.intercalate ['|'] (ps.map translate)) = .error flaw) ∨
    (∃ r, ps.findSome? patternFlaw? = none ∧
      Regex.read (List.intercalate ['|'] (ps.map translate)) = .ok r ∧
      ∀ path, r.isMatch path = true ↔ ∃ p ∈ ps, Accepts (pieces p) path) := by
  rw [Regex.read, lex_alternatives hps]
  cases hflaw : ps.findSome? patternFlaw? with
  | some flaw => exact Or.inl ⟨flaw, rfl, rfl⟩
  | none =>
    have hpss : ps.map pieces ≠ [] := fun hnil => hps (List.map_eq_nil_iff.1 hnil)
    obtain ⟨r, hr, hmatches⟩ := build_alternatives hpss none
    rw [List.map_map] at hr
    refine Or.inr ⟨r, rfl, hr, fun path => ?_⟩
    rw [isMatch_iff]
    simp [hmatches]

/-- What becomes of a list of patterns that are not all empty. -/
theorem compile_of_ne_nil {patterns : List Text} (h : alternatives patterns ≠ []) :
    (∃ flaw, (alternatives patterns).findSome? patternFlaw? = some flaw ∧
      compile patterns = .error flaw) ∨
    (∃ r, (alternatives patterns).findSome? patternFlaw? = none ∧
      compile patterns = .ok (some r) ∧
      ∀ path, r.isMatch path = true ↔
        ∃ alt ∈ alternatives patterns, Accepts (pieces alt) path) := by
  have hcompile : compile patterns = (Regex.read (List.intercalate ['|']
      ((alternatives patterns).map translate))).map some := by
    rw [compile]
    split
    · next hnil => exact (h hnil).elim
    · rfl
  rw [hcompile]
  rcases read_alternatives h with ⟨flaw, hflaw, hread⟩ | ⟨r, hflaw, hread, hmatch⟩
  · exact Or.inl ⟨flaw, hflaw, by rw [hread]; rfl⟩
  · exact Or.inr ⟨r, hflaw, by rw [hread]; rfl, hmatch⟩

/-- **Compiling patterns.** A list of patterns fails to compile exactly when a closed class of one
of the alternatives has a reversed range, has no expression exactly when all patterns are empty,
and otherwise has one that matches the paths that some alternative accepts as it is read. -/
theorem compile_spec (patterns : List Text) :
    ((∃ flaw, compile patterns = .error flaw) ↔
      ∃ p ∈ patterns, p ≠ [] ∧ ∃ alt ∈ expandBraces p, ∃ ps body,
        Reading true alt ps ∧ .set body ∈ ps ∧ HasReversedRange body) ∧
    (compile patterns = .ok none ↔ ∀ p ∈ patterns, p = []) ∧
    (∀ r, compile patterns = .ok (some r) → ∀ path,
      r.isMatch path = true ↔
        ∃ p ∈ patterns, p ≠ [] ∧ ∃ alt ∈ expandBraces p, ∃ ps,
          Reading true alt ps ∧ Accepts ps path) := by
  have hreversed : (∃ p ∈ patterns, p ≠ [] ∧ ∃ alt ∈ expandBraces p, ∃ ps body,
      Reading true alt ps ∧ .set body ∈ ps ∧ HasReversedRange body) ↔
      (alternatives patterns).findSome? patternFlaw? ≠ none := by
    simp only [ne_eq, List.findSome?_eq_none_iff, mem_alternatives_iff,
      patternFlaw?_eq_none_iff]
    push Not
    constructor
    · rintro ⟨p, hp, hne, alt, halt, h⟩
      exact ⟨alt, ⟨p, hp, hne, halt⟩, h⟩
    · rintro ⟨alt, ⟨p, hp, hne, halt⟩, h⟩
      exact ⟨p, hp, hne, alt, halt, h⟩
  rw [hreversed, ← alternatives_eq_nil_iff]
  by_cases hnil : alternatives patterns = []
  · have hcompile : compile patterns = .ok none := by
      rw [compile, hnil]
    simp [hcompile, hnil]
  rcases compile_of_ne_nil hnil with ⟨flaw, hflaw, hcompile⟩ | ⟨r, hflaw, hcompile, hmatch⟩
  · simp [hcompile, hflaw, hnil]
  · refine ⟨by simp [hcompile, hflaw], by simp [hcompile, hnil], fun r' hr' path => ?_⟩
    obtain rfl := Option.some.inj (Except.ok.inj (hcompile.symm.trans hr'))
    rw [hmatch]
    simp only [mem_alternatives_iff, reading_iff, exists_eq_left]
    constructor
    · rintro ⟨alt, ⟨p, hp, hne, halt⟩, h⟩
      exact ⟨p, hp, hne, alt, halt, h⟩
    · rintro ⟨p, hp, hne, alt, halt, h⟩
      exact ⟨alt, ⟨p, hp, hne, halt⟩, h⟩

end Bindery.Glob

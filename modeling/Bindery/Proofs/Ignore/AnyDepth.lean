import Bindery.Proofs.Glob.Flaws
import Bindery.Proofs.Ignore.Memory
import Bindery.Proofs.Text.Line

/-!
# Names at any depth

A pattern without a slash is matched against the last name of a path, and one with any directories
in front of it against the whole path.  The two match alike as long as the pattern has no character
class: what it matches then has no slash either, unless it matches anything.  So a line of an ignore
file that is such a pattern, or one for directories only, says the same with `**/` in front of it.

* `Glob.accepts_directories_iff`: any directories before what is one name.
* `IgnoreRule.IsNamePattern`: the patterns in question, `IgnoreRule.exists_readLine` their rules.
* `IgnoreRule.answers_anyDepth`: the answers of the rules, worked out and remembered.
-/

namespace Bindery

/-! ## Patterns for one name -/

namespace Glob

/-- What begins with one part of a name and goes on within the name has no slash. -/
theorem slash_notMem_of_cons {q : Piece} {ps : List Piece} (hq : ∀ u, q.Spans u → '/' ∉ u)
    (hps : ∀ path, Accepts ps path → '/' ∉ path) :
    ∀ path, Accepts (q :: ps) path → '/' ∉ path := by
  intro path hpath
  obtain ⟨u, v, rfl, hu, hv⟩ := accepts_cons_iff.1 hpath
  rw [List.mem_append, not_or]
  exact ⟨hq u hu, hps v hv⟩

theorem Piece.slash_notMem_of_spans {q : Piece}
    (hq : q = .part ∨ q = .one ∨ ∃ c, c ≠ '/' ∧ q = .char c) : ∀ u, q.Spans u → '/' ∉ u := by
  rcases hq with rfl | rfl | ⟨c, hc, rfl⟩
  · exact fun u hu => hu
  · rintro _ ⟨c, hc, rfl⟩
    simpa using hc.symm
  · rintro _ rfl
    simpa using hc.symm

/-- Without slashes and brackets a pattern stays within one name, unless it is two stars. -/
theorem Reading.slash_notMem {start : Bool} {p : Text} {ps : List Piece} (h : Reading start p ps)
    (hslash : '/' ∉ p) (hbracket : '[' ∉ p) (hstars : start = true → p ≠ ['*', '*']) :
    ∀ path, Accepts ps path → '/' ∉ path := by
  induction h with
  | nil =>
    rintro _ ⟨⟩
    exact List.not_mem_nil
  | directories => simp at hslash
  | anything => exact (hstars rfl rfl).elim
  | stars _ _ ih =>
    rw [List.mem_cons, List.mem_cons, not_or, not_or] at hslash hbracket
    exact slash_notMem_of_cons (Piece.slash_notMem_of_spans (Or.inl rfl))
      (ih hslash.2.2 hbracket.2.2 nofun)
  | star _ _ ih =>
    rw [List.mem_cons, not_or] at hslash hbracket
    exact slash_notMem_of_cons (Piece.slash_notMem_of_spans (Or.inl rfl))
      (ih hslash.2 hbracket.2 nofun)
  | one _ ih =>
    rw [List.mem_cons, not_or] at hslash hbracket
    exact slash_notMem_of_cons (Piece.slash_notMem_of_spans (Or.inr (Or.inl rfl)))
      (ih hslash.2 hbracket.2 nofun)
  | set => simp at hbracket
  | bracket => simp at hbracket
  | @escaped start c p ps _ ih =>
    rw [List.mem_cons, List.mem_cons, not_or, not_or] at hslash hbracket
    have hc : c ≠ '/' := Ne.symm hslash.2.1
    exact slash_notMem_of_cons (Piece.slash_notMem_of_spans (Or.inr (Or.inr ⟨c, hc, rfl⟩)))
      (ih hslash.2.2 hbracket.2.2 fun hstart => absurd (beq_iff_eq.1 hstart) hc)
  | @literal start c p ps _ _ _ ih =>
    rw [List.mem_cons, not_or] at hslash hbracket
    have hc : c ≠ '/' := Ne.symm hslash.1
    exact slash_notMem_of_cons (Piece.slash_notMem_of_spans (Or.inr (Or.inr ⟨c, hc, rfl⟩)))
      (ih hslash.2 hbracket.2 fun hstart => absurd (beq_iff_eq.1 hstart) hc)

/-- Any directories before what stays within one name: the last name of a path decides. -/
theorem accepts_directories_iff {ps : List Piece} (hps : ∀ path, Accepts ps path → '/' ∉ path)
    (path : Text) : Accepts (.directories :: ps) path ↔ Accepts ps (Text.afterLast '/' path) := by
  constructor
  · intro h
    cases h with
    | noDirectories h => rwa [Text.afterLast_of_notMem (hps _ h)]
    | directories t h => rwa [Text.afterLast_append (hps _ h)]
  · intro h
    by_cases hslash : '/' ∈ path
    · obtain ⟨t, ht⟩ := Text.exists_eq_append_afterLast hslash
      rw [ht]
      exact .directories t h
    · rw [Text.afterLast_of_notMem hslash] at h
      exact .noDirectories h

/-- Without slashes and brackets it makes no difference whether a pattern is matched against the
last name of a path, or with any directories before it against the whole path. -/
theorem accepts_anyDepth_iff {p : Text} (hslash : '/' ∉ p) (hbracket : '[' ∉ p) (path : Text) :
    Accepts (pieces ('*' :: '*' :: '/' :: p)) path ↔
      Accepts (pieces p) (Text.afterLast '/' path) := by
  have hpieces : pieces ('*' :: '*' :: '/' :: p) = .directories :: pieces p := by
    rw [pieces, piecesFrom]
    rfl
  rw [hpieces]
  by_cases hstars : p = ['*', '*']
  · -- Two stars accept anything, the last name and the whole path.
    have hanything : ∀ path, Accepts (pieces p) path := by
      intro path
      rw [hstars, pieces, piecesFrom]
      simpa using Accepts.anything path .nil
    exact iff_of_true (.noDirectories (hanything path)) (hanything _)
  · exact accepts_directories_iff
      ((reading_piecesFrom true p).slash_notMem hslash hbracket fun _ => hstars) path

/-- A pattern without brackets has no class, and so no flaw. -/
theorem patternFlaw?_of_bracket_notMem {p : Text} (h : '[' ∉ p) : patternFlaw? p = none := by
  have hset : ∀ {start p ps}, Reading start p ps → '[' ∉ p → ∀ body, .set body ∉ ps := by
    intro start p ps hread hbracket body
    induction hread with
    | set => simp at hbracket
    | bracket => simp at hbracket
    | _ => simp_all
  rw [patternFlaw?_eq_none_iff]
  rintro ⟨ps, body, hread, hbody, -⟩
  exact hset hread h body hbody

end Glob

/-! ## Lines -/

namespace IgnoreRule

/-- A pattern for names: without slashes and brackets, and nothing marks the line as a comment or
takes back what other lines ignore. -/
structure IsNamePattern (p : Text) : Prop where
  ne_nil : p ≠ []
  slash_notMem : '/' ∉ p
  bracket_notMem : '[' ∉ p
  trimmed : Text.trim p = p
  not_negated : p.head? ≠ some '!'
  not_comment : p.head? ≠ some '#'

theorem isNamePattern_iff {p : Text} : IsNamePattern p ↔ p ≠ [] ∧ '/' ∉ p ∧ '[' ∉ p ∧
    Text.trim p = p ∧ p.head? ≠ some '!' ∧ p.head? ≠ some '#' :=
  ⟨fun ⟨h₁, h₂, h₃, h₄, h₅, h₆⟩ => ⟨h₁, h₂, h₃, h₄, h₅, h₆⟩,
    fun ⟨h₁, h₂, h₃, h₄, h₅, h₆⟩ => ⟨h₁, h₂, h₃, h₄, h₅, h₆⟩⟩

instance (p : Text) : Decidable (IsNamePattern p) :=
  decidable_of_iff _ isNamePattern_iff.symm

/-- What stands behind the pattern of a line that is for directories only. -/
def directoryMark (directoryOnly : Bool) : Text :=
  if directoryOnly then ['/'] else []

/-- A line that says nothing else is taken as it is; a backslash that keeps its first character from
being a mark is dropped. -/
theorem negation?_cases {line : Text} (hnegated : line.head? ≠ some '!')
    (hcomment : line.head? ≠ some '#') :
    negation? line = some (line, false) ∨
      ∃ c r, (c = '#' ∨ c = '!') ∧ line = '\\' :: c :: r ∧
        negation? line = some (c :: r, false) := by
  rw [negation?.eq_def]
  split
  · exact Or.inr ⟨'#', _, Or.inl rfl, rfl, rfl⟩
  · exact Or.inr ⟨'!', _, Or.inr rfl, rfl, rfl⟩
  · exact (hcomment rfl).elim
  · exact (hnegated rfl).elim
  · exact Or.inl rfl

/-- A dropped backslash changes nothing about what a pattern stands for. -/
theorem pieces_escaped {c : Char} (hc : c = '#' ∨ c = '!') (r : Text) :
    Glob.pieces ('\\' :: c :: r) = Glob.pieces (c :: r) := by
  rcases hc with rfl | rfl
  · simp [Glob.pieces, Glob.piecesFrom]
  · simp [Glob.pieces, Glob.piecesFrom]

/-- What is read as the pattern of a line of a name pattern. -/
theorem IsNamePattern.exists_negation? {p : Text} (hp : IsNamePattern p) (directoryOnly : Bool) :
    ∃ q, negation? (p ++ directoryMark directoryOnly) =
        some (q ++ directoryMark directoryOnly, false) ∧
      q ≠ [] ∧ '/' ∉ q ∧ '[' ∉ q ∧ Glob.pieces q = Glob.pieces p := by
  have hhead : (p ++ directoryMark directoryOnly).head? = p.head? :=
    List.head?_append_of_ne_nil _ hp.ne_nil
  rcases negation?_cases (hhead ▸ hp.not_negated) (hhead ▸ hp.not_comment) with
    hsame | ⟨c, r, hc, hline, hdropped⟩
  · exact ⟨p, hsame, hp.ne_nil, hp.slash_notMem, hp.bracket_notMem, rfl⟩
  · obtain ⟨b, p', rfl⟩ := List.exists_cons_of_ne_nil hp.ne_nil
    obtain ⟨rfl, hrest⟩ := List.cons.inj hline
    cases p' with
    | nil =>
      -- The mark for directories is no mark that a backslash is written for.
      have hrest : directoryMark directoryOnly = c :: r := hrest
      have hmark : c ∈ directoryMark directoryOnly := hrest ▸ List.mem_cons_self
      rcases hc with rfl | rfl <;> cases directoryOnly <;> exact absurd hmark (by decide)
    | cons d r' =>
      obtain ⟨rfl, rfl⟩ := List.cons.inj hrest
      exact ⟨d :: r', hdropped, List.cons_ne_nil _ _,
        fun hmem => hp.slash_notMem (List.mem_cons_of_mem _ hmem),
        fun hmem => hp.bracket_notMem (List.mem_cons_of_mem _ hmem), (pieces_escaped hc r').symm⟩

/-- A line is not changed by trimming if it begins with something that is not blank and goes on with
what trimming does not change. -/
theorem trim_append_directoryMark (front : Text) {p : Text} (directoryOnly : Bool)
    (hfront : ∀ c, front.head? = some c → isBlank c = false) (hne : p ≠ [])
    (hp : Text.trim p = p) :
    Text.trim (front ++ p ++ directoryMark directoryOnly) =
      front ++ p ++ directoryMark directoryOnly := by
  refine Text.trim_eq_self (fun c hc => ?_) fun c hc => ?_
  · rw [List.append_assoc, List.head?_append, Option.or_eq_some_iff] at hc
    rcases hc with hc | ⟨-, hc⟩
    · exact hfront c hc
    · rw [List.head?_append_of_ne_nil _ hne] at hc
      exact Text.isBlank_of_head? hp hc
  · cases directoryOnly with
    | true =>
      rw [directoryMark, if_pos rfl, List.getLast?_concat] at hc
      obtain rfl := Option.some.inj hc
      decide
    | false =>
      rw [directoryMark, if_neg Bool.false_ne_true, List.append_nil,
        List.getLast?_append_of_ne_nil _ hne] at hc
      exact Text.isBlank_of_getLast? hp hc

/-- What stands behind a pattern is cut off, and tells whether the rule is for directories only. -/
theorem cut_directoryMark {q : Text} (hne : q ≠ []) (hslash : '/' ∉ q) (front : Text)
    (directoryOnly : Bool) :
    Text.dropRightWhile (· == '/') (front ++ q ++ directoryMark directoryOnly) = front ++ q ∧
      ((front ++ q ++ directoryMark directoryOnly).getLast? == some '/') = directoryOnly := by
  obtain ⟨r, c, rfl⟩ := (List.eq_nil_or_concat' q).resolve_left hne
  have hc : c ≠ '/' := fun heq => hslash (heq ▸ List.mem_append_right r List.mem_cons_self)
  cases directoryOnly <;> simp [directoryMark, Text.dropRightWhile, hc]

/-- How a line with a name at its end is read. -/
theorem readLine_of_negation? (front : Text) {line q : Text} {negated directoryOnly : Bool}
    (htrim : Text.trim line = line) (hne : line ≠ [])
    (hneg : negation? line = some (front ++ q ++ directoryMark directoryOnly, negated))
    (hq : q ≠ []) (hslash : '/' ∉ q) (hfront : front.head? ≠ some '/') {r : Regex}
    (hr : Regex.read (Glob.translate (front ++ q)) = .ok r) :
    readLine line =
      .ok (some ⟨front ++ q, r, negated, front.contains '/', directoryOnly⟩) := by
  obtain ⟨hcut, hlast⟩ := cut_directoryMark hq hslash front directoryOnly
  have hhead : (front ++ q).head? ≠ some '/' := by
    rw [List.head?_append]
    intro heq
    rcases Option.or_eq_some_iff.1 heq with heq | ⟨-, heq⟩
    · exact hfront heq
    · exact hslash (List.mem_of_head? heq)
  have hpass : (front ++ q).dropWhile (· == '/') = front ++ q := by
    obtain ⟨c, rest, hcons⟩ :=
      List.exists_cons_of_ne_nil (List.append_ne_nil_of_right_ne_nil front hq)
    rw [hcons] at hhead ⊢
    have hc : c ≠ '/' := by simpa using hhead
    simp [hc]
  have hanchored : ((front ++ q).head? == some '/' || (front ++ q).contains '/') =
      front.contains '/' := by
    rw [beq_eq_false_iff_ne.2 hhead, Bool.false_or]
    simp [hslash]
  have hempty : ¬(front ++ q).isEmpty = true := by simp [hq]
  rw [readLine]
  dsimp only
  rw [htrim, if_neg (by simpa using hne), hneg]
  dsimp only
  rw [hcut, hlast, hpass, hanchored, if_neg hempty, hr]

/-! ## Rules -/

theorem holds_iff {pattern : Text} {r : Regex} {negated anchored directoryOnly : Bool} (path : Text)
    (isDirectory : Bool) :
    holds ⟨pattern, r, negated, anchored, directoryOnly⟩ path isDirectory = true ↔
      (directoryOnly = true → isDirectory = true) ∧
        r.isMatch (if anchored then path else Text.afterLast '/' path) = true := by
  cases directoryOnly <;> cases isDirectory <;> cases anchored <;> simp [holds]

/-- A rule takes in whatever has a last name that the pattern stands for. -/
structure HoldsByName (p : Text) (directoryOnly : Bool) (rule : IgnoreRule) : Prop where
  not_negated : rule.negated = false
  holds_iff : ∀ path isDirectory, rule.holds path isDirectory = true ↔
    (directoryOnly = true → isDirectory = true) ∧
      Glob.Accepts (Glob.pieces p) (Text.afterLast '/' path)

variable {p : Text} (hp : IsNamePattern p) (directoryOnly : Bool)
include hp

/-- The rule of a name pattern. -/
theorem IsNamePattern.exists_readLine :
    ∃ rule, readLine (p ++ directoryMark directoryOnly) = .ok (some rule) ∧
      HoldsByName p directoryOnly rule := by
  obtain ⟨q, hneg, hne, hslash, hbracket, hpieces⟩ := hp.exists_negation? directoryOnly
  obtain ⟨r, hr⟩ := Glob.exists_read_translate (Glob.patternFlaw?_of_bracket_notMem hbracket)
  have htrim := trim_append_directoryMark [] directoryOnly nofun hp.ne_nil hp.trimmed
  refine ⟨_, readLine_of_negation? [] htrim
    (List.append_ne_nil_of_left_ne_nil hp.ne_nil _) hneg hne hslash nofun hr, rfl, ?_⟩
  intro path isDirectory
  rw [IgnoreRule.holds_iff, ← hpieces]
  exact and_congr_right fun _ => Glob.isMatch_iff_of_read hr _

/-- The rule of a name pattern with any directories before it. -/
theorem IsNamePattern.exists_readLine_anyDepth :
    ∃ rule, readLine ("**/".toList ++ (p ++ directoryMark directoryOnly)) = .ok (some rule) ∧
      HoldsByName p directoryOnly rule := by
  have hbracket : '[' ∉ "**/".toList ++ p := by simpa using hp.bracket_notMem
  obtain ⟨r, hr⟩ := Glob.exists_read_translate (Glob.patternFlaw?_of_bracket_notMem hbracket)
  have hfront : ∀ c, "**/".toList.head? = some c → isBlank c = false := by
    rintro c ⟨⟩
    decide
  have htrim := trim_append_directoryMark _ directoryOnly hfront hp.ne_nil hp.trimmed
  rw [List.append_assoc] at htrim
  refine ⟨_, readLine_of_negation? "**/".toList htrim (List.cons_ne_nil _ _) rfl
    hp.ne_nil hp.slash_notMem (by decide) hr, rfl, ?_⟩
  intro path isDirectory
  rw [IgnoreRule.holds_iff]
  refine and_congr_right fun _ => (Glob.isMatch_iff_of_read hr _).trans ?_
  exact Glob.accepts_anyDepth_iff hp.slash_notMem hp.bracket_notMem path

omit hp

/-- Rules for the same last names are alike in all answers. -/
theorem answer_of_holdsByName {rule rule' : IgnoreRule} (h : HoldsByName p directoryOnly rule)
    (h' : HoldsByName p directoryOnly rule') (before after : List IgnoreRule) :
    Query.answer (before ++ rule :: after) = Query.answer (before ++ rule' :: after) := by
  have hholds : ∀ path isDirectory, rule.holds path isDirectory = rule'.holds path isDirectory :=
    fun path isDirectory => Bool.eq_iff_iff.2
      ((h.holds_iff path isDirectory).trans (h'.holds_iff path isDirectory).symm)
  have hignored : isIgnored (before ++ rule :: after) = isIgnored (before ++ rule' :: after) := by
    funext path isDirectory
    rw [isIgnored, isIgnored, List.foldl_append, List.foldl_append, List.foldl_cons,
      List.foldl_cons, hholds, h.not_negated, h'.not_negated]
  funext query
  cases query with
  | entry path isDirectory => rw [Query.answer, Query.answer, hignored]
  | file path => rw [Query.answer, Query.answer, isPathIgnored, isPathIgnored, hignored]

/-! ## Files -/

/-- The rule of a line stands between those of the lines before and after it. -/
theorem readLines_append_cons {line : Text} {rule : IgnoreRule}
    (hrule : readLine line = .ok (some rule)) (before after : List Text) :
    readLines (before ++ line :: after) =
      (readLines before).bind fun rules => (readLines after).map (rules ++ rule :: ·) := by
  induction before with
  | nil =>
    simp only [List.nil_append, readLines, hrule]
    rfl
  | cons first before ih =>
    rw [List.cons_append, readLines, readLines]
    cases readLine first with
    | error e => rfl
    | ok firstRule =>
      rw [ih]
      cases readLines before with
      | error e => rfl
      | ok rules => cases readLines after <;> simp [Except.map, Except.bind]

/-- **A name at any depth.**  For the line of a pattern without slashes and brackets it makes no
difference whether any directories are written before it: all answers stay the same, also those from
memory, and where the file cannot be read, it cannot be read for the same reason. -/
theorem answers_anyDepth {line : Text} (hp : IsNamePattern p) (hline : line = p ∨ line = p ++ ['/'])
    (before after : List Text) :
    (readLines (before ++ line :: after)).map Query.answer =
      (readLines (before ++ ("**/".toList ++ line) :: after)).map Query.answer ∧
    ∀ queries,
      (readLines (before ++ line :: after)).map
          (fun rules => ((IgnoreMemory.ofRules rules).askAll queries).1) =
        (readLines (before ++ ("**/".toList ++ line) :: after)).map
          (fun rules => ((IgnoreMemory.ofRules rules).askAll queries).1) := by
  obtain ⟨directoryOnly, rfl⟩ : ∃ directoryOnly, line = p ++ directoryMark directoryOnly := by
    rcases hline with rfl | rfl
    · exact ⟨false, (List.append_nil _).symm⟩
    · exact ⟨true, rfl⟩
  obtain ⟨rule, hread, hrule⟩ := hp.exists_readLine directoryOnly
  obtain ⟨rule', hread', hrule'⟩ := hp.exists_readLine_anyDepth directoryOnly
  have hanswer : (readLines (before ++ (p ++ directoryMark directoryOnly) :: after)).map
        Query.answer =
      (readLines (before ++ ("**/".toList ++ (p ++ directoryMark directoryOnly)) :: after)).map
        Query.answer := by
    rw [readLines_append_cons hread, readLines_append_cons hread']
    cases readLines before with
    | error e => rfl
    | ok rules =>
      cases readLines after with
      | error e => rfl
      | ok more => exact congrArg Except.ok (answer_of_holdsByName _ hrule hrule' rules more)
  have hmemory : ∀ queries (outcome : Except Fault (List IgnoreRule)),
      outcome.map (fun rules => ((IgnoreMemory.ofRules rules).askAll queries).1) =
        (outcome.map Query.answer).map fun answer => queries.map answer := by
    intro queries outcome
    cases outcome with
    | error e => rfl
    | ok rules =>
      exact congrArg Except.ok
        (congrArg Prod.fst ((IgnoreMemory.remembers_ofRules rules).askAll queries))
  refine ⟨hanswer, fun queries => ?_⟩
  rw [hmemory, hmemory, hanswer]

/-- A pattern whose exclamation mark is part of the names, with stars in its middle. -/
def markedPattern : Text := "\\!a**.l?g".toList

theorem answers_anyDepth_markedPattern :
    IsNamePattern markedPattern ∧
      (readLines ["*.txt".toList, markedPattern ++ ['/'], "!/top/".toList]).map Query.answer =
        (readLines ["*.txt".toList, "**/".toList ++ (markedPattern ++ ['/']),
          "!/top/".toList]).map Query.answer ∧
      ∃ rule, readLines [markedPattern ++ ['/']] = .ok [rule] ∧
        Query.answer [rule] (.entry "b/!a1.log".toList true) = true ∧
        Query.answer [rule] (.entry "b/!a1.log".toList false) = false := by
  have hpattern : IsNamePattern markedPattern := by decide
  refine ⟨hpattern,
    (answers_anyDepth hpattern (Or.inr rfl) ["*.txt".toList] ["!/top/".toList]).1, ?_⟩
  obtain ⟨rule, hread, hrule⟩ := hpattern.exists_readLine true
  have haccepts : Glob.Accepts (Glob.pieces markedPattern) "!a1.log".toList := by
    have hpieces : Glob.pieces markedPattern =
        [.char '!', .char 'a', .part, .char '.', .char 'l', .one, .char 'g'] := by
      decide +kernel
    rw [hpieces]
    exact .char '!' <| .char 'a' <| .part (t := ['1']) (by decide) <| .char '.' <| .char 'l' <|
      .one (by decide) <| .char 'g' .nil
  have hlines : readLines [markedPattern ++ ['/']] = .ok [rule] :=
    readLines_append_cons hread [] []
  have hanswer : ∀ path isDirectory,
      Query.answer [rule] (.entry path isDirectory) = rule.holds path isDirectory := by
    intro path isDirectory
    simp [Query.answer, isIgnored, hrule.not_negated]
  refine ⟨rule, hlines, ?_, ?_⟩
  · rw [hanswer]
    exact (hrule.holds_iff _ true).2 ⟨fun _ => rfl, haccepts⟩
  · rw [hanswer, Bool.eq_false_iff]
    exact fun hholds => Bool.false_ne_true (((hrule.holds_iff _ false).1 hholds).1 rfl)

end IgnoreRule

end Bindery

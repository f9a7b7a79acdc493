import Bindery.Command.Line
import Bindery.Proofs.Entries
import Bindery.Proofs.Number.Whole

/-!
# Words at the end of a command line

What stands at the end of a command line is read after everything before it: the words before a
command mean what they did, and so do the words of the command, so that an option at the end is taken
last.

* `Word.exists_classifyAll_append`: what words are, with more words after them.
* `CommandLine.follow_append`, `CommandLine.follow_ofWords_append`: what words ask for, with more
  words after them.
* `CommandLine.read_append_limit`: `render` with a limit at the end.
-/

namespace Bindery

variable {names : OptionNames} {words more : List Text} {cs ds : List (Text × Word)}

namespace Word

/-- The first word is two dashes and all others are arguments, or each is something of its own. -/
theorem classifyAll_cons {w : Text} (h : classifyAll names (w :: words) = some cs) :
    w = "--".toList ∧ cs = (w, .separator) :: words.map (fun a => (a, .argument)) ∨
      w ≠ "--".toList ∧ ∃ c cs', classify names w = some c ∧ classifyAll names words = some cs' ∧
        cs = (w, c) :: cs' := by
  rw [classifyAll] at h
  split at h
  · next hdashes => exact Or.inl ⟨hdashes, (Option.some.inj h).symm⟩
  · next hdashes =>
    split at h
    · next c cs' hc hcs => exact Or.inr ⟨hdashes, c, cs', hc, hcs, (Option.some.inj h).symm⟩
    · cases h

theorem map_fst_of_classifyAll (h : classifyAll names words = some cs) :
    cs.map Prod.fst = words := by
  induction words generalizing cs with
  | nil =>
    obtain rfl := Option.some.inj h
    rfl
  | cons w words ih =>
    obtain ⟨rfl, rfl⟩ | ⟨-, c, cs', -, hcs, rfl⟩ := classifyAll_cons h
    · rw [List.map_cons, List.map_map]
      exact congrArg _ (List.map_id words)
    · exact congrArg _ (ih hcs)

/-- Words are what they are whatever comes after them; what comes after them is what it is by
itself, unless two dashes are before it. -/
theorem exists_classifyAll_append (hwords : classifyAll names words = some cs)
    (hmore : classifyAll names more = some ds) :
    ∃ ds', classifyAll names (words ++ more) = some (cs ++ ds') ∧ ds'.map Prod.fst = more ∧
      ((∀ c ∈ cs, c.2 ≠ .separator) → ds' = ds) := by
  induction words generalizing cs with
  | nil =>
    obtain rfl := Option.some.inj hwords
    exact ⟨ds, hmore, map_fst_of_classifyAll hmore, fun _ => rfl⟩
  | cons w words ih =>
    rw [List.cons_append, classifyAll]
    obtain ⟨hdashes, rfl⟩ | ⟨hdashes, c, cs', hc, hcs, rfl⟩ := classifyAll_cons hwords
    · rw [if_pos hdashes]
      refine ⟨more.map fun a => (a, .argument), ?_, ?_, fun hnone => ?_⟩
      · rw [List.map_append, List.cons_append]
      · rw [List.map_map]
        exact List.map_id more
      · exact absurd rfl (hnone _ List.mem_cons_self)
    · obtain ⟨ds', hds', hmap, hsame⟩ := ih hcs
      rw [if_neg hdashes, hc, hds']
      exact ⟨ds', rfl, hmap, fun hnone => hsame (List.forall_mem_cons.1 hnone).2⟩

theorem isNegativeNumber_of_isDigit {s : Text} (hne : s ≠ []) (hs : ∀ c ∈ s, c.isDigit = true) :
    isNegativeNumber ('-' :: s) = true := by
  have hnot : ∀ d : Char, d.isDigit = false → ∀ c ∈ s, c ≠ d := by
    rintro d hd c hc rfl
    cases hd.symm.trans (hs c hc)
  have hend : (('-' :: s).getLast? == some '\n') = false := by
    rw [List.getLast?_cons_of_ne_nil hne, List.getLast?_eq_some_getLast hne]
    simpa using hnot '\n' (by decide) _ (List.getLast_mem hne)
  have hpoint : ∀ c ∈ s, (c != '.') = true := fun c hc => by simpa using hnot '.' (by decide) c hc
  have hdigits : isDigits s = true := by
    have hall : s.all (fun c => (Number.digit? c).isSome) = true :=
      List.all_eq_true.2 fun c hc => by rw [Number.digit?_of_isDigit (hs c hc)]; rfl
    rw [isDigits, hall]
    simpa using hne
  rw [isNegativeNumber, hend]
  simp only [Bool.false_eq_true, if_false, List.takeWhile_eq_self_iff.2 hpoint,
    List.dropWhile_eq_nil_iff.2 hpoint, hdigits]

/-- A whole number is an argument where no option has digits in its name. -/
theorem classify_ofInt (hnames : (names.all fun e => e.1.all (!·.isDigit)) = true) (n : Int) :
    classify names (Text.ofInt n) = some .argument := by
  have hdigits := fun c (hc : c ∈ Text.ofNat n.natAbs) => Text.isDigit_of_mem_ofNat hc
  have hne := Text.ofNat_ne_nil n.natAbs
  rw [Text.ofInt_eq]
  generalize Text.ofNat n.natAbs = s at hdigits hne ⊢
  have hnot : ∀ d : Char, d.isDigit = false → d ∉ s := by
    intro d hd hmem
    cases hd.symm.trans (hdigits d hmem)
  split
  · obtain ⟨d, r, rfl⟩ := List.exists_cons_of_ne_nil hne
    have hd := hdigits d List.mem_cons_self
    -- No option has the digit in its name.
    have hname : ∀ w : Text, d ∈ w → ∀ e ∈ names, e.1 ≠ w := by
      rintro _ hmem e he rfl
      have hnot := List.all_eq_true.1 (List.all_eq_true.1 hnames e he) d hmem
      simp [hd] at hnot
    have hget : Entries.get? names ('-' :: d :: r) = none := by
      refine Entries.get?_eq_none_iff.2 fun hmem => ?_
      obtain ⟨e, he, heq⟩ := List.mem_map.1 hmem
      exact hname _ (by simp) e he heq
    have hcut : cutAtEquals ('-' :: d :: r) = ('-' :: d :: r, none) := by
      have hequals : ('-' :: d :: r).dropWhile (· != '=') = [] :=
        List.dropWhile_eq_nil_iff.2 <| List.forall_mem_cons.2 ⟨by decide, fun c hc => by
          rw [bne_iff_ne]
          rintro rfl
          exact hnot '=' (by decide) hc⟩
      rw [cutAtEquals, hequals]
    have hcandidates : candidates names ('-' :: d :: r) = [] := by
      have hshort : isShort ('-' :: d :: r) = true := by
        have hdash : d ≠ '-' := fun heq => hnot '-' (by decide) (heq ▸ List.mem_cons_self)
        simp [isShort, List.isPrefixOf, Ne.symm hdash]
      have hnone : names.filter (·.1 == ('-' :: d :: r).take 2) = [] :=
        List.filter_eq_nil_iff.2 fun e he => by simpa using hname ['-', d] (by simp) e he
      rw [candidates, if_pos hshort, hnone, List.map_nil]
    rw [List.singleton_append, classify, if_neg (by simp), hget, hcut]
    simp only [Option.bind_none, hcandidates, isNegativeNumber_of_isDigit hne hdigits]
    rfl
  · obtain ⟨d, r, rfl⟩ := List.exists_cons_of_ne_nil hne
    have hd : d ≠ '-' := fun heq => hnot '-' (by decide) (heq ▸ List.mem_cons_self)
    rw [List.nil_append, classify, if_pos (by simpa using hd)]

/-- An option with its value at the end of a command line. -/
def limitWords (n : Int) : List Text := ["--max-bytes".toList, Text.ofInt n]

theorem ofInt_ne_dashes (n : Int) : Text.ofInt n ≠ "--".toList := by
  intro heq
  have hsign := Number.sign_ofInt n
  rw [heq] at hsign
  have hmem : '-' ∈ Text.ofNat n.natAbs := (Prod.mk.inj hsign).2 ▸ List.mem_singleton_self '-'
  cases Text.isDigit_of_mem_ofNat hmem

theorem classifyAll_limitWords (hnames : (names.all fun e => e.1.all (!·.isDigit)) = true) (n : Int)
    {c : Word} (hc : classify names "--max-bytes".toList = some c) :
    classifyAll names (limitWords n) =
      some [("--max-bytes".toList, c), (Text.ofInt n, .argument)] := by
  rw [limitWords, classifyAll, if_neg (by decide), hc, classifyAll, if_neg (ofInt_ne_dashes n),
    classify_ofInt hnames]
  rfl

end Word

namespace Step

theorem isUse_of_bundle {o : CommandOption} {text : Text} {b : Bundle}
    (h : bundle names o text = some b) : ∀ step ∈ b.steps, ∃ o value, step = .use o value := by
  fun_induction bundle names o text generalizing b with
  | case1 o =>
    obtain rfl := Option.some.inj h
    split <;> simp
  | case2 o c r =>
    obtain rfl := Option.some.inj h
    exact List.forall_mem_singleton.2 ⟨_, _, rfl⟩
  | case3 => cases h
  | case4 o c r _ next hnext ih =>
    obtain ⟨b, hb, rfl⟩ := Option.map_eq_some_iff.1 h
    exact List.forall_mem_cons.2 ⟨⟨_, _, rfl⟩, ih hb⟩

/-- What an option asks for is the use of options. -/
theorem isUse_of_ofOption {o : CommandOption} {short : Bool} {attached : Option Text} {b : Bundle}
    (h : ofOption names o short attached = some b) :
    ∀ step ∈ b.steps, ∃ o value, step = .use o value := by
  rw [ofOption.eq_def] at h
  split at h
  · exact isUse_of_bundle h
  · split at h
    · obtain rfl := Option.some.inj h
      exact List.forall_mem_singleton.2 ⟨_, _, rfl⟩
    · split at h
      · exact isUse_of_bundle h
      · cases h

end Step

namespace CommandLine

variable {page : HelpPage} {g : GivenOptions} {hasExtra commandNext : Bool} {p : Part}

/-- Options are taken whatever comes after them, or one of them ends the reading. -/
theorem follow_uses {steps : List Step} (hsteps : ∀ step ∈ steps, ∃ o value, step = .use o value)
    (page : HelpPage) (g : GivenOptions) (hasExtra : Bool) :
    (∃ e, ∀ rest, follow page g hasExtra (steps ++ rest) = .error e) ∨
      ∃ next, ∀ rest, follow page g hasExtra (steps ++ rest) = follow page next hasExtra rest := by
  induction steps generalizing g with
  | nil => exact Or.inr ⟨g, fun _ => rfl⟩
  | cons step steps ih =>
    obtain ⟨⟨o, value, rfl⟩, hrest⟩ := List.forall_mem_cons.1 hsteps
    simp only [List.cons_append, follow]
    cases g.take page o value with
    | error e => exact Or.inl ⟨e, fun _ => rfl⟩
    | ok next => exact ih hrest next

/-- A part of a command line with more words after it: they belong to its command, or are read from
what it gives. -/
def Part.followed (p : Part) (page : HelpPage) (names : OptionNames) (commandNext : Bool)
    (ds : List (Text × Word)) : Except CommandStop Part :=
  match p.command with
  | some (name, words) => .ok { p with command := some (name, words ++ ds.map Prod.fst) }
  | none => follow page p.given p.hasExtra (Step.ofWords names commandNext ds)

/-- Words give a part, and more words after them are read from it. -/
structure GoesOn (page : HelpPage) (names : OptionNames) (commandNext : Bool) (g : GivenOptions)
    (hasExtra : Bool) (cs : List (Text × Word)) (p : Part) : Prop where
  no_command : commandNext = false → p.command = none
  no_separator : p.command = none → ∀ c ∈ cs, c.2 ≠ .separator
  append : ∀ ds, follow page g hasExtra (Step.ofWords names commandNext (cs ++ ds)) =
    p.followed page names commandNext ds

/-- Words before others that are read whatever comes next. -/
theorem GoesOn.after {next : GivenOptions} {nextExtra : Bool} (front : List (Text × Word))
    (hfront : ∀ c ∈ front, c.2 ≠ .separator)
    (hnext : ∀ ds, follow page g hasExtra (Step.ofWords names commandNext (front ++ ds)) =
      follow page next nextExtra (Step.ofWords names commandNext ds))
    (h : GoesOn page names commandNext next nextExtra cs p) :
    GoesOn page names commandNext g hasExtra (front ++ cs) p where
  no_command := h.no_command
  no_separator hc := List.forall_mem_append.2 ⟨hfront, h.no_separator hc⟩
  append ds := by
    rw [List.append_assoc, hnext]
    exact h.append ds

/-- Words that give a command or no word without a place go on with more words. -/
theorem goesOn_of_follow (h : follow page g hasExtra (Step.ofWords names commandNext cs) = .ok p)
    (hp : p.command = none → p.hasExtra = false) :
    GoesOn page names commandNext g hasExtra cs p := by
  fun_induction Step.ofWords names commandNext cs generalizing g hasExtra with
  | case1 =>
    obtain rfl := Except.ok.inj h
    exact ⟨fun _ => rfl, fun _ => List.forall_mem_nil _, fun ds => rfl⟩
  | case2 =>
    obtain rfl := Except.ok.inj h
    cases hp rfl
  | case3 w rest ih => exact (ih h).after [(w, .unknown)] (by simp) fun ds => rfl
  | case4 w rest hnext =>
    obtain rfl := Except.ok.inj h
    refine ⟨fun hnot => absurd (hnot.symm.trans hnext) nofun, nofun, fun ds => ?_⟩
    rw [List.cons_append, Step.ofWords, if_pos hnext, List.map_append]
    rfl
  | case5 w rest hnext ih =>
    refine (ih h).after [(w, .argument)] (by simp) fun ds => ?_
    rw [List.singleton_append, Step.ofWords, if_neg hnext]
    rfl
  | case6 => cases h
  | case7 w o short attached rest steps hoption ih =>
    obtain ⟨e, he⟩ | ⟨next, hnext⟩ :=
      follow_uses (Step.isUse_of_ofOption hoption) page g hasExtra
    · cases (he _).symm.trans h
    · rw [hnext] at h
      refine (ih h).after [(w, .option o short attached)] (by simp) fun ds => ?_
      rw [List.singleton_append, Step.ofWords]
      simp only [hoption]
      exact hnext _
  | case8 w o short attached steps pending hoption value rest ih =>
    have huses : ∀ step ∈ steps ++ [.use pending (some value)], ∃ o value, step = .use o value :=
      List.forall_mem_append.2 ⟨Step.isUse_of_ofOption hoption,
        List.forall_mem_singleton.2 ⟨_, _, rfl⟩⟩
    rw [List.append_cons] at h
    obtain ⟨e, he⟩ | ⟨next, hnext⟩ := follow_uses huses page g hasExtra
    · cases (he _).symm.trans h
    · rw [hnext] at h
      refine (ih h).after [(w, .option o short attached), (value, .argument)] (by simp)
        fun ds => ?_
      rw [List.cons_append, List.singleton_append, Step.ofWords]
      simp only [hoption]
      rw [List.append_cons]
      exact hnext _
  | case9 => cases h

theorem command_eq_none_of_readPart (h : readPart page names false words = .ok p)
    (hp : p.command = none → p.hasExtra = false) : p.command = none := by
  rw [readPart] at h
  split at h
  · cases h
  · exact (goesOn_of_follow h hp).no_command rfl

/-- A part of a command line with more words at its end. -/
theorem readPart_append (h : readPart page names commandNext words = .ok p)
    (hp : p.command = none → p.hasExtra = false) (hmore : Word.classifyAll names more = some ds) :
    readPart page names commandNext (words ++ more) =
      match p.command with
      | some (name, rest) => .ok { p with command := some (name, rest ++ more) }
      | none => follow page p.given p.hasExtra (Step.ofWords names commandNext ds) := by
  rw [readPart] at h ⊢
  split at h
  · cases h
  next cs hcs =>
  obtain ⟨ds', hds', hmap, hsame⟩ := Word.exists_classifyAll_append hcs hmore
  have hgoes := goesOn_of_follow h hp
  rw [hds']
  dsimp only
  rw [hgoes.append, Part.followed]
  cases hc : p.command with
  | none =>
    dsimp only
    rw [hsame (hgoes.no_separator hc)]
  | some command =>
    dsimp only
    rw [hmap]

/-- The form of a command that renders files. -/
theorem form_of_render {name : Text} {form : CommandForm} (hform : form? name = some form)
    {choice : Choice} {yes : Bool} {output : Option Text} {limit : Option Int}
    (hmake : form.make g = .render choice yes output limit) :
    (form.options.all fun e => e.1.all (!·.isDigit)) = true ∧
      Word.classify form.options "--max-bytes".toList = some (.option .maxBytes false none) ∧
      form.make = fun g => .render g.choice g.yes g.output g.maxBytes := by
  unfold form? at hform
  dsimp only at hform
  by_cases hrender : name = "render".toList
  · subst hrender
    rw [if_neg (by decide), if_neg (by decide), if_pos rfl] at hform
    obtain rfl := Option.some.inj hform
    exact ⟨by decide, rfl, rfl⟩
  · split_ifs at hform <;> (obtain rfl := Option.some.inj hform; cases hmake)

/-- **A limit at the end.** A limit at the end of a command line that renders files is the limit of
that command, whatever limits there are before it. -/
theorem read_append_limit {line : CommandLine} (h : read words = .ok line) {choice : Choice}
    {yes : Bool} {output : Option Text} {limit : Option Int}
    (hcommand : line.command = .render choice yes output limit) {n : Int}
    (hn : (Text.ofNat n.natAbs).length ≤ Number.maxDigits) :
    read (words ++ Word.limitWords n) =
      .ok { line with command := .render choice yes output (some n) } := by
  rw [read] at h ⊢
  split at h
  · cases h
  next general hgeneral =>
  split at h
  · cases h
  next name rest hname =>
  split at h
  · cases h
  next form hform =>
  split at h
  · cases h
  next part hpart =>
  split at h
  · cases h
  next hextra =>
  obtain ⟨hbefore, hafter⟩ := Bool.or_eq_false_iff.1 (Bool.eq_false_iff.2 hextra)
  obtain rfl := Except.ok.inj h
  obtain ⟨hnames, hoption, hmake⟩ := form_of_render hform hcommand
  -- The words before the command and those of the command, each with the limit at their end.
  have hwords := readPart_append hgeneral (fun hnone => absurd (hname.symm.trans hnone) nofun)
    (Word.classifyAll_limitWords (by decide) n (show _ = some .unknown by rfl))
  have hrest := readPart_append hpart (fun _ => hafter)
    (Word.classifyAll_limitWords hnames n hoption)
  rw [hname] at hwords
  rw [command_eq_none_of_readPart hpart fun _ => hafter] at hrest
  have htaken : follow form.page part.given part.hasExtra (Step.ofWords form.options false
      [("--max-bytes".toList, .option .maxBytes false none), (Text.ofInt n, .argument)]) =
        .ok ⟨{ part.given with maxBytes := some n }, part.hasExtra, none⟩ := by
    show follow form.page part.given part.hasExtra [.use .maxBytes (some (Text.ofInt n))] = _
    rw [follow, GivenOptions.take, Number.whole?_ofInt hn]
    rfl
  rw [hwords]
  simp only [hform, hrest, htaken]
  rw [if_neg hextra, hmake]
  dsimp only at hcommand
  rw [hmake] at hcommand
  obtain ⟨rfl, rfl, rfl, -⟩ := Command.render.inj hcommand
  rfl

end CommandLine

end Bindery

import Bindery.Proofs.Glob.Braces
import Mathlib.Algebra.BigOperators.Ring.List
import Mathlib.Tactic.Ring

/-!
# Nested brace groups

A pattern with brace groups as a tree: literal characters, and groups of two alternatives or more,
nested to any depth.  The rounds over its text open one group after the other, the leftmost
innermost one first; each of them leaves the texts that the pattern stands for, and the number of
choices that are still to be made, as they were.

* `Braced`, `Alternatives`: the trees; `Braced.toText` writes one as a pattern.
* `Braced.choices`: the product of the numbers of alternatives of all groups.
* `Braced.Denotes`: the texts that a pattern stands for.
* `Braced.opened`: what a round makes of a tree, `expandOnce_toText`.
* `expandBraces_toText`: the alternatives are as many as there are choices, and are the texts that
  the pattern stands for.
-/

namespace Bindery.Glob

/-! ## Trees -/

mutual

/-- A pattern with brace groups as a tree.  In a group a comma is no literal character: it ends an
alternative. -/
inductive Braced : (inGroup : Bool) → Type
  | nil {inGroup : Bool} : Braced inGroup
  | char {inGroup : Bool} (c : Char) (rest : Braced inGroup)
      (not_brace : isBrace c = false := by decide)
      (not_comma : inGroup = true → c ≠ ',' := by decide) : Braced inGroup
  | group {inGroup : Bool} (alternatives : Alternatives) (rest : Braced inGroup) : Braced inGroup

/-- The alternatives of a group, two or more. -/
inductive Alternatives : Type
  | two (a b : Braced true)
  | cons (a : Braced true) (others : Alternatives)

end

/-- The alternatives one by one. -/
def Alternatives.toList : Alternatives → List (Braced true)
  | .two a b => [a, b]
  | .cons a others => a :: others.toList

mutual

/-- The text of a pattern. -/
def Braced.toText : {inGroup : Bool} → Braced inGroup → Text
  | _, .nil => []
  | _, .char c rest _ _ => c :: rest.toText
  | _, .group alternatives rest => '{' :: (alternatives.toText ++ '}' :: rest.toText)

/-- The text between the braces of a group. -/
def Alternatives.toText : Alternatives → Text
  | .two a b => a.toText ++ ',' :: b.toText
  | .cons a others => a.toText ++ ',' :: others.toText

end

mutual

/-- The number of groups, those in groups included. -/
def Braced.groups : {inGroup : Bool} → Braced inGroup → Nat
  | _, .nil => 0
  | _, .char _ rest _ _ => rest.groups
  | _, .group alternatives rest => 1 + alternatives.groups + rest.groups

/-- The number of groups in the alternatives of a group. -/
def Alternatives.groups : Alternatives → Nat
  | .two a b => a.groups + b.groups
  | .cons a others => a.groups + others.groups

end

mutual

/-- The product of the numbers of alternatives of all groups, those in groups included. -/
def Braced.choices : {inGroup : Bool} → Braced inGroup → Nat
  | _, .nil => 1
  | _, .char _ rest _ _ => rest.choices
  | _, .group alternatives rest =>
    alternatives.toList.length * alternatives.choices * rest.choices

/-- The same for all groups in the alternatives of a group. -/
def Alternatives.choices : Alternatives → Nat
  | .two a b => a.choices * b.choices
  | .cons a others => a.choices * others.choices

end

mutual

/-- The texts that a pattern stands for: its literal characters, with a text of one alternative in
the place of each group. -/
def Braced.Denotes : {inGroup : Bool} → Braced inGroup → Text → Prop
  | _, .nil, s => s = []
  | _, .char c rest _ _, s => ∃ t, rest.Denotes t ∧ s = c :: t
  | _, .group alternatives rest, s =>
    ∃ t u, alternatives.Denotes t ∧ rest.Denotes u ∧ s = t ++ u

/-- The texts that some alternative stands for. -/
def Alternatives.Denotes : Alternatives → Text → Prop
  | .two a b, s => a.Denotes s ∨ b.Denotes s
  | .cons a others, s => a.Denotes s ∨ others.Denotes s

end

/-- An alternative in front of what follows its group. -/
def Braced.splice : {inGroup : Bool} → Braced true → Braced inGroup → Braced inGroup
  | _, .nil, rest => rest
  | _, .char c tail hbrace hcomma, rest =>
    .char c (tail.splice rest) hbrace fun _ => hcomma rfl
  | _, .group alternatives tail, rest => .group alternatives (tail.splice rest)

mutual

/-- The patterns left when the leftmost innermost group is opened: one for each of its
alternatives, or the pattern alone if there is no group. -/
def Braced.opened : {inGroup : Bool} → Braced inGroup → List (Braced inGroup)
  | _, .nil => [.nil]
  | _, .char c rest hbrace hcomma => rest.opened.map fun r => .char c r hbrace hcomma
  | _, .group alternatives rest =>
    if alternatives.groups = 0 then alternatives.toList.map fun a => a.splice rest
    else alternatives.opened.map fun o => .group o rest

/-- The same for the alternatives of a group. -/
def Alternatives.opened : Alternatives → List Alternatives
  | .two a b =>
    if a.groups = 0 then b.opened.map fun b' => .two a b' else a.opened.map fun a' => .two a' b
  | .cons a others =>
    if a.groups = 0 then others.opened.map fun o => .cons a o
    else a.opened.map fun a' => .cons a' others

end

/-! ## A round on text -/

variable {s t : Text}

theorem groupBody?_closed (hplain : ∀ c ∈ s, isBrace c = false) (hcomma : ',' ∈ s) (after : Text) :
    groupBody? (s ++ '}' :: after) = some (s, after) := by
  have hdrop : (s ++ '}' :: after).dropWhile (fun c => !isBrace c) = '}' :: after := by
    rw [List.dropWhile_append_of_pos fun c hc => by simp [hplain c hc]]
    rfl
  have htake : (s ++ '}' :: after).takeWhile (fun c => !isBrace c) = s := by
    rw [List.takeWhile_append_of_pos fun c hc => by simp [hplain c hc]]
    exact List.append_nil s
  rw [groupBody?, hdrop, htake]
  simp [hcomma]

theorem groupBody?_opening (hplain : ∀ c ∈ s, isBrace c = false) (after : Text) :
    groupBody? (s ++ '{' :: after) = none := by
  have hdrop : (s ++ '{' :: after).dropWhile (fun c => !isBrace c) = '{' :: after := by
    rw [List.dropWhile_append_of_pos fun c hc => by simp [hplain c hc]]
    rfl
  rw [groupBody?, hdrop]
  rfl

/-- A group that is found is found whatever follows. -/
theorem first?_append_of_eq_some {g : Group} (h : Group.first? s = some g) (t : Text) :
    Group.first? (s ++ t) = some { g with after := g.after ++ t } := by
  induction s generalizing g with
  | nil => simp [Group.first?] at h
  | cons c r ih =>
    rw [Group.first?] at h
    rw [List.cons_append, Group.first?]
    split at h
    · next body after hbody =>
      obtain rfl := (Option.some.inj h).symm
      split at hbody
      · next hc =>
        have hin : ∃ c ∈ r, isBrace c = true :=
          ⟨'}', by simp [(groupBody?_eq_some hbody).1], rfl⟩
        rw [if_pos hc, groupBody?_append_of_brace hin, hbody]
        rfl
      · cases hbody
    · next hbody =>
      obtain ⟨g', hg', rfl⟩ := Option.map_eq_some_iff.1 h
      have hin : ∃ c ∈ r, isBrace c = true :=
        ⟨'{', by simp [Group.first?_eq_some hg', Group.toText], rfl⟩
      have hnone : (if c = '{' then groupBody? (r ++ t) else none) = none := by
        split at hbody
        · next hc => rw [if_pos hc, groupBody?_append_of_brace hin, hbody, Option.map_none]
        · next hc => rw [if_neg hc]
      rw [hnone, ih hg']
      rfl

/-- The first group of a text that is to be opened leaves the given texts. -/
def Opens (s : Text) (ts : List Text) : Prop :=
  ∃ g, Group.first? s = some g ∧ g.expand = ts

namespace Opens

variable {ts : List Text}

theorem expandOnce (h : Opens s ts) : Glob.expandOnce s = ts := by
  obtain ⟨g, hg, rfl⟩ := h
  rw [Glob.expandOnce, hg]

theorem first?_ne_none (h : Opens s ts) : Group.first? s ≠ none := by
  obtain ⟨g, hg, -⟩ := h
  rw [hg]
  exact Option.some_ne_none g

theorem append (h : Opens s ts) (t : Text) : Opens (s ++ t) (ts.map (· ++ t)) := by
  obtain ⟨g, hg, rfl⟩ := h
  exact ⟨_, first?_append_of_eq_some hg t, by simp [Group.expand]⟩

/-- A brace in front makes no difference if it does not open the group. -/
theorem cons (h : Opens s ts) {c : Char} (hc : c = '{' → groupBody? s = none) :
    Opens (c :: s) (ts.map (c :: ·)) := by
  obtain ⟨g, hg, rfl⟩ := h
  have hnone : (if c = '{' then groupBody? s else none) = none := by
    split
    · next hbrace => exact hc hbrace
    · rfl
  refine ⟨{ g with before := c :: g.before }, ?_, by simp [Group.expand]⟩
  rw [Group.first?, hnone, hg]
  rfl

theorem append_left (h : Opens s ts) {t : Text} (ht : ∀ c ∈ t, isBrace c = false) :
    Opens (t ++ s) (ts.map (t ++ ·)) := by
  induction t with
  | nil => simpa using h
  | cons c t ih =>
    rw [List.forall_mem_cons] at ht
    have hopens := (ih ht.2).cons (c := c) fun hc => absurd ht.1 (by simp [hc, isBrace])
    rwa [List.map_map] at hopens

theorem append_comma (h : Opens s ts) {t : Text} (ht : ∀ c ∈ t, isBrace c = false) :
    Opens (t ++ ',' :: s) (ts.map fun u => t ++ ',' :: u) := by
  have hopens := (h.cons (c := ',') nofun).append_left ht
  rwa [List.map_map] at hopens

end Opens

/-- A group without inner braces is opened. -/
theorem opens_group (hplain : ∀ c ∈ s, isBrace c = false) (hcomma : ',' ∈ s) (after : Text) :
    Opens ('{' :: (s ++ '}' :: after)) ((s.splitOn ',').map (· ++ after)) := by
  refine ⟨⟨[], s.splitOn ',', after⟩, ?_, by simp [Group.expand]⟩
  rw [Group.first?, if_pos rfl, groupBody?_closed hplain hcomma]

theorem first?_of_not_brace (hplain : ∀ c ∈ s, isBrace c = false) : Group.first? s = none := by
  have h := first?_append hplain []
  rwa [List.nil_append] at h

/-! ## Trees without groups -/

namespace Braced

variable {inGroup : Bool}

theorem not_brace_of_mem_toText : {inGroup : Bool} → (e : Braced inGroup) → e.groups = 0 →
    ∀ c ∈ e.toText, isBrace c = false
  | _, .nil, _ => List.forall_mem_nil _
  | _, .char _ rest hbrace _, hgroups =>
    List.forall_mem_cons.2 ⟨hbrace, rest.not_brace_of_mem_toText hgroups⟩
  | _, .group _ _, hgroups => by
    rw [groups] at hgroups
    omega

theorem not_comma_of_mem_toText : (e : Braced true) → e.groups = 0 → ',' ∉ e.toText
  | .nil, _ => List.not_mem_nil
  | .char _ rest _ hcomma, hgroups => by
    rw [toText, List.mem_cons, not_or]
    exact ⟨(hcomma rfl).symm, rest.not_comma_of_mem_toText hgroups⟩
  | .group _ _, hgroups => by
    rw [groups] at hgroups
    omega

theorem choices_of_groups_eq_zero : {inGroup : Bool} → (e : Braced inGroup) → e.groups = 0 →
    e.choices = 1
  | _, .nil, _ => rfl
  | _, .char _ rest _ _, hgroups => rest.choices_of_groups_eq_zero hgroups
  | _, .group _ _, hgroups => by
    rw [groups] at hgroups
    omega

theorem denotes_iff_of_groups_eq_zero : {inGroup : Bool} → (e : Braced inGroup) → e.groups = 0 →
    ∀ s, e.Denotes s ↔ s = e.toText
  | _, .nil, _, s => by rw [Denotes, toText]
  | _, .char c rest _ _, hgroups, s => by
    rw [Denotes, toText]
    constructor
    · rintro ⟨t, ht, rfl⟩
      rw [(rest.denotes_iff_of_groups_eq_zero hgroups t).1 ht]
    · exact fun h => ⟨_, (rest.denotes_iff_of_groups_eq_zero hgroups _).2 rfl, h⟩
  | _, .group _ _, hgroups, _ => by
    rw [groups] at hgroups
    omega

end Braced

namespace Alternatives

theorem groups_of_mem_toList : (o : Alternatives) → o.groups = 0 → ∀ a ∈ o.toList, a.groups = 0
  | .two a b, hgroups => by
    rw [groups, Nat.add_eq_zero_iff] at hgroups
    rw [toList, List.forall_mem_cons, List.forall_mem_singleton]
    exact hgroups
  | .cons a others, hgroups => by
    rw [groups, Nat.add_eq_zero_iff] at hgroups
    rw [toList, List.forall_mem_cons]
    exact ⟨hgroups.1, others.groups_of_mem_toList hgroups.2⟩

theorem toList_ne_nil (o : Alternatives) : o.toList ≠ [] := by
  cases o <;> exact List.cons_ne_nil _ _

theorem toText_eq : (o : Alternatives) →
    o.toText = List.intercalate [','] (o.toList.map Braced.toText)
  | .two a b => by
    rw [toText, toList, List.map_cons, List.map_cons, List.map_nil, List.intercalate_cons_cons,
      List.intercalate_singleton, List.append_assoc, List.singleton_append]
  | .cons a others => by
    have hne : others.toList.map Braced.toText ≠ [] := by
      simpa using others.toList_ne_nil
    rw [toText, toList, List.map_cons, List.intercalate_cons_of_ne_nil hne, ← others.toText_eq,
      List.append_assoc, List.singleton_append]

theorem comma_mem_toText (o : Alternatives) : ',' ∈ o.toText := by
  cases o with
  | two a b => exact List.mem_append_right _ List.mem_cons_self
  | cons a others => exact List.mem_append_right _ List.mem_cons_self

theorem not_brace_of_mem_toText : (o : Alternatives) → o.groups = 0 →
    ∀ c ∈ o.toText, isBrace c = false
  | .two a b, hgroups => by
    rw [groups, Nat.add_eq_zero_iff] at hgroups
    rw [toText, List.forall_mem_append, List.forall_mem_cons]
    exact ⟨a.not_brace_of_mem_toText hgroups.1, rfl, b.not_brace_of_mem_toText hgroups.2⟩
  | .cons a others, hgroups => by
    rw [groups, Nat.add_eq_zero_iff] at hgroups
    rw [toText, List.forall_mem_append, List.forall_mem_cons]
    exact ⟨a.not_brace_of_mem_toText hgroups.1, rfl, others.not_brace_of_mem_toText hgroups.2⟩

theorem splitOn_toText {o : Alternatives} (hgroups : o.groups = 0) :
    o.toText.splitOn ',' = o.toList.map Braced.toText := by
  rw [toText_eq]
  refine List.splitOn_intercalate ',' (fun s hs => ?_) (by simpa using o.toList_ne_nil)
  obtain ⟨a, ha, rfl⟩ := List.mem_map.1 hs
  exact a.not_comma_of_mem_toText (o.groups_of_mem_toList hgroups a ha)

theorem choices_of_groups_eq_zero : (o : Alternatives) → o.groups = 0 → o.choices = 1
  | .two a b, hgroups => by
    rw [groups, Nat.add_eq_zero_iff] at hgroups
    rw [choices, a.choices_of_groups_eq_zero hgroups.1, b.choices_of_groups_eq_zero hgroups.2]
  | .cons a others, hgroups => by
    rw [groups, Nat.add_eq_zero_iff] at hgroups
    rw [choices, a.choices_of_groups_eq_zero hgroups.1,
      others.choices_of_groups_eq_zero hgroups.2]

theorem denotes_iff : (o : Alternatives) → ∀ s, o.Denotes s ↔ ∃ a ∈ o.toList, a.Denotes s
  | .two a b, s => by simp [Denotes, toList]
  | .cons a others, s => by simp [Denotes, toList, others.denotes_iff]

end Alternatives

/-! ## Splicing -/

namespace Braced

theorem toText_splice : {inGroup : Bool} → (a : Braced true) → (rest : Braced inGroup) →
    (a.splice rest).toText = a.toText ++ rest.toText
  | _, .nil, rest => by rw [splice, toText, List.nil_append]
  | _, .char c tail _ _, rest => by
    rw [splice, toText, toText, tail.toText_splice rest, List.cons_append]
  | _, .group o tail, rest => by
    rw [splice, toText, toText, tail.toText_splice rest, List.cons_append, List.append_assoc,
      List.cons_append]

theorem groups_splice : {inGroup : Bool} → (a : Braced true) → (rest : Braced inGroup) →
    (a.splice rest).groups = a.groups + rest.groups
  | _, .nil, rest => by rw [splice, groups, Nat.zero_add]
  | _, .char _ tail _ _, rest => by rw [splice, groups, groups, tail.groups_splice rest]
  | _, .group o tail, rest => by
    rw [splice, groups, groups, tail.groups_splice rest, Nat.add_assoc (1 + o.groups)]

theorem choices_splice : {inGroup : Bool} → (a : Braced true) → (rest : Braced inGroup) →
    (a.splice rest).choices = a.choices * rest.choices
  | _, .nil, rest => by rw [splice, choices, Nat.one_mul]
  | _, .char _ tail _ _, rest => by rw [splice, choices, choices, tail.choices_splice rest]
  | _, .group o tail, rest => by
    rw [splice, choices, choices, tail.choices_splice rest,
      Nat.mul_assoc (o.toList.length * o.choices)]

theorem denotes_splice : {inGroup : Bool} → (a : Braced true) → (rest : Braced inGroup) → ∀ s,
    (a.splice rest).Denotes s ↔ ∃ t u, a.Denotes t ∧ rest.Denotes u ∧ s = t ++ u
  | _, .nil, rest, s => by simp [splice, Denotes]
  | _, .char c tail _ _, rest, s => by
    rw [splice, Denotes]
    constructor
    · rintro ⟨r, hr, rfl⟩
      obtain ⟨t, u, ht, hu, rfl⟩ := (tail.denotes_splice rest r).1 hr
      exact ⟨c :: t, u, ⟨t, ht, rfl⟩, hu, rfl⟩
    · rintro ⟨_, u, ⟨t, ht, rfl⟩, hu, rfl⟩
      exact ⟨t ++ u, (tail.denotes_splice rest _).2 ⟨t, u, ht, hu, rfl⟩, rfl⟩
  | _, .group o tail, rest, s => by
    rw [splice, Denotes]
    constructor
    · rintro ⟨x, r, hx, hr, rfl⟩
      obtain ⟨t, u, ht, hu, rfl⟩ := (tail.denotes_splice rest r).1 hr
      exact ⟨x ++ t, u, ⟨x, t, hx, ht, rfl⟩, hu, (List.append_assoc x t u).symm⟩
    · rintro ⟨_, u, ⟨x, t, hx, ht, rfl⟩, hu, rfl⟩
      exact ⟨x, t ++ u, hx, (tail.denotes_splice rest _).2 ⟨t, u, ht, hu, rfl⟩,
        List.append_assoc x t u⟩

end Braced

/-! ## One round -/

mutual

theorem Braced.groups_of_mem_opened : {inGroup : Bool} → (e : Braced inGroup) →
    ∀ x ∈ e.opened, x.groups = e.groups - 1
  | _, .nil => by
    rw [Braced.opened]
    exact List.forall_mem_singleton.2 rfl
  | _, .char _ rest _ _ => by
    rw [Braced.opened, Braced.groups]
    exact List.forall_mem_map.2 rest.groups_of_mem_opened
  | _, .group o rest => by
    rw [Braced.opened, Braced.groups]
    split
    · next hgroups =>
      refine List.forall_mem_map.2 fun a ha => ?_
      rw [Braced.groups_splice, o.groups_of_mem_toList hgroups a ha, hgroups]
      omega
    · next hgroups =>
      refine List.forall_mem_map.2 fun o' ho' => ?_
      rw [Braced.groups, o.groups_of_mem_opened o' ho']
      omega

theorem Alternatives.groups_of_mem_opened : (o : Alternatives) →
    ∀ x ∈ o.opened, x.groups = o.groups - 1
  | .two a b => by
    rw [Alternatives.opened, Alternatives.groups]
    split
    · next hgroups =>
      refine List.forall_mem_map.2 fun b' hb' => ?_
      rw [Alternatives.groups, b.groups_of_mem_opened b' hb', hgroups]
      omega
    · next hgroups =>
      refine List.forall_mem_map.2 fun a' ha' => ?_
      rw [Alternatives.groups, a.groups_of_mem_opened a' ha']
      omega
  | .cons a others => by
    rw [Alternatives.opened, Alternatives.groups]
    split
    · next hgroups =>
      refine List.forall_mem_map.2 fun o' ho' => ?_
      rw [Alternatives.groups, others.groups_of_mem_opened o' ho', hgroups]
      omega
    · next hgroups =>
      refine List.forall_mem_map.2 fun a' ha' => ?_
      rw [Alternatives.groups, a.groups_of_mem_opened a' ha']
      omega

end

mutual

theorem Braced.opened_ne_nil : {inGroup : Bool} → (e : Braced inGroup) → e.opened ≠ []
  | _, .nil => by simp [Braced.opened]
  | _, .char _ rest _ _ => by simpa [Braced.opened] using rest.opened_ne_nil
  | _, .group o rest => by
    rw [Braced.opened]
    split
    · simpa using o.toList_ne_nil
    · simpa using o.opened_ne_nil

theorem Alternatives.opened_ne_nil : (o : Alternatives) → o.opened ≠ []
  | .two a b => by
    rw [Alternatives.opened]
    split
    · simpa using b.opened_ne_nil
    · simpa using a.opened_ne_nil
  | .cons a others => by
    rw [Alternatives.opened]
    split
    · simpa using others.opened_ne_nil
    · simpa using a.opened_ne_nil

end

/-- A round keeps the number of alternatives of a group around the one that it opens. -/
theorem Alternatives.length_toList_of_mem_opened : (o : Alternatives) →
    ∀ x ∈ o.opened, x.toList.length = o.toList.length
  | .two a b => by
    rw [opened]
    split
    · exact List.forall_mem_map.2 fun _ _ => rfl
    · exact List.forall_mem_map.2 fun _ _ => rfl
  | .cons a others => by
    rw [opened]
    split
    · exact List.forall_mem_map.2 fun o' ho' =>
        congrArg (· + 1) (others.length_toList_of_mem_opened o' ho')
    · exact List.forall_mem_map.2 fun _ _ => rfl

mutual

/-- A round makes some of the choices and leaves the others. -/
theorem Braced.sum_choices_opened : {inGroup : Bool} → (e : Braced inGroup) →
    (e.opened.map Braced.choices).sum = e.choices
  | _, .nil => by simp [Braced.opened]
  | _, .char _ rest _ _ => by
    rw [Braced.opened, Braced.choices, List.map_map]
    exact rest.sum_choices_opened
  | _, .group o rest => by
    rw [Braced.opened, Braced.choices]
    split
    · next hgroups =>
      have hone : ∀ a ∈ o.toList, (Braced.choices ∘ fun a => a.splice rest) a = rest.choices := by
        intro a ha
        rw [Function.comp_apply, Braced.choices_splice,
          a.choices_of_groups_eq_zero (o.groups_of_mem_toList hgroups a ha), Nat.one_mul]
      rw [List.map_map, List.map_congr_left hone, List.map_const',
        List.sum_replicate_nat, o.choices_of_groups_eq_zero hgroups, Nat.mul_one]
    · have hlength : ∀ o' ∈ o.opened, o'.toList.length = o.toList.length :=
        o.length_toList_of_mem_opened
      have hchoices : ∀ o' ∈ o.opened, (Braced.choices ∘ fun o => Braced.group o rest) o' =
          o'.choices * (o.toList.length * rest.choices) := by
        intro o' ho'
        rw [Function.comp_apply, Braced.choices, hlength o' ho']
        ring
      rw [List.map_map, List.map_congr_left hchoices, List.sum_map_mul_right,
        o.sum_choices_opened]
      ring

theorem Alternatives.sum_choices_opened : (o : Alternatives) →
    (o.opened.map Alternatives.choices).sum = o.choices
  | .two a b => by
    rw [Alternatives.opened, Alternatives.choices]
    split
    · have hchoices :
          Alternatives.choices ∘ Alternatives.two a = fun b' => a.choices * b'.choices :=
        funext fun b' => by rw [Function.comp_apply, Alternatives.choices]
      rw [List.map_map, hchoices, List.sum_map_mul_left, b.sum_choices_opened]
    · have hchoices : (Alternatives.choices ∘ fun a' => Alternatives.two a' b) =
          fun a' => a'.choices * b.choices :=
        funext fun a' => by rw [Function.comp_apply, Alternatives.choices]
      rw [List.map_map, hchoices, List.sum_map_mul_right, a.sum_choices_opened]
  | .cons a others => by
    rw [Alternatives.opened, Alternatives.choices]
    split
    · have hchoices : Alternatives.choices ∘ Alternatives.cons a = fun o => a.choices * o.choices :=
        funext fun o => by rw [Function.comp_apply, Alternatives.choices]
      rw [List.map_map, hchoices, List.sum_map_mul_left, others.sum_choices_opened]
    · have hchoices : (Alternatives.choices ∘ fun a' => Alternatives.cons a' others) =
          fun a' => a'.choices * others.choices :=
        funext fun a' => by rw [Function.comp_apply, Alternatives.choices]
      rw [List.map_map, hchoices, List.sum_map_mul_right, a.sum_choices_opened]

end

theorem exists_mem_or_left {α : Type} {xs : List α} (hne : xs ≠ []) {p : Prop} {q : α → Prop} :
    (p ∨ ∃ x ∈ xs, q x) ↔ ∃ x ∈ xs, p ∨ q x := by
  constructor
  · rintro (hp | ⟨x, hx, hq⟩)
    · obtain ⟨x, hx⟩ := List.exists_mem_of_ne_nil xs hne
      exact ⟨x, hx, Or.inl hp⟩
    · exact ⟨x, hx, Or.inr hq⟩
  · rintro ⟨x, hx, hp | hq⟩
    · exact Or.inl hp
    · exact Or.inr ⟨x, hx, hq⟩

theorem exists_mem_or_right {α : Type} {xs : List α} (hne : xs ≠ []) {p : Prop} {q : α → Prop} :
    ((∃ x ∈ xs, q x) ∨ p) ↔ ∃ x ∈ xs, q x ∨ p := by
  rw [or_comm, exists_mem_or_left hne]
  simp only [or_comm]

mutual

/-- A round loses no text that a pattern stands for, and makes none that it does not. -/
theorem Braced.denotes_iff_opened : {inGroup : Bool} → (e : Braced inGroup) → ∀ s,
    e.Denotes s ↔ ∃ x ∈ e.opened, x.Denotes s
  | _, .nil, s => by simp [Braced.opened]
  | _, .char c rest _ _, s => by
    rw [Braced.opened, Braced.Denotes]
    simp only [List.mem_map, exists_exists_and_eq_and]
    constructor
    · rintro ⟨t, ht, rfl⟩
      obtain ⟨r, hr, ht⟩ := (rest.denotes_iff_opened t).1 ht
      refine ⟨r, hr, ?_⟩
      rw [Braced.Denotes]
      exact ⟨t, ht, rfl⟩
    · rintro ⟨r, hr, h⟩
      rw [Braced.Denotes] at h
      obtain ⟨t, ht, rfl⟩ := h
      exact ⟨t, (rest.denotes_iff_opened t).2 ⟨r, hr, ht⟩, rfl⟩
  | _, .group o rest, s => by
    rw [Braced.opened, Braced.Denotes]
    split
    · simp only [List.mem_map, exists_exists_and_eq_and, Braced.denotes_splice, o.denotes_iff]
      constructor
      · rintro ⟨t, u, ⟨a, ha, ht⟩, hu, rfl⟩
        exact ⟨a, ha, t, u, ht, hu, rfl⟩
      · rintro ⟨a, ha, t, u, ht, hu, rfl⟩
        exact ⟨t, u, ⟨a, ha, ht⟩, hu, rfl⟩
    · simp only [List.mem_map, exists_exists_and_eq_and, Braced.Denotes, o.denotes_iff_opened]
      constructor
      · rintro ⟨t, u, ⟨o', ho', ht⟩, hu, rfl⟩
        exact ⟨o', ho', t, u, ht, hu, rfl⟩
      · rintro ⟨o', ho', t, u, ht, hu, rfl⟩
        exact ⟨t, u, ⟨o', ho', ht⟩, hu, rfl⟩

theorem Alternatives.denotes_iff_opened : (o : Alternatives) → ∀ s,
    o.Denotes s ↔ ∃ x ∈ o.opened, x.Denotes s
  | .two a b, s => by
    rw [Alternatives.opened, Alternatives.Denotes]
    split
    · simp only [List.mem_map, exists_exists_and_eq_and, b.denotes_iff_opened s,
        Alternatives.Denotes]
      exact exists_mem_or_left b.opened_ne_nil
    · simp only [List.mem_map, exists_exists_and_eq_and, a.denotes_iff_opened s,
        Alternatives.Denotes]
      exact exists_mem_or_right a.opened_ne_nil
  | .cons a others, s => by
    rw [Alternatives.opened, Alternatives.Denotes]
    split
    · simp only [List.mem_map, exists_exists_and_eq_and, others.denotes_iff_opened s,
        Alternatives.Denotes]
      exact exists_mem_or_left others.opened_ne_nil
    · simp only [List.mem_map, exists_exists_and_eq_and, a.denotes_iff_opened s,
        Alternatives.Denotes]
      exact exists_mem_or_right a.opened_ne_nil

end

/-! ## The text of a round -/

/-- Where there are groups, the first brace opens one. -/
theorem Braced.exists_opening : {inGroup : Bool} → (e : Braced inGroup) → e.groups ≠ 0 →
    ∃ s t, e.toText = s ++ '{' :: t ∧ ∀ c ∈ s, isBrace c = false
  | _, .nil, hgroups => absurd rfl hgroups
  | _, .char c rest hbrace _, hgroups => by
    obtain ⟨s, t, htext, hs⟩ := rest.exists_opening hgroups
    exact ⟨c :: s, t, congrArg (c :: ·) htext, List.forall_mem_cons.2 ⟨hbrace, hs⟩⟩
  | _, .group o rest, _ => ⟨[], _, rfl, List.forall_mem_nil _⟩

/-- An opening brace in one of two texts with a comma between them is in the first, or it is in the
second and there is no brace before that. -/
theorem exists_opening_append {s t : Text} {m n : Nat} (hgroups : m + n ≠ 0)
    (hs : m ≠ 0 → ∃ u v, s = u ++ '{' :: v ∧ ∀ c ∈ u, isBrace c = false)
    (hplain : m = 0 → ∀ c ∈ s, isBrace c = false)
    (ht : n ≠ 0 → ∃ u v, t = u ++ '{' :: v ∧ ∀ c ∈ u, isBrace c = false) :
    ∃ u v, s ++ ',' :: t = u ++ '{' :: v ∧ ∀ c ∈ u, isBrace c = false := by
  by_cases hm : m = 0
  · obtain ⟨u, v, rfl, hu⟩ := ht (by omega)
    exact ⟨s ++ ',' :: u, v, by simp,
      List.forall_mem_append.2 ⟨hplain hm, List.forall_mem_cons.2 ⟨rfl, hu⟩⟩⟩
  · obtain ⟨u, v, rfl, hu⟩ := hs hm
    exact ⟨u, v ++ ',' :: t, by simp, hu⟩

theorem Alternatives.exists_opening : (o : Alternatives) → o.groups ≠ 0 →
    ∃ s t, o.toText = s ++ '{' :: t ∧ ∀ c ∈ s, isBrace c = false
  | .two a b, hgroups =>
    exists_opening_append hgroups a.exists_opening a.not_brace_of_mem_toText b.exists_opening
  | .cons a others, hgroups =>
    exists_opening_append hgroups a.exists_opening a.not_brace_of_mem_toText
      others.exists_opening

theorem Alternatives.groupBody?_toText {o : Alternatives} (hgroups : o.groups ≠ 0) (after : Text) :
    groupBody? (o.toText ++ after) = none := by
  obtain ⟨s, t, htext, hs⟩ := o.exists_opening hgroups
  rw [htext, List.append_assoc]
  exact groupBody?_opening hs _

mutual

/-- The text of a pattern with groups is opened as the pattern is. -/
theorem Braced.opens_toText : {inGroup : Bool} → (e : Braced inGroup) → e.groups ≠ 0 →
    Opens e.toText (e.opened.map Braced.toText)
  | _, .nil, hgroups => absurd rfl hgroups
  | _, .char c rest hbrace _, hgroups => by
    have hopens := (rest.opens_toText hgroups).cons (c := c) fun hc => by
      rw [hc] at hbrace
      exact absurd hbrace (by decide)
    rw [Braced.opened, Braced.toText, List.map_map]
    rwa [List.map_map] at hopens
  | _, .group o rest, _ => by
    rw [Braced.opened, Braced.toText]
    split
    · next hgroups =>
      have hopens := opens_group (o.not_brace_of_mem_toText hgroups) o.comma_mem_toText rest.toText
      rw [Alternatives.splitOn_toText hgroups, List.map_map] at hopens
      rw [List.map_map]
      have htext : Braced.toText ∘ (fun a => a.splice rest) =
          (· ++ rest.toText) ∘ Braced.toText := funext fun a => a.toText_splice rest
      rwa [htext]
    · next hgroups =>
      have hopens := ((o.opens_toText hgroups).append ('}' :: rest.toText)).cons (c := '{') fun _ =>
        Alternatives.groupBody?_toText hgroups _
      rw [List.map_map, List.map_map] at hopens
      rw [List.map_map]
      have htext : Braced.toText ∘ (fun o => Braced.group o rest) =
          ('{' :: ·) ∘ (· ++ '}' :: rest.toText) ∘ Alternatives.toText :=
        funext fun o => by rw [Function.comp_apply, Braced.toText]; rfl
      rwa [htext]

theorem Alternatives.opens_toText : (o : Alternatives) → o.groups ≠ 0 →
    Opens o.toText (o.opened.map Alternatives.toText)
  | .two a b, hgroups => by
    rw [Alternatives.groups] at hgroups
    rw [Alternatives.opened, Alternatives.toText]
    split
    · next hplain =>
      have hopens := (b.opens_toText (by omega)).append_comma (a.not_brace_of_mem_toText hplain)
      rw [List.map_map] at hopens ⊢
      have htext : Alternatives.toText ∘ Alternatives.two a =
          (fun u => a.toText ++ ',' :: u) ∘ Braced.toText :=
        funext fun b' => by rw [Function.comp_apply, Alternatives.toText]; rfl
      rwa [htext]
    · next hplain =>
      have hopens := (a.opens_toText hplain).append (',' :: b.toText)
      rw [List.map_map] at hopens ⊢
      have htext : (Alternatives.toText ∘ fun a' => Alternatives.two a' b) =
          (· ++ ',' :: b.toText) ∘ Braced.toText :=
        funext fun a' => by rw [Function.comp_apply, Alternatives.toText]; rfl
      rwa [htext]
  | .cons a others, hgroups => by
    rw [Alternatives.groups] at hgroups
    rw [Alternatives.opened, Alternatives.toText]
    split
    · next hplain =>
      have hopens :=
        (others.opens_toText (by omega)).append_comma (a.not_brace_of_mem_toText hplain)
      rw [List.map_map] at hopens ⊢
      have htext : Alternatives.toText ∘ Alternatives.cons a =
          (fun u => a.toText ++ ',' :: u) ∘ Alternatives.toText :=
        funext fun o => by rw [Function.comp_apply, Alternatives.toText]; rfl
      rwa [htext]
    · next hplain =>
      have hopens := (a.opens_toText hplain).append (',' :: others.toText)
      rw [List.map_map] at hopens ⊢
      have htext : (Alternatives.toText ∘ fun a' => Alternatives.cons a' others) =
          (· ++ ',' :: others.toText) ∘ Braced.toText :=
        funext fun a' => by rw [Function.comp_apply, Alternatives.toText]; rfl
      rwa [htext]

end

theorem Braced.opened_of_groups_eq_zero : {inGroup : Bool} → (e : Braced inGroup) →
    e.groups = 0 → e.opened = [e]
  | _, .nil, _ => by rw [opened]
  | _, .char _ rest _ _, hgroups => by
    rw [opened, rest.opened_of_groups_eq_zero hgroups, List.map_singleton]
  | _, .group _ _, hgroups => by
    rw [groups] at hgroups
    omega

theorem Braced.first?_toText_eq_none_iff {inGroup : Bool} (e : Braced inGroup) :
    Group.first? e.toText = none ↔ e.groups = 0 := by
  constructor
  · intro h
    by_contra hgroups
    exact (e.opens_toText hgroups).first?_ne_none h
  · exact fun hgroups => first?_of_not_brace (e.not_brace_of_mem_toText hgroups)

/-- A round on the text of a pattern is a round on the pattern. -/
theorem expandOnce_toText {inGroup : Bool} (e : Braced inGroup) :
    expandOnce e.toText = e.opened.map Braced.toText := by
  by_cases hgroups : e.groups = 0
  · rw [e.opened_of_groups_eq_zero hgroups, List.map_singleton, expandOnce,
      e.first?_toText_eq_none_iff.2 hgroups]
  · exact (e.opens_toText hgroups).expandOnce

mutual

theorem Braced.count_toText : {inGroup : Bool} → (e : Braced inGroup) →
    e.toText.count '{' = e.groups
  | _, .nil => rfl
  | _, .char c rest hbrace _ => by
    have hc : c ≠ '{' := by
      rintro rfl
      exact absurd hbrace (by decide)
    rw [Braced.toText, Braced.groups, List.count_cons_of_ne hc, rest.count_toText]
  | _, .group o rest => by
    rw [Braced.toText, Braced.groups, List.count_cons_self, List.count_append,
      List.count_cons_of_ne (by decide), rest.count_toText, o.count_toText]
    omega

theorem Alternatives.count_toText : (o : Alternatives) → o.toText.count '{' = o.groups
  | .two a b => by
    rw [Alternatives.toText, Alternatives.groups, List.count_append,
      List.count_cons_of_ne (by decide), a.count_toText, b.count_toText]
  | .cons a others => by
    rw [Alternatives.toText, Alternatives.groups, List.count_append,
      List.count_cons_of_ne (by decide), a.count_toText, others.count_toText]

end

/-! ## All rounds -/

mutual

theorem Braced.choices_pos : {inGroup : Bool} → (e : Braced inGroup) → 0 < e.choices
  | _, .nil => Nat.one_pos
  | _, .char _ rest _ _ => rest.choices_pos
  | _, .group o rest => by
    rw [Braced.choices]
    exact Nat.mul_pos (Nat.mul_pos (List.length_pos_iff.2 o.toList_ne_nil) o.choices_pos)
      rest.choices_pos

theorem Alternatives.choices_pos : (o : Alternatives) → 0 < o.choices
  | .two a b => Nat.mul_pos a.choices_pos b.choices_pos
  | .cons a others => Nat.mul_pos a.choices_pos others.choices_pos

end

variable {inGroup : Bool} {es : List (Braced inGroup)}

theorem length_le_sum_choices (es : List (Braced inGroup)) :
    es.length ≤ (es.map Braced.choices).sum := by
  have h := List.length_le_sum_of_one_le (es.map Braced.choices) (by
    intro n hn
    obtain ⟨e, -, rfl⟩ := List.mem_map.1 hn
    exact e.choices_pos)
  rwa [List.length_map] at h

/-- Patterns without groups are all that they stand for, with one choice each. -/
theorem settled (hgroups : ∀ e ∈ es, e.groups = 0) :
    (es.map Braced.toText).length = (es.map Braced.choices).sum ∧
      ∀ s, s ∈ es.map Braced.toText ↔ ∃ e ∈ es, e.Denotes s := by
  constructor
  · have hone : ∀ e ∈ es, e.choices = 1 := fun e he => e.choices_of_groups_eq_zero (hgroups e he)
    rw [List.map_congr_left hone, List.map_const', List.sum_replicate_nat, List.length_map,
      Nat.mul_one]
  · intro s
    rw [List.mem_map]
    refine exists_congr fun e => and_congr_right fun he => ?_
    rw [e.denotes_iff_of_groups_eq_zero (hgroups e he), eq_comm]

/-- The patterns that a round would leave are counted before it is made. -/
theorem foldr_expandOnceCount (ps : List Text) :
    ps.foldr (fun p n => expandOnceCount p + n) 0 = (ps.flatMap expandOnce).length := by
  induction ps with
  | nil => rfl
  | cons p ps ih =>
    rw [List.foldr_cons, ih, List.flatMap_cons, List.length_append, length_expandOnce]

/-- One round on the texts of patterns. -/
theorem flatMap_expandOnce_toText (es : List (Braced inGroup)) :
    (es.map Braced.toText).flatMap expandOnce = (es.flatMap Braced.opened).map Braced.toText := by
  rw [List.flatMap_map, List.map_flatMap]
  exact List.flatMap_congr fun e _ => expandOnce_toText e

theorem sum_choices_flatMap_opened (es : List (Braced inGroup)) :
    ((es.flatMap Braced.opened).map Braced.choices).sum = (es.map Braced.choices).sum := by
  induction es with
  | nil => rfl
  | cons e es ih =>
    rw [List.flatMap_cons, List.map_append, List.sum_append, e.sum_choices_opened, ih,
      List.map_cons, List.sum_cons]

theorem expandRounds_toText {rounds : Nat} (hgroups : ∀ e ∈ es, e.groups ≤ rounds)
    (hchoices : (es.map Braced.choices).sum ≤ maxPatterns) :
    (expandRounds rounds (es.map Braced.toText)).length = (es.map Braced.choices).sum ∧
      ∀ s, s ∈ expandRounds rounds (es.map Braced.toText) ↔ ∃ e ∈ es, e.Denotes s := by
  induction rounds generalizing es with
  | zero => exact settled fun e he => Nat.le_zero.1 (hgroups e he)
  | succ rounds ih =>
    rw [expandRounds]
    split
    · next hdone =>
      refine settled fun e he => e.first?_toText_eq_none_iff.1 ?_
      simpa using List.all_eq_true.1 hdone _ (List.mem_map_of_mem he)
    · have hsum := sum_choices_flatMap_opened es
      have hfits : ¬maxPatterns <
          (es.map Braced.toText).foldr (fun p n => expandOnceCount p + n) 0 := by
        rw [foldr_expandOnceCount, flatMap_expandOnce_toText, List.length_map]
        have hle := length_le_sum_choices (es.flatMap Braced.opened)
        omega
      rw [if_neg hfits, flatMap_expandOnce_toText]
      have hnext : ∀ e ∈ es.flatMap Braced.opened, e.groups ≤ rounds := by
        intro x hx
        obtain ⟨e, he, hx⟩ := List.mem_flatMap.1 hx
        rw [e.groups_of_mem_opened x hx]
        exact Nat.sub_le_of_le_add (hgroups e he)
      obtain ⟨hlength, hmem⟩ := ih hnext (hsum.trans_le hchoices)
      refine ⟨hlength.trans hsum, fun s => (hmem s).trans ?_⟩
      constructor
      · rintro ⟨x, hx, hs⟩
        obtain ⟨e, he, hx⟩ := List.mem_flatMap.1 hx
        exact ⟨e, he, (e.denotes_iff_opened s).2 ⟨x, hx, hs⟩⟩
      · rintro ⟨e, he, hs⟩
        obtain ⟨x, hx, hs⟩ := (e.denotes_iff_opened s).1 hs
        exact ⟨x, List.mem_flatMap_of_mem he hx, hs⟩

/-- **Brace expansion.** A pattern with at most a thousand choices has as many alternatives as
there are choices, and they are the texts that it stands for. -/
theorem expandBraces_toText (e : Braced false) (hchoices : e.choices ≤ 1000) :
    (expandBraces e.toText).length = e.choices ∧
      ∀ s, s ∈ expandBraces e.toText ↔ e.Denotes s := by
  have hrounds := @expandRounds_toText false [e] e.groups (by simp)
    (by simpa [maxPatterns] using hchoices)
  rw [expandBraces, e.count_toText]
  simpa using hrounds

/-- The pattern `{a,{,b}},x`, with a group in a group, an alternative without text, and a comma that
is a literal character. -/
def nestedPattern : Braced false :=
  .group (.two (.char 'a' .nil) (.group (.two .nil (.char 'b' .nil)) .nil))
    (.char ',' (.char 'x' .nil))

theorem expandBraces_nestedPattern :
    nestedPattern.toText = "{a,{,b}},x".toList ∧ nestedPattern.choices ≤ 1000 ∧
      (expandBraces nestedPattern.toText).length = nestedPattern.choices ∧
      ∀ s, s ∈ expandBraces nestedPattern.toText ↔ nestedPattern.Denotes s :=
  ⟨by decide, by decide, expandBraces_toText nestedPattern (by decide)⟩

/-- The text that is left of two choices is there twice. -/
example : expandBraces "{a,{,b}},x".toList =
    ["a,x".toList, ",x".toList, "a,x".toList, "b,x".toList] := by
  decide

end Bindery.Glob

import Bindery.Ignore.Memory
import Mathlib.Data.List.Nodup
import Mathlib.Order.Basic

/-!
# Answers from memory

A memory of answers changes none of them: whatever was asked before, remembered or forgotten, the
rules are asked as if nothing were remembered.  The questions that are remembered are those of the
order in which they are forgotten, each once, and never more than the bound.

* `IgnoreRule.Query`: what rules are asked, and the single questions that this takes.
* `IgnoreMemory.InStep`, `IgnoreMemory.Remembers`: the invariant, kept by every single question.
* `IgnoreMemory.askAll_ofRules`: the answers of any number of queries.
-/

namespace Bindery

/-! ## Queries -/

namespace IgnoreRule

variable (rules : List IgnoreRule)

/-- What rules are asked. -/
inductive Query
  /-- Whether a path is ignored by itself. -/
  | entry (path : Text) (isDirectory : Bool)
  /-- Whether a file is ignored, itself or through a directory above it. -/
  | file (path : Text)

/-- The answer to a query, worked out from the rules. -/
def Query.answer : Query → Bool
  | .entry path isDirectory => isIgnored rules path isDirectory
  | .file path => isPathIgnored rules path

/-- The single questions about directories, up to the first that is ignored. -/
def questionsAmong : List Text → List (Text × Bool)
  | [] => []
  | d :: ds => (d, true) :: if isIgnored rules d true then [] else questionsAmong ds

/-- The single questions that a query takes.  A file is asked about last, if at all. -/
def Query.questions : Query → List (Text × Bool)
  | .entry path isDirectory => [(path, isDirectory)]
  | .file path =>
    questionsAmong rules (ancestors path) ++
      if (ancestors path).any (isIgnored rules · true) then [] else [(path, false)]

end IgnoreRule

namespace IgnoreMemory

open IgnoreRule (Query)

variable {rules : List IgnoreRule} {m : IgnoreMemory} {question : Text × Bool}

/-- Answers a query. -/
def ask (m : IgnoreMemory) : Query → Bool × IgnoreMemory
  | .entry path isDirectory => m.isIgnored path isDirectory
  | .file path => m.isPathIgnored path

/-- Answers queries one after the other. -/
def askAll (m : IgnoreMemory) : List Query → List Bool × IgnoreMemory
  | [] => ([], m)
  | q :: qs =>
    let (answer, m) := m.ask q
    let (answers, m) := m.askAll qs
    (answer :: answers, m)

/-- The memory after single questions. -/
def after (m : IgnoreMemory) (questions : List (Text × Bool)) : IgnoreMemory :=
  questions.foldl (fun m question => (m.isIgnored question.1 question.2).2) m

theorem after_append (m : IgnoreMemory) (asked questions : List (Text × Bool)) :
    m.after (asked ++ questions) = (m.after asked).after questions :=
  List.foldl_append

/-! ## One answer more -/

/-- The remembered questions are those of the order, each once, and not more than the bound. -/
structure InStep (m : IgnoreMemory) : Prop where
  mem_answers_iff : ∀ question, question ∈ m.answers ↔ question ∈ m.order
  nodup : m.order.Nodup
  length_le : m.order.length ≤ bound

/-- As many answers are remembered as the order has questions. -/
theorem InStep.size_answers (hm : m.InStep) : m.answers.size = m.order.length := by
  have hperm : m.answers.keys.Perm m.order :=
    (List.perm_ext_iff_of_nodup m.answers.nodup_keys hm.nodup).2 fun question => by
      rw [Std.HashMap.mem_keys, hm.mem_answers_iff]
  rw [← Std.HashMap.length_keys, hperm.length_eq]

theorem inStep_ofRules (rules : List IgnoreRule) : (ofRules rules).InStep where
  mem_answers_iff _ :=
    iff_of_false Std.HashMap.not_mem_empty List.not_mem_nil
  nodup := List.nodup_nil
  length_le := Nat.zero_le bound

/-- Below the bound nothing is forgotten, at the bound the oldest question. -/
theorem InStep.remember_cases (hm : m.InStep) (question : Text × Bool) (answer : Bool) :
    (m.order.length < bound ∧ m.remember question answer =
        ⟨m.rules, m.answers.insert question answer, m.order ++ [question]⟩) ∨
      ∃ oldest rest, m.order = oldest :: rest ∧ m.remember question answer =
        ⟨m.rules, (m.answers.insert question answer).erase oldest, rest ++ [question]⟩ := by
  have hlength : (m.order ++ [question]).length = m.order.length + 1 :=
    List.length_append
  rw [remember, hlength]
  rcases Nat.lt_or_eq_of_le hm.length_le with hlt | heq
  · rw [if_neg (Nat.not_lt.2 hlt)]
    exact Or.inl ⟨hlt, rfl⟩
  · have hpos : 0 < m.order.length := heq ▸ Nat.succ_pos 4095
    obtain ⟨oldest, rest, horder⟩ := List.exists_cons_of_length_pos hpos
    rw [if_pos (by omega), horder, List.cons_append]
    exact Or.inr ⟨oldest, rest, rfl, rfl⟩

/-- An answer to a new question leaves everything in step. -/
theorem InStep.remember (hm : m.InStep) (hnew : question ∉ m.order) (answer : Bool) :
    (m.remember question answer).InStep := by
  have happend : (m.order ++ [question]).Nodup :=
    hm.nodup.append (List.nodup_singleton question) (by simpa using hnew)
  have hinsert : ∀ other, other ∈ m.answers.insert question answer ↔
      other ∈ m.order ++ [question] := by
    intro other
    rw [Std.HashMap.mem_insert, hm.mem_answers_iff, List.mem_append, List.mem_singleton,
      beq_iff_eq, or_comm, eq_comm]
  rcases hm.remember_cases question answer with ⟨hlt, heq⟩ | ⟨oldest, rest, horder, heq⟩
  · rw [heq]
    exact ⟨hinsert, happend, List.length_append.trans_le hlt⟩
  · have hlength := hm.length_le
    rw [horder, List.cons_append] at happend hinsert
    rw [horder] at hlength
    obtain ⟨hgone, hrest⟩ := List.nodup_cons.1 happend
    rw [heq]
    refine ⟨fun other => ?_, hrest, List.length_append.trans_le hlength⟩
    -- The oldest question is not in the order any more, because no question comes twice.
    rw [Std.HashMap.mem_erase, hinsert, List.mem_cons, beq_eq_false_iff_ne]
    constructor
    · rintro ⟨hne, rfl | hother⟩
      · exact absurd rfl hne
      · exact hother
    · exact fun hother => ⟨fun h => hgone (h ▸ hother), Or.inr hother⟩

theorem InStep.mem_order_remember (hm : m.InStep) (question : Text × Bool) (answer : Bool) :
    question ∈ (m.remember question answer).order := by
  rcases hm.remember_cases question answer with ⟨-, heq⟩ | ⟨oldest, rest, -, heq⟩ <;>
    exact heq ▸ List.mem_append_right _ List.mem_cons_self

/-- Whatever is remembered after one answer more is that answer or was remembered before. -/
theorem getElem?_remember {answer other : Bool} {asked : Text × Bool} (hm : m.InStep)
    (h : (m.remember question answer).answers[asked]? = some other) :
    (question = asked ∧ answer = other) ∨ m.answers[asked]? = some other := by
  have hinsert : (m.answers.insert question answer)[asked]? = some other := by
    rcases hm.remember_cases question answer with ⟨-, heq⟩ | ⟨oldest, rest, -, heq⟩
    · rwa [heq] at h
    · rw [heq, Std.HashMap.getElem?_erase] at h
      split at h
      · exact absurd h nofun
      · exact h
  rw [Std.HashMap.getElem?_insert] at hinsert
  split at hinsert
  · next heq => exact Or.inl ⟨beq_iff_eq.1 heq, Option.some.inj hinsert⟩
  · exact Or.inr hinsert

/-! ## Single questions -/

/-- A memory of answers that the rules give. -/
structure Remembers (rules : List IgnoreRule) (m : IgnoreMemory) : Prop extends m.InStep where
  rules_eq : m.rules = rules
  answer_eq : ∀ {question : Text × Bool} {answer : Bool}, m.answers[question]? = some answer →
    answer = IgnoreRule.isIgnored rules question.1 question.2

theorem remembers_ofRules (rules : List IgnoreRule) : Remembers rules (ofRules rules) where
  toInStep := inStep_ofRules rules
  rules_eq := rfl
  answer_eq h := absurd h (by simp [ofRules])

/-- Remembering an answer of the rules leaves a memory of such. -/
theorem Remembers.remember (hm : Remembers rules m) (hnew : question ∉ m.order) :
    Remembers rules
      (m.remember question (IgnoreRule.isIgnored rules question.1 question.2)) where
  toInStep := hm.toInStep.remember hnew _
  rules_eq := by
    rcases hm.remember_cases question (IgnoreRule.isIgnored rules question.1 question.2) with
      ⟨-, heq⟩ | ⟨oldest, rest, -, heq⟩ <;> rw [heq, hm.rules_eq]
  answer_eq h := by
    rcases getElem?_remember hm.toInStep h with ⟨rfl, rfl⟩ | h
    · rfl
    · exact hm.answer_eq h

/-- A single question has the answer of the rules, be it remembered or not, and is remembered
afterwards. -/
theorem Remembers.isIgnored (hm : Remembers rules m) (path : Text) (isDirectory : Bool) :
    (m.isIgnored path isDirectory).1 = IgnoreRule.isIgnored rules path isDirectory ∧
      Remembers rules (m.isIgnored path isDirectory).2 ∧
      (path, isDirectory) ∈ (m.isIgnored path isDirectory).2.order := by
  have hmem := hm.mem_answers_iff (path, isDirectory)
  rw [Std.HashMap.mem_iff_isSome_getElem?] at hmem
  rw [IgnoreMemory.isIgnored]
  split
  · next hanswer =>
    rw [hanswer] at hmem
    exact ⟨hm.answer_eq hanswer, hm, hmem.1 rfl⟩
  · next hnone =>
    rw [hnone] at hmem
    have hnew : (path, isDirectory) ∉ m.order := fun hold => absurd (hmem.2 hold) nofun
    rw [hm.rules_eq]
    exact ⟨rfl, hm.remember hnew, hm.mem_order_remember _ _⟩

/-- However many single questions are asked, the memory is one of answers of the rules. -/
theorem Remembers.after (hm : Remembers rules m) (questions : List (Text × Bool)) :
    Remembers rules (m.after questions) := by
  induction questions generalizing m with
  | nil => exact hm
  | cons question questions ih => exact ih (hm.isIgnored question.1 question.2).2.1

/-! ## Queries answered from memory -/

/-- Directories are asked about one by one, up to the first that is ignored. -/
theorem Remembers.anyIgnored (hm : Remembers rules m) (ds : List Text) :
    m.anyIgnored ds = (ds.any (IgnoreRule.isIgnored rules · true),
      m.after (IgnoreRule.questionsAmong rules ds)) := by
  induction ds generalizing m with
  | nil => rfl
  | cons d ds ih =>
    obtain ⟨hanswer, hnext, -⟩ := hm.isIgnored d true
    have hasked : m.isIgnored d true =
        (IgnoreRule.isIgnored rules d true, (m.isIgnored d true).2) :=
      Prod.ext hanswer rfl
    rw [IgnoreMemory.anyIgnored, IgnoreRule.questionsAmong, List.any_cons, hasked]
    cases IgnoreRule.isIgnored rules d true with
    | true => rfl
    | false => exact ih hnext

/-- A query has the answer of the rules, and leaves the memory that its single questions leave. -/
theorem Remembers.ask (hm : Remembers rules m) (q : Query) :
    m.ask q = (q.answer rules, m.after (q.questions rules)) := by
  cases q with
  | entry path isDirectory => exact Prod.ext (hm.isIgnored path isDirectory).1 rfl
  | file path =>
    have hlast := (hm.after (IgnoreRule.questionsAmong rules (IgnoreRule.ancestors path))).isIgnored
      path false
    rw [IgnoreMemory.ask, isPathIgnored, hm.anyIgnored, Query.answer, IgnoreRule.isPathIgnored,
      Query.questions, after_append]
    cases (IgnoreRule.ancestors path).any (IgnoreRule.isIgnored rules · true) with
    | true => rfl
    | false => exact Prod.ext hlast.1 rfl

theorem Remembers.askAll (hm : Remembers rules m) (queries : List Query) :
    m.askAll queries =
      (queries.map (Query.answer rules), m.after (queries.flatMap (Query.questions rules))) := by
  induction queries generalizing m with
  | nil => rfl
  | cons q queries ih =>
    have hnext : Remembers rules (m.after (q.questions rules)) := hm.after _
    rw [IgnoreMemory.askAll, hm.ask, List.flatMap_cons, after_append, List.map_cons]
    dsimp only
    rw [ih hnext]

/-- Queries are answered as the rules answer them, whatever was asked before.  After every single
question that they take, that question is remembered, and the remembered questions are those of the
order, each once, and not more than the bound. -/
theorem askAll_ofRules (rules : List IgnoreRule) (queries : List Query) :
    (ofRules rules).askAll queries =
        (queries.map (Query.answer rules),
          (ofRules rules).after (queries.flatMap (Query.questions rules))) ∧
      (∀ questions, ((ofRules rules).after questions).InStep ∧
        ((ofRules rules).after questions).answers.size ≤ bound) ∧
      ∀ questions question, question ∈ ((ofRules rules).after (questions ++ [question])).order := by
  have hafter := (remembers_ofRules rules).after
  refine ⟨(remembers_ofRules rules).askAll queries, fun questions => ?_,
    fun questions question => ?_⟩
  · have hstep := (hafter questions).toInStep
    exact ⟨hstep, hstep.size_answers.trans_le hstep.length_le⟩
  · rw [after_append]
    exact ((hafter questions).isIgnored question.1 question.2).2.2

end IgnoreMemory

end Bindery

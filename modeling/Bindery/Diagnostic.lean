import Bindery.Fault

/-!
# Diagnostics

Reports of what went wrong without stopping an operation, and results that carry them.

* `Diagnostic.toText` is the line shown for one.
* `Reported` is a result, or the fault in its place, with the reports made on the way; reports stay
  when a fault comes after them.
-/

namespace Bindery

/-- The kinds of reports. -/
inductive DiagnosticKind
  | configParseFailure
  | unknownProfileReference
  | cyclicInheritance
  | fileReadFailure
  | sizeLimitExceeded
  deriving DecidableEq, Repr

/-- The word for a kind. -/
def DiagnosticKind.word : DiagnosticKind → Text
  | configParseFailure => "config_parse_failure".toList
  | unknownProfileReference => "unknown_profile_reference".toList
  | cyclicInheritance => "cyclic_inheritance".toList
  | fileReadFailure => "file_read_failure".toList
  | sizeLimitExceeded => "size_limit_exceeded".toList

/-- A report, with the path or the profile that it is about. -/
structure Diagnostic where
  kind : DiagnosticKind
  message : Text
  path : Option Text
  profile : Option Text
  deriving DecidableEq, Repr

/-- The line shown for a report. -/
def Diagnostic.toText (d : Diagnostic) : Text :=
  '[' :: d.kind.word ++ ']' :: ' ' :: d.message

/-- What an operation leaves behind besides its result. -/
structure Notes where
  diagnostics : List Diagnostic
  /-- The roots whose ignore files were consulted. -/
  consulted : List Text
  deriving DecidableEq, Repr

namespace Notes

/-- No notes. -/
def none : Notes := ⟨[], []⟩

/-- Notes made one after the other. -/
def append (m n : Notes) : Notes :=
  ⟨m.diagnostics ++ n.diagnostics, m.consulted ++ n.consulted⟩

end Notes

/-- A result or a fault, with the notes made on the way. -/
structure Reported (α : Type) where
  notes : Notes
  result : Except Fault α

namespace Reported

variable {α β : Type}

/-- A result without notes. -/
def ok (a : α) : Reported α := ⟨.none, .ok a⟩

/-- A fault without notes. -/
def fail (f : Fault) : Reported α := ⟨.none, .error f⟩

/-- A result or a fault without notes. -/
def ofExcept (r : Except Fault α) : Reported α := ⟨.none, r⟩

/-- One operation after another: a fault ends it, and the notes up to there stay. -/
def bind (x : Reported α) (f : α → Reported β) : Reported β :=
  match x.result with
  | .error e => ⟨x.notes, .error e⟩
  | .ok a => ⟨x.notes.append (f a).notes, (f a).result⟩

instance : Monad Reported where
  pure := ok
  bind := bind

theorem ok_bind (a : α) (f : α → Reported β) : (ok a).bind f = f a := by
  simp [ok, bind, Notes.append, Notes.none]

theorem bind_ok (x : Reported α) : x.bind ok = x := by
  obtain ⟨notes, result⟩ := x
  cases result <;> simp [ok, bind, Notes.append, Notes.none]

theorem bind_assoc {γ : Type} (x : Reported α) (f : α → Reported β) (g : β → Reported γ) :
    (x.bind f).bind g = x.bind fun a => (f a).bind g := by
  obtain ⟨notes, result⟩ := x
  cases result with
  | error e => rfl
  | ok a =>
    simp only [bind]
    cases (f a).result <;> simp [Notes.append]

instance : LawfulMonad Reported :=
  LawfulMonad.mk' Reported bind_ok ok_bind bind_assoc

/-- Makes a report. -/
def report (d : Diagnostic) : Reported Unit := ⟨⟨[d], []⟩, .ok ()⟩

/-- Notes that the ignore file of a root is consulted. -/
def consult (root : Text) : Reported Unit := ⟨⟨[], [root]⟩, .ok ()⟩

end Reported

end Bindery

import Bindery.Files.Error
import Bindery.Regex.Reader

/-!
# Faults

Why an operation of the program gives no answer.
-/

namespace Bindery

/-- Why an operation gives no answer. -/
inductive Fault
  /-- The expression made from a pattern cannot be read. -/
  | expression (flaw : Regex.Flaw)
  /-- A path holds a null character. -/
  | nullCharacter
  /-- The file system refuses an operation. -/
  | file (error : FileError)
  /-- A path begins with the home directory of an unknown user. -/
  | unknownHome
  /-- A symbolic link leads back to itself. -/
  | linkLoop
  /-- A profile file cannot be read as text. -/
  | unreadable (path reason : Text)
  /-- Profiles inherit from each other; the chain begins and ends with the same name. -/
  | cycle (chain : List Text)
  /-- A path goes on below the mark of another. -/
  | belowMark
  /-- A mark stands where a branch is needed, or a branch where a mark is. -/
  | markAsBranch
  /-- A value stands where a text is needed. -/
  | notText
  /-- A number is too large for a double. -/
  | tooLarge
  /-- A value in a file or in the environment is nested too deep. -/
  | tooDeep
  /-- A name is asked for by an option and none is given. -/
  | noName
  deriving DecidableEq, Repr

namespace Fault

/-- The wording of a fault. -/
def message : Fault → Text
  | expression (.badRange low high) => "bad character range ".toList ++ low ++ '-' :: high
  | expression .malformed => "malformed expression".toList
  | nullCharacter => "embedded null character in a path".toList
  | file e => e.wording
  | unknownHome => "Could not determine home directory.".toList
  | linkLoop => "Symlink loop".toList
  | unreadable path reason =>
    "Error parsing config file ".toList ++ path ++ ": ".toList ++ reason
  | cycle chain =>
    "Profile inheritance cycle: ".toList ++ List.intercalate " -> ".toList chain
  | belowMark => "a path goes on below a mark".toList
  | markAsBranch => "a mark stands in the place of a branch".toList
  | notText => "a name is not a text".toList
  | tooLarge => "a number is too large".toList
  | tooDeep => "a value is nested too deep".toList
  | noName => "an option has no name".toList

/-- What to do about a fault of profiles. -/
def hint : Fault → Text
  | unreadable _ _ => "Check that the file exists, is readable and is UTF-8 encoded.".toList
  | cycle _ => "Remove one of the parent references in the cycle.".toList
  | _ => []

end Fault

end Bindery

import Bindery.Text.Quoted

/-!
# File errors

Why the file system refuses an operation, with the number and the wording of each cause.

* `FileError.message` is the text shown for an error at a path.
-/

namespace Bindery

/-- Why a file operation is refused. -/
inductive FileError
  | notFound
  | busy
  | alreadyExists
  | notDirectory
  | isDirectory
  | nameTooLong
  | tooManyLinks
  deriving DecidableEq, Repr

namespace FileError

/-- The number of an error. -/
def code : FileError → Nat
  | notFound => 2
  | busy => 16
  | alreadyExists => 17
  | notDirectory => 20
  | isDirectory => 21
  | nameTooLong => 36
  | tooManyLinks => 40

/-- The wording of an error. -/
def wording : FileError → Text
  | notFound => "No such file or directory".toList
  | busy => "Device or resource busy".toList
  | alreadyExists => "File exists".toList
  | notDirectory => "Not a directory".toList
  | isDirectory => "Is a directory".toList
  | nameTooLong => "File name too long".toList
  | tooManyLinks => "Too many levels of symbolic links".toList

/-- An error at a path. -/
def message (e : FileError) (path : Text) : Text :=
  "[Errno ".toList ++ Text.ofNat e.code ++ "] ".toList ++ e.wording ++ ": ".toList ++ path.quoted

end FileError

end Bindery

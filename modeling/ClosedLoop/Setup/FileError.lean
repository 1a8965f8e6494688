/-!
# Why a file cannot be read

The system refuses to open or read a file with a number, and the program itself refuses what is no
name or no text.

* `FileError` — the cause.
* `FileError.message` — its wording.
-/

namespace ClosedLoop

/-- Why a file cannot be read as text. -/
inductive FileError where
  /-- There is nothing under this name. -/
  | notFound
  /-- The user has no right to read it. -/
  | denied
  /-- A name before the last one is not that of a directory. -/
  | notADirectory
  /-- The name is that of a directory. -/
  | isADirectory
  /-- The whole name or a part of it is too long. -/
  | nameTooLong
  /-- The name contains the character that ends names. -/
  | notAName
  /-- The bytes of the file are no text. -/
  | notText
  /-- Any other cause, as the system words it. -/
  | other (text : String)
  deriving DecidableEq, Repr

/-- The wording of a cause. -/
def FileError.message : FileError → String
  | .notFound => "No such file or directory (os error 2)"
  | .denied => "Permission denied (os error 13)"
  | .notADirectory => "Not a directory (os error 20)"
  | .isADirectory => "Is a directory (os error 21)"
  | .nameTooLong => "File name too long (os error 36)"
  | .notAName => "file name contained an unexpected NUL byte"
  | .notText => "stream did not contain valid UTF-8"
  | .other text => text

end ClosedLoop

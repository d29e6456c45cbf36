import Stencil.Files.Path

/-!
# Files as a program sees them

What a program can learn about files is its current directory and what reading each path gives: a
text or a fault. `Files` is that knowledge at one moment; a change from outside is another `Files`.
-/

namespace Stencil

/-- Why a file cannot be read. -/
inductive FileFault where
  | notFound
  | notADirectory
  | isADirectory
  | nameTooLong
  | nulByte
  | notUtf8
  | denied
  | other (reason : String)
  deriving Repr, DecidableEq

/-- The wording of a file fault. -/
def FileFault.message : FileFault → String
  | .notFound => "No such file or directory (os error 2)"
  | .notADirectory => "Not a directory (os error 20)"
  | .isADirectory => "Is a directory (os error 21)"
  | .nameTooLong => "File name too long (os error 36)"
  | .nulByte => "file name contained an unexpected NUL byte"
  | .notUtf8 => "stream did not contain valid UTF-8"
  | .denied => "Permission denied (os error 13)"
  | .other reason => reason

/-- The current directory, and what reading each path gives. -/
structure Files where
  current : Path
  read : Path → Except FileFault String

end Stencil

import Stencil.CommandLine.Session

/-!
# The program

Reads the files that a session asks for and prints what it ends with.
-/

namespace Stencil.CommandLine

/-- The fault that an error of the operating system stands for. -/
def faultOf : IO.Error → FileFault
  | .noFileOrDirectory .. => .notFound
  | .permissionDenied .. => .denied
  | .inappropriateType .. => .isADirectory
  | error => .other (toString error)

/-- What reading a file gives. -/
def readFile (p : Path) : IO (Except FileFault String) := do
  try
    match String.fromUTF8? (← IO.FS.readBinFile p) with
    | some text => return .ok text
    | none => return .error .notUtf8
  catch error => return .error (faultOf error)

/-- Carry out a session. -/
def Session.perform : Session → IO Outcome
  | .ended outcome => return outcome
  | .reading p next => do (next (← readFile p)).perform

end Stencil.CommandLine

open Stencil.CommandLine in
/-- Run the program on its arguments. -/
def main (arguments : List String) : IO UInt32 := do
  let current ← IO.currentDir
  let outcome ← (Session.start current.toString arguments).perform
  (← IO.getStdout).putStr outcome.stdout
  (← IO.getStderr).putStr outcome.stderr
  return outcome.code.toUInt32

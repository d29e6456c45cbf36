import Stencil.Files.Basic
import Stencil.Keyed

/-!
# Directory trees in memory

A tree of directories and files with the operations that a program around the engine performs:
writing a file, which makes the directories above it, deleting a file, and reading one by its path.
A path is walked component by component. Every component but the last must be a directory, and so
must the last one if a slash follows it.
-/

namespace Stencil

/-- A file with its bytes, or a directory with its entries. -/
inductive Entry where
  | file (bytes : ByteArray)
  | directory (entries : List (String × Entry))
  deriving Inhabited

namespace Entry

/-- The entry at a place, given by the names that lead to it from the root. -/
def find? : Entry → List String → Option Entry
  | e, [] => some e
  | .file _, _ :: _ => none
  | .directory entries, name :: rest => (Keyed.get? entries name).bind (find? · rest)

/-- Whether an entry is a directory. -/
def isDirectory : Entry → Bool
  | .file _ => false
  | .directory _ => true

/-- Put an entry at a place, making the directories that lead there. -/
def write (new : Entry) : List String → Entry → Entry
  | [], _ => new
  | name :: rest, e =>
    let entries := match e with
      | .file _ => []
      | .directory entries => entries
    .directory (Keyed.insert entries name
      (write new rest ((Keyed.get? entries name).getD (.directory []))))

/-- Remove the file at a place; directories stay. -/
def delete : List String → Entry → Entry
  | [], e => e
  | _ :: _, .file bytes => .file bytes
  | [name], .directory entries =>
    match Keyed.get? entries name with
    | some (.file _) => .directory (Keyed.erase entries name)
    | _ => .directory entries
  | name :: rest, .directory entries =>
    match Keyed.get? entries name with
    | some inner => .directory (Keyed.insert entries name (delete rest inner))
    | none => .directory entries

/-! ## Walking -/

/-- The most bytes of one component of a path. -/
def longestName : Nat := 255

/-- The most bytes of a path. -/
def longestPath : Nat := 4095

/-- Walk the pieces of a path from a place, whose names are given the nearest first. -/
def walk (root : Entry) : List String → List String → Except FileFault (List String)
  | place, [] => .ok place
  | place, piece :: rest =>
    match root.find? place.reverse with
    | none => .error .notFound
    | some (.file _) => .error .notADirectory
    | some (.directory entries) =>
      if Path.isIdle piece then walk root place rest
      else if piece = ".." then walk root place.tail rest
      else if longestName < piece.utf8ByteSize then .error .nameTooLong
      else if (Keyed.get? entries piece).isSome then walk root (piece :: place) rest
      else .error .notFound

/-- The bytes that reading an absolute path gives. -/
def readBytes (root : Entry) (p : Path) : Except FileFault ByteArray :=
  if p.toList.contains '\x00' then .error .nulByte
  else if p.isEmpty then .error .notFound
  else if longestPath < p.utf8ByteSize then .error .nameTooLong
  else do
    let place ← walk root [] p.segments
    match root.find? place.reverse with
    | some (.file bytes) => return bytes
    | some (.directory _) => throw .isADirectory
    | none => throw .notFound

/-- The text that reading an absolute path gives. -/
def readText (root : Entry) (p : Path) : Except FileFault String := do
  match String.fromUTF8? (← root.readBytes p) with
  | some text => return text
  | none => throw .notUtf8

/-- The tree as it is seen from a current directory. -/
def toFiles (root : Entry) (current : Path) : Files :=
  ⟨current, fun p => root.readText (if p.isEmpty then p else current.join p)⟩

end Entry

end Stencil

import Stencil.Files.Basic
import Stencil.Keyed

/-!
# The store of template texts

A store reads each file once and keeps its text until it is cleared, whatever happens to the file
in between. Paths that name one place share one entry. A file that cannot be read leaves no trace.
-/

namespace Stencil

/-- A file that could not be read, under its resolved path. -/
structure LoadFault where
  path : Path
  fault : FileFault
  deriving Repr, DecidableEq

/-- The wording of a load fault. -/
def LoadFault.message (f : LoadFault) : String :=
  s!"failed to read template '{f.path}': {f.fault.message}"

/-- The directory that paths count from, the texts by place, and the number of successful reads. -/
structure Store where
  root? : Option Path
  texts : Keyed String
  reads : Nat
  deriving Inhabited

namespace Store

/-- A store that nothing was read into. -/
def new (root? : Option Path) : Store := ⟨root?, [], 0⟩

/-- The absolute path that a path means, seen from the current directory. -/
def resolve (s : Store) (current p : Path) : Path :=
  let joined := match s.root? with
    | some root => root.join p
    | none => p
  joined.absolute current

/-- The text of a template, from the store or else from its file. -/
def load (s : Store) (files : Files) (p : Path) : Except LoadFault String × Store :=
  let resolved := s.resolve files.current p
  match Keyed.get? s.texts resolved.key with
  | some text => (.ok text, s)
  | none =>
    match files.read resolved with
    | .ok text =>
      (.ok text, { s with texts := Keyed.insert s.texts resolved.key text, reads := s.reads + 1 })
    | .error fault => (.error ⟨resolved, fault⟩, s)

/-- The number of texts in the store. -/
def size (s : Store) : Nat := s.texts.length

/-- Whether the store holds no text. -/
def isEmpty (s : Store) : Bool := s.texts.isEmpty

/-- Forget all texts; the number of reads stays. -/
def clear (s : Store) : Store := { s with texts := [] }

end Store

end Stencil

import Stencil.Text.Search

/-!
# Paths

Paths are texts with slashes between their components. Empty components and `.` mean nothing and
`..` is kept, since what it leads to depends on the files. Two absolute paths with the same
components are the same place: `Path.key`.
-/

namespace Stencil

/-- A path as it is written. -/
abbrev Path := String

namespace Path

/-- The pieces of a text between its slashes; there is at least one. -/
def pieces : List Char → List (List Char)
  | [] => [[]]
  | c :: cs =>
    if c = '/' then [] :: pieces cs
    else
      match pieces cs with
      | piece :: rest => (c :: piece) :: rest
      | [] => [[c]]

/-- The pieces of a path. -/
def segments (p : Path) : List String := (pieces p.toList).map String.ofList

/-- Whether a piece of a path means nothing. -/
def isIdle (segment : String) : Bool := segment == "" || segment == "."

/-- The components of a path, without the root. -/
def components (p : Path) : List String := p.segments.filter (!isIdle ·)

/-- Whether a path starts at the root. -/
def isAbsolute (p : Path) : Bool := p.toList.head? == some '/'

/-- Whether a path ends in a slash. -/
def endsInSlash (p : Path) : Bool := p.toList.getLast? == some '/'

/-- Append a text, with a slash before it unless there is one already or nothing comes before. -/
def push (base : Path) (text : String) : Path :=
  if base.isEmpty || base.endsInSlash then base ++ text else base ++ "/" ++ text

/-- A path seen from a base; an absolute path stays as it is. -/
def join (base p : Path) : Path := if p.isAbsolute then p else push base p

/-- What an absolute path starts with: two slashes and no third one are kept. -/
def rootOf (p : Path) : Path :=
  match p.toList with
  | '/' :: '/' :: '/' :: _ => "/"
  | '/' :: '/' :: _ => "//"
  | _ => "/"

/-- The absolute form of a path, seen from the current directory. Nothing becomes of the empty
path. A slash at the end is kept. -/
def absolute (p current : Path) : Path :=
  if p.isEmpty then p
  else
    let start := if p.isAbsolute then p.rootOf else current
    let folded := p.components.foldl push start
    if p.endsInSlash then push folded "" else folded

/-- The place that an absolute path names, whatever it is written like. -/
def key (p : Path) : String :=
  let rest := "/".intercalate p.components
  if p.isAbsolute then "/" ++ rest else rest

/-- The part of the last component behind its last dot, if something comes before the dot. -/
def extension? (p : Path) : Option String := do
  let name ← p.components.getLast?
  if name == ".." then none
  else
    let backward := name.toList.reverse
    match backward.dropWhile (· != '.') with
    | '.' :: _ :: _ => some (String.ofList (backward.takeWhile (· != '.')).reverse)
    | _ => none

/-- The pieces without the idle ones at the end; the first piece always stays. -/
def dropIdleEnd : List String → List String
  | [] => []
  | first :: rest => first :: (rest.reverse.dropWhile isIdle).reverse

/-- The path without its last component. -/
def parent? (p : Path) : Option Path :=
  if p.components.isEmpty then none
  else
    match dropIdleEnd (dropIdleEnd p.segments).dropLast with
    | [""] => some "/"
    | rest => some ("/".intercalate rest)

end Path

end Stencil

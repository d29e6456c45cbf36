import Stencil.Markup.Node
import Stencil.Text.Blank
import Stencil.Xml.Reference

/-!
# The attributes of a tag

After its name a tag holds attributes in one of three forms: `name`, which reads as empty,
`name=value` with a value up to the next blank, and `name="value"` with either kind of quote. Names
may not repeat. The first fault in written order is reported, and within one attribute a repeated
name comes before a bad value.
-/

namespace Stencil.Xml
open Text

/-- Whether a character ends an attribute name. -/
def endsName (c : Char) : Bool := c == '=' || isXmlBlank c

/-- An attribute value as written, with what follows it. `total` is the byte length of the whole
tag. -/
def rawValue (total : Nat) : List Char → Except AttributeFault (List Char × List Char)
  | [] => .error (.noValue total)
  | c :: cs =>
    if c = '"' ∨ c = '\'' then
      match splitFirst? [c] cs with
      | some (value, rest) => .ok (value, rest)
      | none => .error (.noClosingQuote total c)
    else .ok ((c :: cs).takeWhile (!isXmlBlank ·), (c :: cs).dropWhile (!isXmlBlank ·))

theorem length_le_of_rawValue {total : Nat} {cs value rest : List Char}
    (h : rawValue total cs = .ok (value, rest)) : rest.length ≤ cs.length := by
  cases cs with
  | nil => simp [rawValue] at h
  | cons c cs =>
    rw [rawValue] at h
    split at h
    · split at h
      · rename_i v r hs
        simp only [Except.ok.injEq, Prod.mk.injEq] at h
        have := length_le_of_splitFirst? hs
        simp only [List.length_cons, ← h.2]
        omega
      · simp at h
    · simp only [Except.ok.injEq, Prod.mk.injEq] at h
      rw [← h.2]
      exact (List.dropWhile_sublist _).length_le

/-- What follows the name of an attribute: a value, or nothing but the rest of the tag. -/
def rawValue? (total : Nat) (cs : List Char) :
    Except AttributeFault (List Char × List Char) :=
  match cs.dropWhile isXmlBlank with
  | '=' :: after => rawValue total (after.dropWhile isXmlBlank)
  | _ => .ok ([], cs)

theorem length_le_of_rawValue? {total : Nat} {cs value rest : List Char}
    (h : rawValue? total cs = .ok (value, rest)) : rest.length ≤ cs.length := by
  rw [rawValue?] at h
  split at h
  · rename_i after heq
    have h1 := length_le_of_rawValue h
    have h2 := (List.dropWhile_sublist isXmlBlank (l := after)).length_le
    have h3 := (List.dropWhile_sublist isXmlBlank (l := cs)).length_le
    rw [heq] at h3
    simp at h3
    omega
  · simp only [Except.ok.injEq, Prod.mk.injEq] at h
    exact Nat.le_of_eq (congrArg List.length h.2.symm)

/-- Read the attributes in the rest of a tag. `seen` holds the names so far with their places. -/
def attributesFrom (total : Nat) (seen : List (List Char × Nat)) (cs : List Char) :
    Except Cause (List Markup.Attribute) :=
  match h : cs.dropWhile isXmlBlank with
  | [] => .ok []
  | c :: r =>
    let position := total - byteLength (c :: r)
    let name := c :: r.takeWhile (!endsName ·)
    match seen.lookup name with
    | some earlier => .error (.attribute (.duplicate position earlier))
    | none =>
      match hv : rawValue? total (r.dropWhile (!endsName ·)) with
      | .error fault => .error (.attribute fault)
      | .ok (raw, rest) =>
        match decode raw with
        | .error fault => .error (.reference fault)
        | .ok value =>
          have : rest.length < cs.length := by
            have h1 := length_le_of_rawValue? hv
            have h2 := (List.dropWhile_sublist (!endsName ·) (l := r)).length_le
            have h3 := (List.dropWhile_sublist isXmlBlank (l := cs)).length_le
            rw [h] at h3
            simp at h3
            omega
          (attributesFrom total (seen ++ [(name, position)]) rest).map
            (⟨.plain (String.ofList name), String.ofList value⟩ :: ·)
termination_by cs.length

/-- The element that the content of a tag describes: a name up to the first blank, then
attributes. -/
def element (content : List Char) : Except Cause Markup.Element :=
  let name := content.takeWhile (!isXmlBlank ·)
  let rest := content.dropWhile (!isXmlBlank ·)
  (attributesFrom (byteLength content) [] rest).map fun attributes =>
    ⟨.plain (String.ofList name), attributes⟩

end Stencil.Xml

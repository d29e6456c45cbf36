/-!
# Searching and cutting character lists

Offsets are counted in bytes of the UTF-8 form, the unit in which spans are reported.
-/

namespace Stencil.Text

/-- The number of bytes that the characters take in UTF-8. -/
def byteLength : List Char → Nat
  | [] => 0
  | c :: cs => c.utf8Size + byteLength cs

@[simp] theorem byteLength_nil : byteLength [] = 0 := rfl

@[simp] theorem byteLength_cons (c : Char) (cs : List Char) :
    byteLength (c :: cs) = c.utf8Size + byteLength cs := rfl

@[simp] theorem byteLength_append (s t : List Char) :
    byteLength (s ++ t) = byteLength s + byteLength t := by
  induction s with
  | nil => simp
  | cons c s ih => simp [ih, Nat.add_assoc]

/-- What is left of `cs` after `stem`, when it starts with `stem`. -/
def dropStem? : (stem cs : List Char) → Option (List Char)
  | [], cs => some cs
  | _ :: _, [] => none
  | p :: ps, c :: cs => if p = c then dropStem? ps cs else none

theorem dropStem?_eq_some_iff {stem cs rest : List Char} :
    dropStem? stem cs = some rest ↔ cs = stem ++ rest := by
  induction stem generalizing cs with
  | nil => simp [dropStem?, eq_comm]
  | cons p ps ih =>
    cases cs with
    | nil => simp [dropStem?]
    | cons c cs =>
      by_cases h : p = c
      · simp [dropStem?, h, ih]
      · simp [dropStem?, h, Ne.symm h]

/-- Whether `cs` starts with `stem`. -/
def startsWith (stem cs : List Char) : Bool := (dropStem? stem cs).isSome

/-- Whether `needle` occurs in `cs`. -/
def occursIn (needle : List Char) : List Char → Bool
  | [] => needle.isEmpty
  | c :: cs => startsWith needle (c :: cs) || occursIn needle cs

/-- The parts of `cs` before and after the first occurrence of `needle`. -/
def splitFirst? (needle : List Char) : List Char → Option (List Char × List Char)
  | [] => if needle.isEmpty then some ([], []) else none
  | c :: cs =>
    match dropStem? needle (c :: cs) with
    | some rest => some ([], rest)
    | none => (splitFirst? needle cs).map fun (before, rest) => (c :: before, rest)

theorem eq_append_of_splitFirst? {needle cs before rest : List Char}
    (h : splitFirst? needle cs = some (before, rest)) : cs = before ++ needle ++ rest := by
  induction cs generalizing before rest with
  | nil =>
    by_cases hn : needle = [] <;> simp [splitFirst?, hn] at h
    simp [h, hn]
  | cons c cs ih =>
    rw [splitFirst?] at h
    split at h
    · rename_i r hr
      simp only [Option.some.injEq, Prod.mk.injEq] at h
      obtain ⟨rfl, rfl⟩ := h
      simpa using dropStem?_eq_some_iff.mp hr
    · obtain ⟨p, hp, he⟩ := Option.map_eq_some_iff.mp h
      simp only [Prod.mk.injEq] at he
      obtain ⟨rfl, rfl⟩ := he
      simpa using congrArg (c :: ·) (ih hp)

theorem length_le_of_splitFirst? {needle cs before rest : List Char}
    (h : splitFirst? needle cs = some (before, rest)) : rest.length ≤ cs.length := by
  rw [eq_append_of_splitFirst? h]
  simp only [List.length_append]
  omega

/-- What is left of `cs` before the text `tail`, when it ends with it. -/
def dropTail? (tail cs : List Char) : Option (List Char) :=
  (dropStem? tail.reverse cs.reverse).map List.reverse

/-- Whether the text `needle` occurs in `s`. -/
def contains (s needle : String) : Bool := occursIn needle.toList s.toList

/-- The text after `stem`, when `s` starts with it. -/
def afterStem? (s stem : String) : Option String :=
  (dropStem? stem.toList s.toList).map String.ofList

/-- The text before `tail`, when `s` ends with it. -/
def beforeTail? (s tail : String) : Option String :=
  (dropTail? tail.toList s.toList).map String.ofList

/-- The maximal runs of `cs` between members of `p`, without the empty ones. -/
def wordsBy (p : Char → Bool) (cs : List Char) : List (List Char) :=
  (cs.splitBy fun a b => p a == p b).filter fun w => !w.any p

end Stencil.Text

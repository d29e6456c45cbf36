import Mathlib.Data.List.Chain
import Stencil.Proofs.Component.Root
import Stencil.Proofs.Text.Case

/-!
# Keys of attributes and kinds of components

The key of a `data-` attribute has its hyphens folded: each hyphen that a lower case letter follows
becomes one with it, as a capital. What is left is folded (`isFolded_foldHyphens`), and every folded
text is the key of some attribute, whose name has it written with hyphens (`foldHyphens_kebab`).

The kind of a component is a key in lower case, where a folded letter looks as it did before. So the
kind is the name behind the marker, without the hyphens that were folded (`kind_of_ofElement?`).
-/

namespace Stencil
open Text

variable {c : Char} {cs : List Char}

/-! ## Folded texts -/

/-- No hyphen is directly followed by a lower case letter. -/
def IsFolded (cs : List Char) : Prop := cs.IsChain fun c d => c = '-' → isLowerLetter d = false

/-- Each capital as a hyphen and its lower case form. -/
def kebab (cs : List Char) : List Char :=
  cs.flatMap fun c => if isUpperLetter c then ['-', lowerChar c] else [c]

/-- Drop each hyphen that a lower case letter follows. -/
def dropHyphens : List Char → List Char
  | [] => []
  | [c] => [c]
  | c :: d :: rest =>
    if c = '-' ∧ isLowerLetter d then dropHyphens (d :: rest) else c :: dropHyphens (d :: rest)

theorem foldHyphens_cons (h : ∀ d ∈ cs.head?, c = '-' → isLowerLetter d = false) :
    foldHyphens (c :: cs) = c :: foldHyphens cs := by
  cases cs with
  | nil => rfl
  | cons d cs =>
    refine if_neg fun hfold => ?_
    exact Bool.false_ne_true ((h d rfl hfold.1).symm.trans hfold.2)

theorem dropHyphens_cons_of_ne (h : c ≠ '-') : dropHyphens (c :: cs) = c :: dropHyphens cs := by
  cases cs with
  | nil => rfl
  | cons d cs => exact if_neg fun hdrop => h hdrop.1

/-- The first character is no lower case letter after folding if it was none before. -/
theorem head?_foldHyphens (h : ∀ d ∈ cs.head?, isLowerLetter d = false) :
    ∀ d ∈ (foldHyphens cs).head?, isLowerLetter d = false := by
  fun_cases foldHyphens cs with
  | case1 => exact h
  | case2 c => exact h
  | case3 c d rest hfold =>
    rintro _ ⟨⟩
    exact isLowerLetter_of_isUpperLetter (isUpperLetter_upperChar hfold.2)
  | case4 c d rest hkeep =>
    rintro _ ⟨⟩
    exact h c rfl

/-- **Folding leaves nothing to fold.** -/
theorem isFolded_foldHyphens (cs : List Char) : IsFolded (foldHyphens cs) := by
  rw [IsFolded]
  fun_induction foldHyphens cs with
  | case1 => exact .nil
  | case2 c => exact .singleton c
  | case3 c d rest hfold ih =>
    -- A folded letter is a capital and no hyphen.
    refine List.isChain_cons.mpr ⟨fun x _ hhyphen => ?_, ih⟩
    have hupper := isUpperLetter_upperChar hfold.2
    rw [hhyphen] at hupper
    cases hupper
  | case4 c d rest hkeep ih =>
    refine List.isChain_cons.mpr ⟨fun x hx hhyphen => ?_, ih⟩
    have hhead : ∀ y ∈ (d :: rest).head?, isLowerLetter y = false := by
      rintro _ ⟨⟩
      exact Bool.eq_false_iff.mpr fun hlower => hkeep ⟨hhyphen, hlower⟩
    exact head?_foldHyphens hhead x hx

theorem foldHyphens_of_isFolded (h : IsFolded cs) : foldHyphens cs = cs := by
  induction cs with
  | nil => rfl
  | cons c cs ih =>
    obtain ⟨hhead, htail⟩ := List.isChain_cons.mp h
    rw [foldHyphens_cons hhead, ih htail]

/-- **Every folded text is what folding makes of its form with hyphens.** -/
theorem foldHyphens_kebab (h : IsFolded cs) : foldHyphens (kebab cs) = cs := by
  induction cs with
  | nil => rfl
  | cons c cs ih =>
    obtain ⟨hhead, htail⟩ := List.isChain_cons.mp h
    have htail := ih htail
    rw [kebab, List.flatMap_cons]
    split
    · next hupper =>
      show foldHyphens ('-' :: lowerChar c :: kebab cs) = c :: cs
      rw [foldHyphens, if_pos ⟨rfl, isLowerLetter_lowerChar hupper⟩, upperChar_lowerChar hupper,
        htail]
    · show foldHyphens (c :: kebab cs) = c :: cs
      rw [foldHyphens_cons, htail]
      -- What follows is a hyphen if a capital stood there, and what stood there otherwise.
      intro d hd hhyphen
      cases cs with
      | nil => cases hd
      | cons x cs =>
        have hx : isLowerLetter x = false := hhead x rfl hhyphen
        rw [kebab, List.flatMap_cons] at hd
        split at hd
        · obtain rfl := Option.some.inj hd
          rfl
        · obtain rfl := Option.some.inj hd
          exact hx

/-- A folded letter differs in its case alone from the letter without the hyphen. -/
theorem map_lowerChar_foldHyphens (cs : List Char) :
    (foldHyphens cs).map lowerChar = (dropHyphens cs).map lowerChar := by
  fun_induction foldHyphens cs with
  | case1 => rfl
  | case2 c => rfl
  | case3 c d rest hfold ih =>
    have hd : d ≠ '-' := by
      rintro rfl
      cases hfold.2
    rw [dropHyphens, if_pos hfold, dropHyphens_cons_of_ne hd, List.map_cons, List.map_cons, ih,
      lowerChar_upperChar hfold.2, lowerChar_of_isLowerLetter hfold.2]
  | case4 c d rest hkeep ih => rw [dropHyphens, if_neg hkeep, List.map_cons, List.map_cons, ih]

/-- In lower case it does not matter whether a hyphen is folded or dropped. -/
theorem lowercase_foldHyphens (cs : List Char) :
    lowercase (String.ofList (foldHyphens cs)) = lowercase (String.ofList (dropHyphens cs)) := by
  rw [← lowercase_lowerLetters, ← lowercase_lowerLetters (String.ofList (dropHyphens cs)),
    lowerLetters, lowerLetters, String.toList_ofList, String.toList_ofList,
    map_lowerChar_foldHyphens]

/-! ## Keys -/

theorem dataKey?_append (key : String) :
    dataKey? ("data-" ++ key) = some (String.ofList (foldHyphens key.toList)) := by
  have hdrop : dropStem? ['d', 'a', 't', 'a', '-'] ("data-" ++ key).toList = some key.toList :=
    dropStem?_eq_some_iff.mpr String.toList_append
  rw [dataKey?, hdrop, Option.map_some]

theorem isFolded_of_dataKey? {name key : String} (h : dataKey? name = some key) :
    IsFolded key.toList := by
  obtain ⟨rest, -, rfl⟩ := Option.map_eq_some_iff.mp h
  rw [String.toList_ofList]
  exact isFolded_foldHyphens rest

theorem dataKey?_of_isFolded {key : String} (h : IsFolded key.toList) :
    dataKey? ("data-" ++ key) = some key := by
  rw [dataKey?_append, foldHyphens_of_isFolded h, String.ofList_toList]

theorem dataKey?_kebab {key : String} (h : IsFolded key.toList) :
    dataKey? ("data-" ++ String.ofList (kebab key.toList)) = some key := by
  rw [dataKey?_append, String.toList_ofList, foldHyphens_kebab h, String.ofList_toList]

/-! ## Kinds -/

namespace Component
open Markup

variable {e : Element} {m : Marker}

/-- The kind of a component is read off the first attribute that starts like a marker. -/
theorem kind_of_ofElement? (h : Marker.ofElement? e = some m) :
    ∃ before a after behind, e.attributes = before ++ a :: after ∧
      (∀ b ∈ before, ¬ componentMarker.toList <+: b.name.base.toList) ∧
      componentMarker.toList <+: a.name.base.toList ∧
      a.name.base.toList = "data-v-component".toList ++ behind ∧
      m.kind = lowercase (String.ofList (dropHyphens behind)) ∧ m.kind ≠ "" := by
  obtain ⟨a, rest, ⟨before, after, hattributes, hbefore, hmarker⟩, ha, rfl⟩ := exists_isMarkerOf h
  refine ⟨before, a, after, '-' :: rest, hattributes, hbefore, hmarker, ha,
    lowercase_foldHyphens _, fun hempty => ?_⟩
  have hne := lowercase_ne_empty (s := String.ofList (foldHyphens ('-' :: rest)))
    (by rw [String.toList_ofList]; exact foldHyphens_hyphen_ne_nil rest)
  exact Bool.false_ne_true (hne.symm.trans (String.isEmpty_iff.mpr hempty))

/-- **Keys undo the form with hyphens, and no component is lost.** A text in which no hyphen is
followed by a lower case letter is the key of the attribute that has it written with hyphens; every
key is such a text, and so the key of the attribute that has it as it is. An element is the root of
a component if and only if the name of one of its attributes starts with the marker. Its kind is
then what follows `data-v-component` in the first such name, without the hyphens that a lower case
letter follows and in lower case, and is not empty. -/
theorem marker_exact :
    (∀ key : String, IsFolded key.toList →
      dataKey? ("data-" ++ String.ofList (kebab key.toList)) = some key) ∧
    (∀ name key : String, dataKey? name = some key →
      IsFolded key.toList ∧ dataKey? ("data-" ++ key) = some key) ∧
    ∀ e : Element,
      ((∃ m, Marker.ofElement? e = some m) ↔
        ∃ a ∈ e.attributes, componentMarker.toList <+: a.name.base.toList) ∧
      ∀ m, Marker.ofElement? e = some m →
        ∃ before a after behind, e.attributes = before ++ a :: after ∧
          (∀ b ∈ before, ¬ componentMarker.toList <+: b.name.base.toList) ∧
          componentMarker.toList <+: a.name.base.toList ∧
          a.name.base.toList = "data-v-component".toList ++ behind ∧
          m.kind = lowercase (String.ofList (dropHyphens behind)) ∧ m.kind ≠ "" := by
  refine ⟨fun key => dataKey?_kebab, fun name key h => ?_, fun e => ⟨?_, fun m => ?_⟩⟩
  · have hfolded := isFolded_of_dataKey? h
    exact ⟨hfolded, dataKey?_of_isFolded hfolded⟩
  · constructor
    · rintro ⟨m, hm⟩
      exact marker_of_ofElement? hm
    · exact exists_marker
  · exact kind_of_ofElement?

/-- Hyphens that no lower case letter follows stay. -/
example : dataKey? "data-col-2-aB-" = some "col-2AB-" := by decide

end Component
end Stencil

import Stencil.Proofs.Text.Cutting
import Stencil.Xml.Reference

/-!
# Reading undoes escaping

A character is written as itself or as a reference to the predefined entity that stands for it
(`Escape`). Either is read back as the character, so reading an escaped text gives the text. The
characters that are always escaped do not stand in what is written, which is why no text or
attribute value ends before its end.
-/

namespace Stencil.Xml

variable {c x : Char} {cs s name special : List Char} {total : Nat}

/-! ## One character -/

/-- What is written for a character: the character itself, unless it is special, or a reference. -/
inductive Escape (special : List Char) (c : Char) : List Char → Prop
  | plain (hc : c ∉ special) : Escape special c [c]
  | entity {name : List Char} (hname : name.all Text.isLowerLetter)
      (hc : entity? name = some c) : Escape special c ('&' :: (name ++ [';']))

/-- The characters that a text must not hold. -/
def textSpecials : List Char := ['<', '>', '&']

/-- The characters that an attribute value must not hold. -/
def valueSpecials : List Char := ['\'', '"', '<', '>', '&']

theorem escape_text (c : Char) : Escape textSpecials c (escapeText c) := by
  by_cases hlt : c = '<'
  · subst hlt
    exact .entity (by decide : ['l', 't'].all Text.isLowerLetter) rfl
  by_cases hgt : c = '>'
  · subst hgt
    exact .entity (by decide : ['g', 't'].all Text.isLowerLetter) rfl
  by_cases hamp : c = '&'
  · subst hamp
    exact .entity (by decide : ['a', 'm', 'p'].all Text.isLowerLetter) rfl
  rw [escapeText, if_neg hlt, if_neg hgt, if_neg hamp]
  exact .plain (by simp [textSpecials, hlt, hgt, hamp])

theorem escape_value (c : Char) : Escape valueSpecials c (escapeValue c) := by
  by_cases hapos : c = '\''
  · subst hapos
    exact .entity (by decide : ['a', 'p', 'o', 's'].all Text.isLowerLetter) rfl
  by_cases hquot : c = '"'
  · subst hquot
    exact .entity (by decide : ['q', 'u', 'o', 't'].all Text.isLowerLetter) rfl
  rw [escapeValue, if_neg hapos, if_neg hquot]
  generalize escapeText c = written, escape_text c = h
  cases h with
  | plain hc => exact .plain (by simpa [valueSpecials, textSpecials, hapos, hquot] using hc)
  | entity hname hc => exact .entity hname hc

/-! ## Reading one character -/

theorem referenceName?_append (h : ∀ c ∈ name, c ≠ ';' ∧ c ≠ '&') :
    referenceName? (name ++ ';' :: cs) = some (name, cs) := by
  induction name with
  | nil => rw [List.nil_append, referenceName?]
  | cons c name ih =>
    obtain ⟨⟨hsemicolon, hampersand⟩, htail⟩ := List.forall_mem_cons.mp h
    rw [List.cons_append, referenceName?, ih htail]
    · rfl
    · exact hsemicolon
    · exact hampersand

theorem referent_of_entity (hname : ∀ d ∈ name, Text.isLowerLetter d) (hc : entity? name = some c)
    (start : Nat) : referent start name = .ok c := by
  cases name with
  | nil => cases hc
  | cons d name =>
    rw [referent, hc]
    -- A name of letters is not that of a numeric reference.
    rintro digits ⟨⟩
    exact Text.ne_of_kind (hname '#' List.mem_cons_self) (by decide) rfl

/-- **What is written for a character is read as the character.** -/
theorem decodeFrom_escape (hamp : '&' ∈ special) (h : Escape special c s) (cs : List Char) :
    decodeFrom total (s ++ cs) = (decodeFrom total cs).map (c :: ·) := by
  cases h with
  | plain hc =>
    have hc : c ≠ '&' := fun h => hc (h ▸ hamp)
    rw [List.singleton_append, decodeFrom, if_neg hc]
  | @entity name hname hc =>
    rw [List.all_eq_true] at hname
    have hreference : referenceName? (name ++ [';'] ++ cs) = some (name, cs) := by
      rw [List.append_assoc]
      exact referenceName?_append fun d hd =>
        ⟨Text.ne_of_kind (hname d hd) (by decide), Text.ne_of_kind (hname d hd) (by decide)⟩
    -- The name ends at the semicolon of the reference, because neither it nor `&` is a letter.
    rw [List.cons_append, decodeFrom, if_pos rfl]
    dsimp only
    split
    · next h => cases hreference.symm.trans h
    · next found rest h =>
      obtain ⟨rfl, rfl⟩ := Prod.mk.inj (Option.some.inj (hreference.symm.trans h))
      rw [referent_of_entity hname hc]

/-- A special character does not stand in what is written, unless references need it. -/
theorem not_mem_of_escape (h : Escape special c s) (hx : x ∈ special)
    (hletter : Text.isLowerLetter x = false) (hamp : x ≠ '&') (hsemicolon : x ≠ ';') : x ∉ s := by
  cases h with
  | plain hc =>
    rw [List.mem_singleton]
    rintro rfl
    exact hc hx
  | entity hname hc =>
    rw [List.all_eq_true] at hname
    rw [List.mem_cons, List.mem_append, List.mem_singleton]
    rintro (h | h | h)
    · exact hamp h
    · exact Text.ne_of_kind (hname x h) hletter rfl
    · exact hsemicolon h

/-! ## Whole texts -/

/-- Reading undoes an escape that is undone character by character. -/
theorem decodeFrom_flatMap {escape : Char → List Char} (hamp : '&' ∈ special)
    (h : ∀ c, Escape special c (escape c)) (s : List Char) :
    decodeFrom total (s.flatMap escape) = .ok s := by
  induction s with
  | nil => rw [List.flatMap_nil, decodeFrom]
  | cons c s ih =>
    rw [List.flatMap_cons, decodeFrom_escape hamp (h c), ih]
    rfl

theorem decode_escapeText (s : List Char) : decode (s.flatMap escapeText) = .ok s :=
  decodeFrom_flatMap (by decide) escape_text s

theorem decode_escapeValue (s : List Char) : decode (s.flatMap escapeValue) = .ok s :=
  decodeFrom_flatMap (by decide) escape_value s

/-- No tag begins inside an escaped text. -/
theorem ne_of_mem_escapedText (h : x ∈ s.flatMap escapeText) : x ≠ '<' := by
  rintro rfl
  obtain ⟨c, -, hc⟩ := List.mem_flatMap.mp h
  exact not_mem_of_escape (escape_text c) (by decide) (by decide) (by decide) (by decide) hc

/-- No escaped attribute value holds a quote. -/
theorem ne_of_mem_escapedValue (h : x ∈ s.flatMap escapeValue) : x ≠ '"' := by
  rintro rfl
  obtain ⟨c, -, hc⟩ := List.mem_flatMap.mp h
  exact not_mem_of_escape (escape_value c) (by decide) (by decide) (by decide) (by decide) hc

end Stencil.Xml

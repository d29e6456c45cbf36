import Stencil.Proofs.Xml.Reference
import Stencil.Xml.Attributes
import Stencil.Xml.Item
import Stencil.Xml.Writer

/-!
# Tags are read as written

A tag is written as the name of its element and the attributes behind it, each with its value
between double quotes (`tagText`). With plain names and no attribute twice the reader finds the end
of the tag behind all quotes (`splitTag?_tagText`) and the element inside (`element_tagText`).
-/

namespace Stencil.Xml
open Markup Text

variable {c : Char} {cs rest name : List Char} {a : Attribute} {attributes : List Attribute}
  {e : Element}

/-! ## Names -/

/-- A letter or an underscore. -/
def isNameStart (c : Char) : Bool := isLetter c || c == '_'

/-- What may follow the first character of a name. -/
def isNameChar (c : Char) : Bool :=
  isNameStart c || isDigit c || c == '.' || c == ':' || c == '-'

/-- A name of XML with ASCII letters alone. -/
def isName : List Char → Bool
  | [] => false
  | c :: cs => isNameStart c && cs.all isNameChar

/-- A name in no namespace, as the reader makes it. -/
def IsPlain (n : QName) : Prop := n = .plain n.base ∧ isName n.base.toList

/-- The element can be written: its names are plain and no attribute stands twice. -/
structure Nameable (e : Element) : Prop where
  name : IsPlain e.name
  attributes : ∀ a ∈ e.attributes, IsPlain a.name
  distinct : (e.attributes.map (·.name)).Nodup

theorem exists_of_isName (h : isName name) : ∃ c cs, name = c :: cs ∧ isNameStart c := by
  cases name with
  | nil => cases h
  | cons c cs =>
    rw [isName, Bool.and_eq_true] at h
    exact ⟨c, cs, rfl, h.1⟩

theorem isNameChar_of_isName (h : isName name) : ∀ c ∈ name, isNameChar c := by
  cases name with
  | nil => cases h
  | cons c cs =>
    rw [isName, Bool.and_eq_true, List.all_eq_true] at h
    refine List.forall_mem_cons.mpr ⟨?_, h.2⟩
    rw [isNameChar, h.1]
    rfl

theorem isXmlBlank_of_isNameChar (h : isNameChar c) : isXmlBlank c = false := by
  rw [Bool.eq_false_iff]
  intro hblank
  simp only [isXmlBlank, Bool.or_eq_true, beq_iff_eq] at hblank
  rcases hblank with ((rfl | rfl) | rfl) | rfl <;> exact absurd h (by decide)

theorem endsName_of_isNameChar (h : isNameChar c) : endsName c = false := by
  rw [endsName, isXmlBlank_of_isNameChar h, Bool.or_false, beq_eq_false_iff_ne]
  exact ne_of_kind h (by decide)

/-! ## What is written -/

/-- An attribute behind a blank. -/
def attributeText (a : Attribute) : List Char :=
  ' ' :: (a.name.base.toList ++ '=' :: '"' :: (a.value.toList.flatMap escapeValue ++ ['"']))

/-- What is written between the angle brackets of a tag. -/
def tagText (e : Element) : List Char := e.name.base.toList ++ e.attributes.flatMap attributeText

theorem toList_openingText (e : Element) : (openingText e).toList = '<' :: tagText e := by
  have hattribute : ∀ a : Attribute, (" " ++ a.name.base ++ "=\"" ++ escapedValue a.value ++
      "\"").toList = attributeText a := by
    intro a
    simp [attributeText, escapedValue, String.toList_append]
  rw [openingText, String.toList_append, String.toList_append, String.toList_join, List.flatMap_map]
  simp only [hattribute, tagText]
  rfl

/-! ## The end of a tag -/

/-- A text in which no tag ends and no quote stays open. -/
def InTag (l : List Char) : Prop :=
  ∀ cs inner rest, splitTag? none cs = some (inner, rest) →
    splitTag? none (l ++ cs) = some (l ++ inner, rest)

theorem InTag.nil : InTag [] := fun _ _ _ h => h

theorem InTag.append {l m : List Char} (hl : InTag l) (hm : InTag m) : InTag (l ++ m) := by
  intro cs inner rest h
  rw [List.append_assoc, List.append_assoc]
  exact hl _ _ _ (hm _ _ _ h)

theorem InTag.flatMap {f : Attribute → List Char} (h : ∀ a ∈ attributes, InTag (f a)) :
    InTag (attributes.flatMap f) := by
  induction attributes with
  | nil => exact InTag.nil
  | cons a attributes ih =>
    obtain ⟨ha, htail⟩ := List.forall_mem_cons.mp h
    exact List.flatMap_cons ▸ ha.append (ih htail)

theorem InTag.cons (hend : c ≠ '>') (hquot : c ≠ '"') (hapos : c ≠ '\'') {l : List Char}
    (hl : InTag l) : InTag (c :: l) := by
  intro cs inner rest h
  have hafter : quoteAfter none c = none := if_neg fun h => h.elim hquot hapos
  rw [List.cons_append, splitTag?, if_neg fun h => hend h.2, hafter, hl _ _ _ h]
  rfl

theorem InTag.of_name (h : ∀ c ∈ name, isNameChar c) : InTag name := by
  induction name with
  | nil => exact InTag.nil
  | cons c name ih =>
    obtain ⟨hc, htail⟩ := List.forall_mem_cons.mp h
    exact .cons (ne_of_kind hc (by decide)) (ne_of_kind hc (by decide))
      (ne_of_kind hc (by decide)) (ih htail)

theorem splitTag?_quoted {value inner : List Char} (hvalue : ∀ c ∈ value, c ≠ '"')
    (h : splitTag? none cs = some (inner, rest)) :
    splitTag? (some '"') (value ++ '"' :: cs) = some (value ++ '"' :: inner, rest) := by
  induction value with
  | nil =>
    rw [List.nil_append, splitTag?, if_neg (by simp)]
    have hafter : quoteAfter (some '"') '"' = none := rfl
    rw [hafter, h]
    rfl
  | cons c value ih =>
    obtain ⟨hc, htail⟩ := List.forall_mem_cons.mp hvalue
    have hafter : quoteAfter (some '"') c = some '"' := if_neg hc
    rw [List.cons_append, splitTag?, if_neg (by simp), hafter, ih htail]
    rfl

theorem InTag.quoted {value : List Char} (h : ∀ c ∈ value, c ≠ '"') :
    InTag ('"' :: (value ++ ['"'])) := by
  intro cs inner rest hcs
  rw [List.cons_append, List.append_assoc, splitTag?, if_neg (by decide)]
  have hafter : quoteAfter none '"' = some '"' := rfl
  rw [hafter, List.singleton_append, splitTag?_quoted h hcs, Option.map_some, List.cons_append,
    List.append_assoc]
  rfl

theorem inTag_attributeText (h : IsPlain a.name) : InTag (attributeText a) := by
  have hname : InTag a.name.base.toList := .of_name (isNameChar_of_isName h.2)
  have hvalue : InTag ('"' :: (a.value.toList.flatMap escapeValue ++ ['"'])) :=
    .quoted fun _ hc => ne_of_mem_escapedValue hc
  have hequals : InTag ('=' :: '"' :: (a.value.toList.flatMap escapeValue ++ ['"'])) :=
    .cons (by decide) (by decide) (by decide) hvalue
  exact .cons (by decide) (by decide) (by decide) (hname.append hequals)

theorem inTag_tagText (h : Nameable e) : InTag (tagText e) :=
  (InTag.of_name (isNameChar_of_isName h.name.2)).append
    (.flatMap fun a ha => inTag_attributeText (h.attributes a ha))

/-- **A written tag ends behind its last attribute.** -/
theorem splitTag?_tagText (h : Nameable e) (rest : List Char) :
    splitTag? none (tagText e ++ '>' :: rest) = some (tagText e, rest) := by
  have hend := inTag_tagText h ('>' :: rest) [] rest (by rw [splitTag?, if_pos ⟨rfl, rfl⟩])
  rwa [List.append_nil] at hend

theorem splitTag?_tagText_slash (h : Nameable e) (rest : List Char) :
    splitTag? none (tagText e ++ '/' :: '>' :: rest) = some (tagText e ++ ['/'], rest) := by
  refine inTag_tagText h _ _ _ ?_
  have hslash : InTag ['/'] := .cons (by decide) (by decide) (by decide) InTag.nil
  exact hslash ('>' :: rest) [] rest (by rw [splitTag?, if_pos ⟨rfl, rfl⟩])

/-- The content of a tag does not end with a slash: the last character is of a name or a quote. -/
theorem dropTail?_tagText (h : Nameable e) : dropTail? ['/'] (tagText e) = none := by
  rw [Option.eq_none_iff_forall_ne_some]
  intro stem hstem
  have hlast : '/' ∈ (tagText e).getLast? := by
    rw [dropTail?_eq_some_iff.mp hstem, List.getLast?_concat]
    rfl
  -- Without attributes the text ends with the name, otherwise with the quote of the last one.
  rcases List.eq_nil_or_concat e.attributes with hnil | ⟨init, a, hconcat⟩
  · rw [tagText, hnil, List.flatMap_nil, List.append_nil] at hlast
    exact ne_of_kind (isNameChar_of_isName h.name.2 '/' (List.mem_of_getLast? hlast)) (by decide) rfl
  · have hquote : attributeText a = ' ' :: (a.name.base.toList ++ '=' :: '"' ::
        a.value.toList.flatMap escapeValue) ++ ['"'] := by
      simp [attributeText]
    rw [tagText, hconcat, List.concat_eq_append, List.flatMap_append, List.flatMap_singleton,
      hquote, ← List.append_assoc, ← List.append_assoc, List.getLast?_concat] at hlast
    cases hlast

/-! ## The attributes of a tag -/

/-- What is read behind the name of a written attribute. -/
theorem rawValue?_quoted {total : Nat} {value : List Char} (h : ∀ c ∈ value, c ≠ '"') :
    rawValue? total ('=' :: '"' :: (value ++ '"' :: rest)) = .ok (value, rest) := by
  have hsplit : splitFirst? ['"'] (value ++ '"' :: rest) = some (value, rest) := by
    refine splitFirst?_append [] List.not_mem_nil ?_
    have hnone : occursIn ['"'] (value ++ []) = occursIn ['"'] [] :=
      occursIn_append_of_not_mem fun hq => h '"' hq rfl
    rwa [List.append_nil] at hnone
  rw [rawValue?, List.dropWhile_cons_of_neg (by decide)]
  show rawValue total (('"' :: (value ++ '"' :: rest)).dropWhile isXmlBlank) = _
  rw [List.dropWhile_cons_of_neg (by decide), rawValue, if_pos (.inl rfl), hsplit]

/-- The first attribute of a tag is cut off. -/
theorem attributesFrom_cons (total : Nat) {seen : List (List Char × Nat)} (h : IsPlain a.name)
    (hseen : seen.lookup a.name.base.toList = none) (cs : List Char) :
    ∃ position, attributesFrom total seen (attributeText a ++ cs) =
      (attributesFrom total (seen ++ [(a.name.base.toList, position)]) cs).map (a :: ·) := by
  obtain ⟨c, name, hname, -⟩ := exists_of_isName h.2
  have hchars := isNameChar_of_isName h.2
  rw [hname] at hchars hseen ⊢
  obtain ⟨hc, htail⟩ := List.forall_mem_cons.mp hchars
  have hends : ∀ d ∈ name, (!endsName d) = true := by
    intro d hd
    rw [endsName_of_isNameChar (htail d hd)]
    rfl
  have hbegin : (attributeText a ++ cs).dropWhile isXmlBlank =
      c :: (name ++ '=' :: '"' :: (a.value.toList.flatMap escapeValue ++ '"' :: cs)) := by
    rw [attributeText, hname, List.cons_append, List.dropWhile_cons_of_pos (by decide)]
    simp [isXmlBlank_of_isNameChar hc]
  have hraw : rawValue? total ((name ++ '=' :: '"' ::
      (a.value.toList.flatMap escapeValue ++ '"' :: cs)).dropWhile (!endsName ·)) =
        .ok (a.value.toList.flatMap escapeValue, cs) := by
    rw [dropWhile_append_cons hends (by decide)]
    exact rawValue?_quoted fun _ hd => ne_of_mem_escapedValue hd
  have hback : (⟨.plain (String.ofList (c :: name)), String.ofList a.value.toList⟩ : Attribute) =
      a := by
    rw [← hname, String.ofList_toList, String.ofList_toList, ← h.1]
  refine ⟨total - byteLength (c :: (name ++ '=' :: '"' ::
    (a.value.toList.flatMap escapeValue ++ '"' :: cs))), ?_⟩
  rw [attributesFrom]
  -- The reader's own case split decides nothing here: it is fixed by what has been written.
  split
  · next hnil => cases hbegin.symm.trans hnil
  · next c' r hcons =>
    obtain ⟨rfl, rfl⟩ := List.cons.inj (hbegin.symm.trans hcons)
    split
    · next fault hv => cases hraw.symm.trans hv
    · next raw rest hv =>
      obtain ⟨rfl, rfl⟩ := Prod.mk.inj (Except.ok.inj (hraw.symm.trans hv))
      dsimp only
      rw [takeWhile_append_cons hends (by decide), hseen, decode_escapeValue]
      dsimp only
      rw [hback]

/-- **The attributes of a written tag are read as written**, unless one was seen before. -/
theorem attributesFrom_flatMap {total : Nat} {seen : List (List Char × Nat)}
    (hplain : ∀ a ∈ attributes, IsPlain a.name) (hdistinct : (attributes.map (·.name)).Nodup)
    (hseen : ∀ a ∈ attributes, seen.lookup a.name.base.toList = none) :
    attributesFrom total seen (attributes.flatMap attributeText) = .ok attributes := by
  induction attributes generalizing seen with
  | nil =>
    rw [List.flatMap_nil, attributesFrom]
    rfl
  | cons a attributes ih =>
    obtain ⟨hpa, hplain⟩ := List.forall_mem_cons.mp hplain
    obtain ⟨hsa, hseen⟩ := List.forall_mem_cons.mp hseen
    rw [List.map_cons, List.nodup_cons] at hdistinct
    obtain ⟨position, hfirst⟩ :=
      attributesFrom_cons total hpa hsa (attributes.flatMap attributeText)
    have hlater : ∀ b ∈ attributes,
        (seen ++ [(a.name.base.toList, position)]).lookup b.name.base.toList = none := by
      intro b hb
      -- Plain names are equal if their texts are.
      have hne : b.name.base.toList ≠ a.name.base.toList := by
        intro he
        apply hdistinct.1
        rw [hpa.1, ← String.toList_injective he, ← (hplain b hb).1]
        exact List.mem_map_of_mem hb
      rw [List.lookup_append, hseen b hb, Option.none_or, List.lookup_cons,
        beq_false_of_ne hne, List.lookup_nil]
    rw [List.flatMap_cons, hfirst, ih hplain hdistinct.2 hlater]
    rfl

/-- **A written tag is read as its element.** -/
theorem element_tagText (h : Nameable e) : element (tagText e) = .ok e := by
  have hname : ∀ c ∈ e.name.base.toList, (!isXmlBlank c) = true := by
    intro c hc
    rw [isXmlBlank_of_isNameChar (isNameChar_of_isName h.name.2 c hc)]
    rfl
  have hbehind : (tagText e).takeWhile (!isXmlBlank ·) = e.name.base.toList ∧
      (tagText e).dropWhile (!isXmlBlank ·) = e.attributes.flatMap attributeText := by
    rw [tagText, List.takeWhile_append_of_pos hname, List.dropWhile_append_of_pos hname]
    cases e.attributes with
    | nil => exact ⟨List.append_nil _, rfl⟩
    | cons a attributes => exact ⟨List.append_nil _, rfl⟩
  rw [element, hbehind.1, hbehind.2,
    attributesFrom_flatMap h.attributes h.distinct fun _ _ => rfl, String.ofList_toList]
  show Except.ok (Element.mk (.plain e.name.base) e.attributes) = .ok e
  rw [← h.name.1]

end Stencil.Xml

import Stencil.Proofs.Editing
import Stencil.Proofs.Text.Cutting

/-!
# What a value can do to the element that it is put into

A value that is put into an element of an HTML document is written between the tags of the element.
As a text it is escaped, so it stays where it was put (`isCharacterData_escapeText`). As a CDATA
section it becomes a comment, and nothing in a comment is escaped: the comment ends at the first
terminator, so it holds the value if and only if the value is free of terminators
(`isComment_cdataComment_iff`). A value with a terminator ends the comment, and what follows in it is
read as markup.
-/

namespace Stencil

namespace Html
open Markup Text

variable {c : Char} {v : String}

/-- Text that neither opens nor closes a tag. -/
def IsCharacterData (s : String) : Prop := ∀ c ∈ s.toList, c ≠ '<' ∧ c ≠ '>'

/-- One comment and nothing behind it: the first terminator is at the end. -/
def IsComment (s : String) : Prop :=
  ∃ inner, s = "<!--" ++ inner ++ "-->" ∧
    splitFirst? "-->".toList s.toList = some (("<!--" ++ inner).toList, [])

/-- Written content that does not reach out of the element that it is in. -/
def Contained (s : String) : Prop := IsCharacterData s ∨ IsComment s

theorem ne_of_mem_escapeTextChar (d : Char) (h : c ∈ escapeTextChar d) : c ≠ '<' ∧ c ≠ '>' := by
  have hamp : ∀ c ∈ "&amp;".toList, c ≠ '<' ∧ c ≠ '>' := by simp
  have hnbsp : ∀ c ∈ "&nbsp;".toList, c ≠ '<' ∧ c ≠ '>' := by simp
  have hlt : ∀ c ∈ "&lt;".toList, c ≠ '<' ∧ c ≠ '>' := by simp
  have hgt : ∀ c ∈ "&gt;".toList, c ≠ '<' ∧ c ≠ '>' := by simp
  unfold escapeTextChar at h
  split at h
  · exact hamp c h
  split at h
  · exact hnbsp c h
  split at h
  · exact hlt c h
  next hopen =>
  split at h
  · exact hgt c h
  next hclose =>
  rw [List.mem_singleton] at h
  exact ⟨h ▸ hopen, h ▸ hclose⟩

/-- **Escaped text neither opens nor closes a tag.** -/
theorem isCharacterData_escapeText (v : String) : IsCharacterData (escapeText v) := by
  intro c hc
  rw [escapeText, String.toList_ofList] at hc
  obtain ⟨d, -, hd⟩ := List.mem_flatMap.mp hc
  exact ne_of_mem_escapeTextChar d hd

/-- The text of the comment that a section is held as has a terminator if and only if the content of
the section has one. -/
theorem occursIn_sectionText :
    occursIn "-->".toList ("<!--" ++ cdataComment v).toList = contains v "-->" := by
  have htext : ("<!--" ++ cdataComment v).toList =
      "<!--".toList ++ '[' :: ("CDATA".toList ++ '[' :: (v.toList ++ ']' :: [']'])) := by
    simp [cdataComment, String.toList_append]
  -- The brackets around the content keep what is outside from making up a terminator with it.
  have hopen : '[' ∉ "-->".toList := by decide
  have hclose : ']' ∉ "-->".toList := by decide
  have hout : ¬ "-->".toList <:+: "<!--".toList ∧ ¬ "-->".toList <:+: "CDATA".toList ∧
      ¬ "-->".toList <:+: [']'] := by decide
  rw [contains, Bool.eq_iff_iff, occursIn_iff, occursIn_iff, htext, infix_append_cons_iff hopen,
    infix_append_cons_iff hopen, infix_append_cons_iff hclose]
  simp only [hout, false_or, or_false]

/-- **A section is written as one comment if and only if its content has no terminator.** -/
theorem isComment_cdataComment_iff :
    IsComment ("<!--" ++ cdataComment v ++ "-->") ↔ contains v "-->" = false := by
  rw [← occursIn_sectionText]
  constructor
  · rintro ⟨inner, htext, hsplit⟩
    rw [← (String.append_left_inj "-->").mp htext] at hsplit
    exact occursIn_of_splitFirst? (by decide) hsplit
  · intro hfree
    refine ⟨cdataComment v, rfl, ?_⟩
    rw [String.toList_append (t := "-->")]
    exact splitFirst?_append ['-', '-'] (by decide) hfree

/-- A comment is no character data, so a section stays in its element only as one comment. -/
theorem contained_cdataComment_iff :
    Contained ("<!--" ++ cdataComment v ++ "-->") ↔ contains v "-->" = false := by
  have hmarkup : ¬ IsCharacterData ("<!--" ++ cdataComment v ++ "-->") := by
    intro h
    refine (h '<' ?_).1 rfl
    simp [String.toList_append]
  rw [← isComment_cdataComment_iff]
  exact or_iff_right hmarkup

end Html

namespace Document
open Markup Html

variable {d : Document} {i : NodeId} {e : Element} {v : String}

/-- An element whose children are replaced has one new child. -/
theorem find?_replaceChildren_element (he : d.element? i = some e) (content : Value) :
    (d.replaceChildren i content).forest.find? i =
      some (.node i (.element e) [.node d.forest.next content []]) := by
  obtain ⟨⟨j, v, cs⟩, ht, rfl⟩ := Option.map_eq_some_iff.mp (value?_of_element? he)
  obtain rfl : j = i := Forest.id_of_find? ht
  have h := Forest.find?_replaceChildren d.forest j content
    (Nat.ne_of_lt (Forest.lt_next_of_find? ht))
  rw [ht, Option.map_some, Tree.update, if_pos rfl] at h
  exact h

/-- An element that has got one new child is written as its tags around that child. -/
theorem writeNode_replaceChildren (hmode : d.mode = .html) (he : d.element? i = some e)
    (hvoid : Html.isVoid e.name = false) (hraw : Html.isRaw e.name = false) (content : Value) :
    (d.replaceChildren i content).writeNode i = startTagText e ++
      Html.write ⟨true, false⟩ (.node d.forest.next content []) ++ endTagText e := by
  have hmode' : (d.replaceChildren i content).mode = .html := hmode
  rw [writeNode, find?_replaceChildren_element he, hmode']
  simp only [Tree.value_node, Value.isElement, Value.element?, Option.isSome_some, if_true,
    Html.write, Surroundings.outermost, hvoid, hraw, Html.writeAll, Bool.not_false,
    Bool.false_eq_true, if_false, String.append_empty]

/-- **What a bound value can do.** A value that is put as a text into an element whose text is
escaped stays inside its tags. One that is put there as a section does so if and only if it does not
hold the terminator of comments. -/
theorem writeNode_bound (hmode : d.mode = .html) (he : d.element? i = some e)
    (hvoid : Html.isVoid e.name = false) (hraw : Html.isRaw e.name = false) (v : String) :
    (∃ x, (d.setText i v).writeNode i = startTagText e ++ x ++ endTagText e ∧ IsCharacterData x) ∧
      ∃ x, (d.setCdata i v).writeNode i = startTagText e ++ x ++ endTagText e ∧
        (Contained x ↔ Text.contains v "-->" = false) := by
  refine ⟨⟨escapeText v, ?_, isCharacterData_escapeText v⟩, _, ?_, contained_cdataComment_iff⟩
  · exact writeNode_replaceChildren hmode he hvoid hraw (.text v)
  · exact writeNode_replaceChildren hmode he hvoid hraw (.comment (cdataComment v))

/-- A price put into a paragraph, with characters that are escaped in a text and not in a section. -/
theorem writeNode_bound_paragraph :
    ∃ d, read "<p>x</p>" .html = .ok d ∧ d.mode = .html ∧ d.element? 4 = some ⟨.html "p", []⟩ ∧
      Html.isVoid (QName.html "p") = false ∧ Html.isRaw (QName.html "p") = false ∧
      (∃ x, (d.setText 4 "5 > 4 & 3").writeNode 4 = "<p>" ++ x ++ "</p>" ∧ IsCharacterData x) ∧
      ∃ x, (d.setCdata 4 "5 > 4 & 3").writeNode 4 = "<p>" ++ x ++ "</p>" ∧ Contained x := by
  have he : (Document.mk .html (Html.read "<p>x</p>")).element? 4 = some ⟨.html "p", []⟩ := by
    decide +kernel
  have hfree : Text.contains "5 > 4 & 3" "-->" = false := by decide
  obtain ⟨htext, x, hx, hcontained⟩ :=
    writeNode_bound (d := ⟨.html, Html.read "<p>x</p>"⟩) rfl he (by decide) (by decide) "5 > 4 & 3"
  exact ⟨_, rfl, rfl, he, by decide, by decide, htext, x, hx, hcontained.mpr hfree⟩

/-- A section whose content has the terminator of comments reaches out of its paragraph: what stands
behind the terminator is markup. -/
theorem setCdata_reaches_out :
    ∃ d, read "<p>x</p>" .html = .ok d ∧ d.element? 4 = some ⟨.html "p", []⟩ ∧
      Html.isVoid (QName.html "p") = false ∧ Html.isRaw (QName.html "p") = false ∧
      (d.setCdata 4 "--><b>y</b>").writeNode 4 = "<p><!--[CDATA[--><b>y</b>]]--></p>" ∧
      ¬ ∃ x, (d.setCdata 4 "--><b>y</b>").writeNode 4 = "<p>" ++ x ++ "</p>" ∧ Contained x := by
  have hwritten : (Document.mk .html (Html.read "<p>x</p>")
      |>.setCdata 4 "--><b>y</b>").writeNode 4 =
        "<p>" ++ ("<!--" ++ cdataComment "--><b>y</b>" ++ "-->") ++ "</p>" := by
    decide +kernel
  refine ⟨_, rfl, by decide +kernel, by decide, by decide, hwritten, ?_⟩
  rintro ⟨x, hx, hcontained⟩
  rw [hwritten, String.append_left_inj, String.append_right_inj] at hx
  rw [← hx, contained_cdataComment_iff] at hcontained
  exact absurd hcontained (by decide)

end Document

end Stencil

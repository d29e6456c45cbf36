import Stencil.Proofs.Xml.Normal

/-!
# Content cut into sections

The terminator `]]>` cannot stand in a CDATA section, so content that holds it is cut behind each
`]]` that a `>` follows and written as several sections. The cut is what a search for the first
terminator makes, round by round (`cdataSections_of_splitFirst?`), and nothing of the content is
lost.

A reader that ends each section at the first terminator behind its opening gets the sections back
(`scanSections?_join`). A section may end in brackets, so that the written text has more than two of
them in front of the `>`: the brackets of the section come first, and the terminator is made of the
last two.
-/

namespace Stencil.Xml
open Markup Text

variable {cs before rest : List Char} {pieces : List (List Char)}

/-! ## Cutting by search -/

/-- **One round of the search.** The first piece ends behind the two brackets of the first
terminator, and the others are cut from what begins with its `>`. -/
theorem cdataSections_of_splitFirst? (h : splitFirst? [']', ']', '>'] cs = some (before, rest)) :
    cdataSections cs = (before ++ [']', ']']) :: cdataSections ('>' :: rest) := by
  fun_induction cdataSections cs generalizing before with
  | case1 => cases h
  | case2 behind ih =>
    obtain ⟨rfl, rfl⟩ := Prod.mk.inj (Option.some.inj h)
    rfl
  | case3 c behind hnot piece pieces hpieces ih =>
    have hstem : dropStem? [']', ']', '>'] (c :: behind) = none := by
      rw [Option.eq_none_iff_forall_ne_some]
      intro l hl
      obtain ⟨rfl, hbehind⟩ := List.cons.inj (dropStem?_eq_some_iff.mp hl)
      exact hnot l rfl hbehind
    rw [splitFirst?, hstem] at h
    obtain ⟨⟨front, behind'⟩, hsplit, he⟩ := Option.map_eq_some_iff.mp h
    obtain ⟨rfl, rfl⟩ := Prod.mk.inj he
    -- The first piece of what is behind `c` gets `c` in front of it.
    have hcut := ih hsplit
    rw [hpieces] at hcut
    obtain ⟨rfl, rfl⟩ := List.cons.inj hcut
    rfl
  | case4 c behind _ hpieces => exact absurd hpieces (cdataSections_ne_nil behind)

/-- What is left to search gets shorter. -/
theorem length_lt_of_splitFirst? (h : splitFirst? [']', ']', '>'] cs = some (before, rest)) :
    ('>' :: rest).length < cs.length := by
  rw [eq_append_of_splitFirst? h]
  simp only [List.length_append, List.length_cons, List.length_nil]
  omega

/-! ## Reading sections -/

/-- The sections that a text is made of. Each ends at the first terminator behind its opening; a
text with anything else in it has none. -/
def scanSections? (cs : List Char) : Option (List (List Char)) :=
  if cs.isEmpty then some []
  else
    match _h : (dropStem? "<![CDATA[".toList cs).bind (splitFirst? "]]>".toList) with
    | some (piece, rest) => (scanSections? rest).map (piece :: ·)
    | none => none
termination_by cs.length
decreasing_by
  obtain ⟨behind, hstem, hsplit⟩ := Option.bind_eq_some_iff.mp _h
  have hle := length_le_of_splitFirst? hsplit
  rw [dropStem?_eq_some_iff.mp hstem, List.length_append, String.length_toList]
  have hopening : "<![CDATA[".length = 9 := rfl
  omega

theorem scanSections?_append {piece : List Char} (h : occursIn [']', ']', '>'] piece = false)
    (rest : List Char) :
    scanSections? ("<![CDATA[".toList ++ (piece ++ ']' :: ']' :: '>' :: rest)) =
      (scanSections? rest).map (piece :: ·) := by
  have hsplit : splitFirst? "]]>".toList (piece ++ ']' :: ']' :: '>' :: rest) =
      some (piece, rest) :=
    splitFirst?_append [']', ']'] (by decide) h
  have hscan : (dropStem? "<![CDATA[".toList
      ("<![CDATA[".toList ++ (piece ++ ']' :: ']' :: '>' :: rest))).bind
        (splitFirst? "]]>".toList) = some (piece, rest) := by
    rw [dropStem?_eq_some_iff.mpr rfl, Option.bind_some, hsplit]
  rw [scanSections?, if_neg (by simp)]
  split
  · next heq =>
    obtain ⟨rfl, rfl⟩ := Prod.mk.inj (Option.some.inj (hscan.symm.trans heq))
    rfl
  · next heq => cases hscan.symm.trans heq

/-- **Sections without a terminator are read back from what is written for them.** -/
theorem scanSections?_join (h : ∀ piece ∈ pieces, occursIn [']', ']', '>'] piece = false) :
    scanSections? (String.join (pieces.map fun piece =>
      "<![CDATA[" ++ String.ofList piece ++ "]]>")).toList = some pieces := by
  induction pieces with
  | nil => rw [scanSections?]; rfl
  | cons piece pieces ih =>
    obtain ⟨hpiece, hpieces⟩ := List.forall_mem_cons.mp h
    have hfirst := scanSections?_append hpiece
      (String.join (pieces.map fun piece => "<![CDATA[" ++ String.ofList piece ++ "]]>")).toList
    rw [ih hpieces, Option.map_some] at hfirst
    rw [List.map_cons, String.join_cons, String.toList_append, String.toList_append,
      String.toList_append, String.toList_ofList (l := piece), List.append_assoc, List.append_assoc]
    exact hfirst

/-- **Cutting content into sections loses nothing and closes every section.** The pieces are what
the search for the first terminator cuts off until it finds none, with less left to search each
time. There is at least one, together they are the content, and none holds the terminator. What is
written for the section is the pieces as sections, one behind the other, and reading that text, each
section up to the first terminator behind its opening, gives the same pieces. -/
theorem cdataSections_exact (content : String) :
    (match splitFirst? "]]>".toList content.toList with
      | some (before, rest) => ('>' :: rest).length < content.toList.length ∧
          cdataSections content.toList = (before ++ "]]".toList) :: cdataSections ('>' :: rest)
      | none => cdataSections content.toList = [content.toList]) ∧
    cdataSections content.toList ≠ [] ∧
    (cdataSections content.toList).flatten = content.toList ∧
    (∀ piece ∈ cdataSections content.toList, occursIn "]]>".toList piece = false) ∧
    leafText (.comment (cdataComment content)) = String.join
      ((cdataSections content.toList).map fun piece =>
        "<![CDATA[" ++ String.ofList piece ++ "]]>") ∧
    scanSections? (leafText (.comment (cdataComment content))).toList =
      some (cdataSections content.toList) := by
  have hfree := occursIn_of_mem_cdataSections content.toList
  have htext : leafText (.comment (cdataComment content)) = String.join
      ((cdataSections content.toList).map fun piece =>
        "<![CDATA[" ++ String.ofList piece ++ "]]>") := by
    rw [leafText, cdataContent?_cdataComment]
  refine ⟨?_, cdataSections_ne_nil _, flatten_cdataSections _, hfree, htext, ?_⟩
  · split
    · next before rest hsplit =>
      exact ⟨length_lt_of_splitFirst? hsplit, cdataSections_of_splitFirst? hsplit⟩
    · next hsplit => exact cdataSections_of_occursIn (occursIn_of_splitFirst?_eq_none hsplit)
  · rw [htext]
    exact scanSections?_join hfree

/-- Brackets on both sides of the cut. -/
example : cdataSections "]]]]>>]".toList = ["]]]]".toList, ">>]".toList] := by decide

end Stencil.Xml

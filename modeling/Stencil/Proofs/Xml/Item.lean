import Stencil.Proofs.Xml.Tag

/-!
# Items are cut off as written

What the writer puts down for a node is cut off as one item, whatever stands behind it. For a run
of text this needs a tag or the end behind it; for a comment, a section or an instruction that the
content does not hold the terminator.
-/

namespace Stencil.Xml
open Markup Text

variable {c : Char} {cs rest name content : List Char} {e : Element}

namespace Item

/-- A run of text ends at a tag or at the end. -/
theorem next_text (position : Nat) (h : ∀ d ∈ c :: cs, d ≠ '<') (hrest : ∀ d ∈ rest.head?, d = '<') :
    next position c (cs ++ rest) = .ok (.text (c :: cs), rest) := by
  obtain ⟨hc, hcs⟩ := List.forall_mem_cons.mp h
  have hcs : ∀ d ∈ cs, (d != '<') = true := fun d hd => bne_iff_ne.mpr (hcs d hd)
  rw [next, if_neg hc, List.takeWhile_append_of_pos hcs, List.dropWhile_append_of_pos hcs]
  -- Nothing of the rest belongs to the run.
  cases rest with
  | nil => rw [List.takeWhile_nil, List.dropWhile_nil, List.append_nil]
  | cons d rest =>
    obtain rfl := hrest d rfl
    rw [List.takeWhile_cons_of_neg (by decide), List.dropWhile_cons_of_neg (by decide),
      List.append_nil]

/-- Behind the `<` of a tag stands a name. -/
theorem nextMarkup_tag (position : Nat) (h : Nameable e) (cs : List Char) :
    nextMarkup position (tagText e ++ cs) = nextStart position (tagText e ++ cs) := by
  obtain ⟨c, name, hname, hc⟩ := exists_of_isName h.name.2
  have hbegin : tagText e ++ cs = c :: (name ++ e.attributes.flatMap attributeText ++ cs) := by
    rw [tagText, hname]
    rfl
  -- The first character of a name is none of those that announce another kind of markup.
  unfold nextMarkup
  split
  · next heq =>
    obtain ⟨rfl, -⟩ := List.cons.inj (hbegin.symm.trans heq)
    cases hc
  · next heq =>
    obtain ⟨rfl, -⟩ := List.cons.inj (hbegin.symm.trans heq)
    cases hc
  · next heq =>
    obtain ⟨rfl, -⟩ := List.cons.inj (hbegin.symm.trans heq)
    cases hc
  · rfl

theorem next_start (position : Nat) (h : Nameable e) (rest : List Char) :
    next position '<' (tagText e ++ '>' :: rest) = .ok (.start (tagText e), rest) := by
  rw [next, if_pos rfl, nextMarkup_tag position h, nextStart, splitTag?_tagText h]
  dsimp only
  rw [dropTail?_tagText h]

theorem next_empty (position : Nat) (h : Nameable e) (rest : List Char) :
    next position '<' (tagText e ++ '/' :: '>' :: rest) = .ok (.empty (tagText e), rest) := by
  rw [next, if_pos rfl, nextMarkup_tag position h, nextStart, splitTag?_tagText_slash h]
  dsimp only
  rw [dropTail?_eq_some_iff.mpr rfl]

theorem next_finish (position : Nat) (h : isName name) (rest : List Char) :
    next position '<' ('/' :: (name ++ '>' :: rest)) = .ok (.finish name, rest) := by
  have hchars := isNameChar_of_isName h
  have hsplit : splitTag? none (name ++ '>' :: rest) = some (name, rest) := by
    have hend := InTag.of_name hchars ('>' :: rest) [] rest (by rw [splitTag?, if_pos ⟨rfl, rfl⟩])
    rwa [List.append_nil] at hend
  have htrim : dropWhileEnd isXmlBlank name = name := by
    rw [dropWhileEnd]
    cases hreverse : name.reverse with
    | nil => rw [List.dropWhile_nil, ← hreverse, List.reverse_reverse]
    | cons d ds =>
      have hd : d ∈ name := List.mem_reverse.mp (hreverse ▸ List.mem_cons_self)
      have hblank := isXmlBlank_of_isNameChar (hchars d hd)
      rw [List.dropWhile_cons_of_neg (Bool.not_eq_true _ ▸ hblank), ← hreverse,
        List.reverse_reverse]
  have hne : name.isEmpty = false := by
    obtain ⟨d, ds, rfl, -⟩ := exists_of_isName h
    rfl
  show nextEnd position (name ++ '>' :: rest) = _
  rw [nextEnd, hsplit]
  dsimp only
  rw [htrim, hne]
  rfl

theorem next_comment (position : Nat) (h : occursIn ['-', '-', '>'] content = false)
    (rest : List Char) :
    next position '<' ('!' :: '-' :: '-' :: (content ++ '-' :: '-' :: '>' :: rest)) =
      .ok (.comment content, rest) := by
  have hsplit : splitFirst? ['-', '-', '>'] (content ++ '-' :: '-' :: '>' :: rest) =
      some (content, rest) := splitFirst?_append ['-', '-'] (by decide) h
  show nextComment position ('-' :: (content ++ '-' :: '-' :: '>' :: rest)) = _
  rw [nextComment, dropStem?, if_pos rfl, dropStem?, Option.bind_some]
  rw [hsplit]

theorem next_section (position : Nat) (h : occursIn [']', ']', '>'] content = false)
    (rest : List Char) :
    next position '<' ('!' :: '[' :: 'C' :: 'D' :: 'A' :: 'T' :: 'A' :: '[' ::
      (content ++ ']' :: ']' :: '>' :: rest)) = .ok (.section content, rest) := by
  have hsplit : splitFirst? [']', ']', '>'] (content ++ ']' :: ']' :: '>' :: rest) =
      some (content, rest) := splitFirst?_append [']', ']'] (by decide) h
  have hstem : dropStem? ['C', 'D', 'A', 'T', 'A', '['] ('C' :: 'D' :: 'A' :: 'T' :: 'A' :: '[' ::
      (content ++ ']' :: ']' :: '>' :: rest)) = some (content ++ ']' :: ']' :: '>' :: rest) := rfl
  show nextSection position _ = _
  rw [nextSection, hstem, Option.bind_some]
  rw [hsplit]

theorem next_instruction (position : Nat) (h : occursIn ['?', '>'] content = false)
    (hhead : content.head? ≠ some '>') (rest : List Char) :
    next position '<' ('?' :: (content ++ '?' :: '>' :: rest)) =
      .ok (.instruction content, rest) := by
  have hsplit : splitFirst? ['?', '>'] (content ++ '?' :: '>' :: rest) = some (content, rest) :=
    splitFirst?_append ['?'] (by decide) h
  have hfirst : (content ++ '?' :: '>' :: rest).head? ≠ some '>' := by
    cases content with
    | nil => simp
    | cons d content => exact hhead
  show nextInstruction position _ = _
  rw [nextInstruction, if_neg hfirst]
  rw [hsplit]

theorem splitDeclaration?_append (h : ∀ d ∈ content, d ≠ '<' ∧ d ≠ '>') (rest : List Char) :
    splitDeclaration? 0 (content ++ '>' :: rest) = some (content, rest) := by
  induction content with
  | nil => rw [List.nil_append, splitDeclaration?, if_pos ⟨rfl, rfl⟩]
  | cons d content ih =>
    obtain ⟨hd, htail⟩ := List.forall_mem_cons.mp h
    rw [List.cons_append, splitDeclaration?, if_neg fun he => hd.2 he.1]
    dsimp only
    rw [if_neg hd.1, if_neg hd.2, ih htail]
    rfl

theorem next_doctype (position : Nat) (hne : content ≠ []) (htrim : trim content = content)
    (h : ∀ d ∈ content, d ≠ '<' ∧ d ≠ '>') (rest : List Char) :
    next position '<' ('!' :: 'D' :: 'O' :: 'C' :: 'T' :: 'Y' :: 'P' :: 'E' :: ' ' ::
      (content ++ '>' :: rest)) = .ok (.doctype content, rest) := by
  have hinner : ∀ d ∈ 'D' :: 'O' :: 'C' :: 'T' :: 'Y' :: 'P' :: 'E' :: ' ' :: content,
      d ≠ '<' ∧ d ≠ '>' := by
    simpa using h
  have hkeyword : behindDoctype? ('D' :: 'O' :: 'C' :: 'T' :: 'Y' :: 'P' :: 'E' :: ' ' :: content) =
      some (' ' :: content) := rfl
  -- The blank behind the keyword is dropped, and the name does not begin with another one.
  have hcontent : (' ' :: content).dropWhile isXmlBlank = content := by
    rw [List.dropWhile_cons_of_pos (by decide)]
    cases content with
    | nil => exact absurd rfl hne
    | cons d content =>
      refine List.dropWhile_cons_of_neg ?_
      intro hd
      have hdrop := dropWhile_of_trim htrim
      rw [List.dropWhile_cons_of_pos (isBlank_of_isXmlBlank hd)] at hdrop
      have hlength := (List.dropWhile_sublist isBlank (l := content)).length_le
      rw [hdrop, List.length_cons] at hlength
      omega
  have hempty : content.isEmpty = false := List.isEmpty_eq_false_iff.mpr hne
  have hsplit := splitDeclaration?_append hinner rest
  simp only [List.cons_append] at hsplit
  show nextDoctype position _ = _
  rw [nextDoctype, hsplit]
  dsimp only
  rw [hkeyword]
  dsimp only
  rw [hcontent, hempty]
  rfl

end Item

end Stencil.Xml

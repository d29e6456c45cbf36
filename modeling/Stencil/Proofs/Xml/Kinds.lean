import Stencil.Proofs.Component.Order
import Stencil.Proofs.Xml.Items
import Stencil.Proofs.Xml.RoundTrip

/-!
# What is written for an unchanged template

An XML document that was read and not changed is written item by item, in the order of the source
(`write_of_read`). Its comments and sections share one kind of node and are told apart by their text
alone, so a comment keeps its kind unless it looks like a section: `<!--[CDATA[x]]-->` is written as
`<![CDATA[x]]>`, by the convention that such a comment stands for a section. A section keeps its
kind whatever it holds, and a text never becomes markup.

That a kind is kept is said of the written text itself: whatever stands behind it, it is read as the
same item again (`ReadsAs`).
-/

namespace Stencil.Xml
open Markup Text
open Markup.Tree (renumberAll)

variable {c : Char} {cs content rest text : List Char} {item : Item} {items more : List Item}
  {ts : List Tree} {e : Element} {position : Nat}

/-! ## Writing items -/

/-- What is written for an event. -/
def Event.written : Event → String
  | .opens e => openingText e ++ ">"
  | .closes name => "</" ++ name ++ ">"
  | .leaf v => write (.node 0 v [])

/-- What is written for an item. -/
def Item.written (item : Item) : String :=
  match item.event with
  | .ok event => event.written
  | .error _ => ""

/-- What is written for items, one after the other. Two tags with nothing between them are written
as the tag of an empty element. -/
def rewritten : List Item → String
  | [] => ""
  | .start content :: .finish _ :: items => (Item.empty content).written ++ rewritten items
  | item :: items => item.written ++ rewritten items

namespace Item

theorem written_of_event {event : Event} (h : item.event = .ok event) :
    item.written = event.written := by
  rw [written, h]

theorem written_start (h : element content = .ok e) :
    (Item.start content).written = openingText e ++ ">" := by
  have hevent : (Item.start content).event = .ok (.opens e) := by
    rw [event, h]
    rfl
  rw [written_of_event hevent, Event.written]

theorem written_empty (h : element content = .ok e) :
    (Item.empty content).written = openingText e ++ "/>" := by
  have hevent : (Item.empty content).event = .ok (.leaf (.element e)) := by
    rw [event, h]
    rfl
  rw [written_of_event hevent, Event.written, write, if_pos List.isEmpty_nil]

theorem written_finish (name : List Char) :
    (Item.finish name).written = "</" ++ String.ofList name ++ ">" := rfl

theorem written_comment (h : cdataContent? (String.ofList content) = none) :
    (Item.comment content).written = "<!--" ++ String.ofList content ++ "-->" := by
  rw [written_of_event rfl, Event.written, write, leafText, h]
  all_goals simp

/-- A comment that looks like a section is written as one, or as several. -/
theorem written_comment_of_some {inside : String}
    (h : cdataContent? (String.ofList content) = some inside) :
    (Item.comment content).written = String.join ((cdataSections inside.toList).map fun piece =>
      "<![CDATA[" ++ String.ofList piece ++ "]]>") := by
  rw [written_of_event rfl, Event.written, write, leafText, h]
  all_goals simp

theorem written_section (h : occursIn [']', ']', '>'] content = false) :
    (Item.section content).written = "<![CDATA[" ++ String.ofList content ++ "]]>" := by
  rw [written_of_event rfl, Event.written, write, leafText, cdataContent?_cdataComment]
  · dsimp only
    rw [String.toList_ofList, cdataSections_of_occursIn h, List.map_singleton, String.join_cons]
    simp
  all_goals simp

theorem not_mem_written_text (content : List Char) : '<' ∉ (Item.text content).written.toList := by
  rw [written, event]
  cases decode content with
  | error fault => exact List.not_mem_nil
  | ok decoded =>
    show '<' ∉ (escapedText (String.ofList decoded)).toList
    rw [escapedText, String.toList_ofList, String.toList_ofList]
    exact fun h => ne_of_mem_escapedText h rfl

end Item

theorem rewritten_cons (h : ∀ name, items.head? ≠ some (.finish name)) :
    rewritten (item :: items) = item.written ++ rewritten items := by
  rw [rewritten]
  rintro content name rest rfl rfl
  exact h name rfl

theorem rewritten_leaf {v : Value} (h : item.event = .ok (.leaf v)) (items : List Item) :
    rewritten (item :: items) = write (.node 0 v []) ++ rewritten items := by
  rw [rewritten, Item.written_of_event h, Event.written]
  rintro content name rest rfl -
  obtain ⟨e, -, heq⟩ := exists_of_map_eq_ok h
  cases heq

/-- **What is written for trees is what is written for the items that spell them.** -/
theorem rewritten_append (h : Spells items ts) (more : List Item) :
    rewritten (items ++ more) = writeAll ts ++ rewritten more := by
  induction h generalizing more with
  | nil => rw [List.nil_append, writeAll, String.empty_append]
  | leaf hevent _ ih =>
    rw [List.cons_append, rewritten_leaf hevent, ih, writeAll, String.append_assoc]
  | @element content name e inner items below ts hstart hinner hname _ ihinner ih =>
    have hshape : .start content :: (inner ++ .finish name :: items) ++ more =
        .start content :: (inner ++ .finish name :: (items ++ more)) := by
      rw [List.cons_append, List.append_assoc, List.cons_append]
    rw [hshape, writeAll, write]
    cases inner with
    | nil =>
      obtain rfl := hinner.eq_nil_iff.mpr rfl
      rw [List.nil_append, rewritten, Item.written_empty hstart, ih, if_pos List.isEmpty_nil,
        ← String.append_assoc]
    | cons first inner =>
      have hbelow : ¬ below.isEmpty := by
        rw [List.isEmpty_iff, hinner.eq_nil_iff]
        exact List.cons_ne_nil first inner
      have hfirst : ∀ name', (first :: inner ++ .finish name :: (items ++ more)).head? ≠
          some (.finish name') := by
        intro name' heq
        exact hinner.ne_finish name' (Option.some.inj heq)
      have hend : rewritten (.finish name :: (items ++ more)) =
          "</" ++ e.name.base ++ ">" ++ rewritten (items ++ more) := by
        rw [rewritten, Item.written_finish, hname]
        rintro content name items ⟨⟩
      rw [rewritten_cons hfirst, ihinner, hend, ih, Item.written_start hstart, if_neg hbelow]
      simp only [String.append_assoc]

theorem writeAll_relabelAll (ts : List Tree) (n : NodeId) :
    writeAll (Tree.relabelAll ts n).1 = writeAll ts := by
  rw [← Component.xml_writeAll_renumberAll (fun _ => 0) (Tree.relabelAll ts n).1,
    Tree.bareAll_relabelAll, Component.xml_writeAll_renumberAll]

theorem write_document_of_spells (h : Spells items ts) :
    write (Forest.ofTrees ts).document = rewritten items := by
  have hitems := rewritten_append h []
  rw [List.append_nil, rewritten, String.append_empty] at hitems
  rw [Forest.document_ofTrees, write, writeAll_relabelAll, hitems]

/-! ## Reading written items -/

/-- The text is read as the items, whatever stands behind it. -/
def ReadsAs (text : List Char) (items : List Item) : Prop :=
  ∀ position rest, ∃ behind,
    itemsFrom position (text ++ rest) = (itemsFrom behind rest).map (items ++ ·)

namespace ReadsAs

theorem nil : ReadsAs [] [] := by
  intro position rest
  refine ⟨position, ?_⟩
  rw [List.nil_append]
  cases itemsFrom position rest <;> rfl

theorem append (h : ReadsAs text items) (h' : ReadsAs cs more) :
    ReadsAs (text ++ cs) (items ++ more) := by
  intro position rest
  obtain ⟨middle, hitems⟩ := h position (cs ++ rest)
  obtain ⟨behind, hmore⟩ := h' middle rest
  refine ⟨behind, ?_⟩
  rw [List.append_assoc, hitems, hmore]
  cases itemsFrom behind rest with
  | error fault => rfl
  | ok later =>
    simp only [Except.map, List.append_assoc]

theorem of_next (hnext : ∀ position rest, Item.next position c (cs ++ rest) = .ok (item, rest)) :
    ReadsAs (c :: cs) [item] := fun position rest =>
  ⟨_, itemsFrom_cons (hnext position rest)⟩

theorem of_comment (h : occursIn ['-', '-', '>'] content = false) :
    ReadsAs ("<!--" ++ String.ofList content ++ "-->").toList [.comment content] := by
  have htext : ("<!--" ++ String.ofList content ++ "-->").toList =
      '<' :: '!' :: '-' :: '-' :: (content ++ ['-', '-', '>']) := by
    simp [String.toList_append]
  rw [htext]
  refine of_next fun position rest => ?_
  simpa using Item.next_comment position h rest

theorem of_section (h : occursIn [']', ']', '>'] content = false) :
    ReadsAs ("<![CDATA[" ++ String.ofList content ++ "]]>").toList [.section content] := by
  have htext : ("<![CDATA[" ++ String.ofList content ++ "]]>").toList =
      '<' :: '!' :: '[' :: 'C' :: 'D' :: 'A' :: 'T' :: 'A' :: '[' :: (content ++ [']', ']', '>']) := by
    simp [String.toList_append]
  rw [htext]
  refine of_next fun position rest => ?_
  simpa using Item.next_section position h rest

theorem of_sections {pieces : List (List Char)}
    (h : ∀ piece ∈ pieces, occursIn [']', ']', '>'] piece = false) :
    ReadsAs (String.join (pieces.map fun piece =>
      "<![CDATA[" ++ String.ofList piece ++ "]]>")).toList (pieces.map .section) := by
  induction pieces with
  | nil => exact nil
  | cons piece pieces ih =>
    obtain ⟨hpiece, hpieces⟩ := List.forall_mem_cons.mp h
    rw [List.map_cons, String.join_cons, String.toList_append]
    exact (of_section hpiece).append (ih hpieces)

end ReadsAs

/-! ## Tags -/

/-- The text does not open a comment or a section. -/
def OpensNeither (text : List Char) : Prop :=
  ¬ ['<', '!', '-'] <+: text ∧ ¬ ['<', '!', '['] <+: text

theorem opensNeither_of_head? (h : cs.head? ≠ some '!') : OpensNeither ('<' :: cs) := by
  cases cs with
  | nil => exact ⟨by decide, by decide⟩
  | cons d cs =>
    have hd : '!' ≠ d := fun heq => h (congrArg some heq.symm)
    simp [OpensNeither, List.cons_prefix_cons, hd]

/-- A tag that does not begin with an exclamation mark is not written with one. -/
theorem head?_tagText (h : element content = .ok e) (hcontent : content.head? ≠ some '!') :
    (tagText e).head? ≠ some '!' := by
  obtain ⟨attributes, -, rfl⟩ := exists_of_map_eq_ok h
  rw [tagText, Markup.QName.plain, String.toList_ofList]
  cases hname : content.takeWhile (!isXmlBlank ·) with
  | nil =>
    cases attributes with
    | nil => simp
    | cons a attributes => simp [attributeText]
  | cons d name =>
    have hd : content.head? = some d := by
      have hhead := congrArg List.head? hname
      rw [List.head?_takeWhile, List.head?_cons, Option.filter_eq_some_iff] at hhead
      exact hhead.1
    rw [hd] at hcontent
    exact hcontent

theorem opensNeither_openingText (h : element content = .ok e)
    (hcontent : content.head? ≠ some '!') {tail : String} (htail : tail.toList.head? ≠ some '!') :
    OpensNeither (openingText e ++ tail).toList := by
  rw [String.toList_append, toList_openingText, List.cons_append]
  refine opensNeither_of_head? ?_
  have htag := head?_tagText h hcontent
  cases heq : tagText e with
  | nil => exact htail
  | cons d more =>
    rw [heq] at htag
    exact htag

/-! ## Kinds -/

/-- What cutting sees to: the content of a comment or a section does not hold its terminator, and a
tag does not begin with an exclamation mark. -/
def Item.Closed : Item → Prop
  | .comment content => occursIn ['-', '-', '>'] content = false
  | .section content => occursIn [']', ']', '>'] content = false
  | .start content => content.head? ≠ some '!'
  | .empty content => content.head? ≠ some '!'
  | _ => True

theorem occursIn_of_bind_splitFirst? {stem needle : List Char} (hne : needle ≠ [])
    (h : (dropStem? stem cs).bind (splitFirst? needle) = some (content, rest)) :
    occursIn needle content = false := by
  obtain ⟨inside, -, hsplit⟩ := Option.bind_eq_some_iff.mp h
  exact occursIn_of_splitFirst? hne hsplit

namespace Item

theorem closed_nextDoctype (h : nextDoctype position cs = .ok (item, rest)) : item.Closed := by
  rw [nextDoctype] at h
  split at h
  · cases h
  · split at h
    · cases h
    · dsimp only at h
      split at h
      · cases h
      · obtain ⟨rfl, -⟩ := Prod.mk.inj (Except.ok.inj h)
        trivial

theorem closed_nextDeclaration (h : nextDeclaration position cs = .ok (item, rest)) :
    item.Closed := by
  unfold nextDeclaration at h
  split at h
  · rw [nextSection] at h
    split at h
    · next hsplit =>
      obtain ⟨rfl, -⟩ := Prod.mk.inj (Except.ok.inj h)
      exact occursIn_of_bind_splitFirst? (List.cons_ne_nil _ _) hsplit
    · cases h
  · rw [nextComment] at h
    split at h
    · next hsplit =>
      obtain ⟨rfl, -⟩ := Prod.mk.inj (Except.ok.inj h)
      exact occursIn_of_bind_splitFirst? (List.cons_ne_nil _ _) hsplit
    · cases h
  · exact closed_nextDoctype h
  · exact closed_nextDoctype h
  · cases h

theorem closed_nextStart (hcs : cs.head? ≠ some '!')
    (h : nextStart position cs = .ok (item, rest)) : item.Closed := by
  rw [nextStart] at h
  split at h
  · cases h
  · next content rest hsplit =>
    have hbegin : ∀ inner : List Char, inner <+: content → inner.head? ≠ some '!' := by
      rintro inner ⟨tail, rfl⟩ hhead
      rw [eq_append_of_splitTag? hsplit, List.append_assoc, List.head?_append, hhead] at hcs
      exact hcs rfl
    split at h
    · next inner hslash =>
      obtain ⟨rfl, -⟩ := Prod.mk.inj (Except.ok.inj h)
      exact hbegin inner ⟨['/'], (dropTail?_eq_some_iff.mp hslash).symm⟩
    · obtain ⟨rfl, -⟩ := Prod.mk.inj (Except.ok.inj h)
      exact hbegin content List.prefix_rfl

theorem closed_nextMarkup (h : nextMarkup position cs = .ok (item, rest)) : item.Closed := by
  unfold nextMarkup at h
  split at h
  · exact closed_nextDeclaration h
  · rw [nextInstruction] at h
    split at h
    · cases h
    · split at h
      · obtain ⟨rfl, -⟩ := Prod.mk.inj (Except.ok.inj h)
        trivial
      · cases h
  · rw [nextEnd] at h
    split at h
    · cases h
    · obtain ⟨rfl, -⟩ := Prod.mk.inj (Except.ok.inj h)
      trivial
  · next hmark _ _ =>
    refine closed_nextStart ?_ h
    intro hhead
    obtain ⟨more, rfl⟩ := List.head?_eq_some_iff.mp hhead
    exact hmark more rfl

theorem closed_next (h : next position c cs = .ok (item, rest)) : item.Closed := by
  rw [next] at h
  split at h
  · exact closed_nextMarkup h
  · obtain ⟨rfl, -⟩ := Prod.mk.inj (Except.ok.inj h)
    trivial

/-- What is written for an item is of the kind of the item. A comment is written as it is and read
as the same comment, unless it stands for a section: then it is read as that section, cut where it
holds the terminator. A section is written as it is and read as the same section, a text is written
without markup, and nothing else is written as a comment or a section. -/
def Kept : Item → Prop
  | .comment content =>
    match cdataContent? (String.ofList content) with
    | none => (Item.comment content).written = "<!--" ++ String.ofList content ++ "-->" ∧
        ReadsAs (Item.comment content).written.toList [.comment content]
    | some inside => ReadsAs (Item.comment content).written.toList
        ((cdataSections inside.toList).map .section)
  | .section content =>
    (Item.section content).written = "<![CDATA[" ++ String.ofList content ++ "]]>" ∧
      ReadsAs (Item.section content).written.toList [.section content]
  | .text content => '<' ∉ (Item.text content).written.toList
  | item => OpensNeither item.written.toList

theorem kept_of_closed {event : Event} (h : item.Closed) (hevent : item.event = .ok event) :
    item.Kept := by
  cases item with
  | comment content =>
    cases hc : cdataContent? (String.ofList content) with
    | none =>
      simp only [Kept, hc, written_comment hc]
      exact ⟨trivial, .of_comment h⟩
    | some inside =>
      simp only [Kept, hc, written_comment_of_some hc]
      exact .of_sections (occursIn_of_mem_cdataSections inside.toList)
  | «section» content =>
    simp only [Kept, written_section h]
    exact ⟨trivial, .of_section h⟩
  | text content => exact not_mem_written_text content
  | start content =>
    obtain ⟨e, he, -⟩ := exists_of_map_eq_ok hevent
    show OpensNeither (Item.start content).written.toList
    rw [written_start he]
    exact opensNeither_openingText he h (by decide)
  | empty content =>
    obtain ⟨e, he, -⟩ := exists_of_map_eq_ok hevent
    show OpensNeither (Item.empty content).written.toList
    rw [written_empty he]
    exact opensNeither_openingText he h (by decide)
  | finish name =>
    show OpensNeither (Item.finish name).written.toList
    rw [written_finish]
    simp [OpensNeither, String.toList_append]
  | instruction content =>
    show OpensNeither (leafText (instructionValue content)).toList
    rw [instructionValue, toList_leafText_instruction]
    exact opensNeither_of_head? (by simp)
  | doctype content =>
    show OpensNeither (leafText (.doctype (String.ofList (trim content)) "" "")).toList
    simp [OpensNeither, leafText, String.toList_append]

end Item

/-- **An unchanged document is written item by item, and each comment, section and text keeps its
kind**, but for the comments that stand for sections. -/
theorem write_of_read {source : String} {d : Document} (h : Document.read source .xml = .ok d) :
    ∃ items, itemsOf source = .ok items ∧ d.write = rewritten items ∧
      ∀ item ∈ items, item.Kept := by
  obtain ⟨f, hread, rfl⟩ := exists_of_map_eq_ok h
  obtain ⟨items, ts, hitems, hspells, rfl⟩ := exists_spells_of_read hread
  refine ⟨items, hitems, write_document_of_spells hspells, ?_⟩
  intro item hitem
  have hclosed : item.Closed :=
    forall_mem_of_itemsFrom (fun _ _ _ _ _ hnext => Item.closed_next hnext) hitems item hitem
  obtain ⟨event, hevent⟩ := hspells.exists_event item hitem
  exact Item.kept_of_closed hclosed hevent

/-- A template with a comment, a section and a text that hold markup characters. -/
theorem write_of_read_note :
    ∃ d, Document.read "<a><!-- <b> --><![CDATA[1 < 2]]>3 &gt; 2<b></b></a>" .xml = .ok d ∧
      ∃ items, itemsOf "<a><!-- <b> --><![CDATA[1 < 2]]>3 &gt; 2<b></b></a>" = .ok items ∧
        Item.comment " <b> ".toList ∈ items ∧ Item.section "1 < 2".toList ∈ items ∧
        d.write = rewritten items ∧ (∀ item ∈ items, item.Kept) ∧
        d.write = "<a><!-- <b> --><![CDATA[1 < 2]]>3 &gt; 2<b/></a>" := by
  have hitems : itemsOf "<a><!-- <b> --><![CDATA[1 < 2]]>3 &gt; 2<b></b></a>" =
      .ok [.start ['a'], .comment " <b> ".toList, .section "1 < 2".toList,
        .text "3 &gt; 2".toList, .start ['b'], .finish ['b'], .finish ['a']] := by
    decide +kernel
  have hwrite : (Document.read "<a><!-- <b> --><![CDATA[1 < 2]]>3 &gt; 2<b></b></a>" .xml).map
      Document.write = .ok "<a><!-- <b> --><![CDATA[1 < 2]]>3 &gt; 2<b/></a>" := by
    decide +kernel
  obtain ⟨d, hread, hd⟩ := exists_of_map_eq_ok hwrite
  obtain ⟨items, hfound, hwritten, hkept⟩ := write_of_read hread
  obtain rfl := Except.ok.inj (hitems.symm.trans hfound)
  exact ⟨d, hread, _, hitems, by simp, by simp, hwritten, hkept, hd⟩

/-- A comment that looks like a section is written as one. -/
theorem comment_written_as_section :
    ∃ d, Document.read "<a><!--[CDATA[x]]--></a>" .xml = .ok d ∧
      itemsOf "<a><!--[CDATA[x]]--></a>" =
        .ok [.start ['a'], .comment "[CDATA[x]]".toList, .finish ['a']] ∧
      d.write = "<a><![CDATA[x]]></a>" ∧
      itemsOf d.write = .ok [.start ['a'], .section ['x'], .finish ['a']] := by
  have hitems : itemsOf "<a><!--[CDATA[x]]--></a>" =
      .ok [.start ['a'], .comment "[CDATA[x]]".toList, .finish ['a']] := by
    decide +kernel
  have hwrite : (Document.read "<a><!--[CDATA[x]]--></a>" .xml).map Document.write =
      .ok "<a><![CDATA[x]]></a>" := by
    decide +kernel
  obtain ⟨d, hread, hd⟩ := exists_of_map_eq_ok hwrite
  refine ⟨d, hread, hitems, hd, ?_⟩
  rw [hd]
  decide +kernel

end Stencil.Xml

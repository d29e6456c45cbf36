import Stencil.Component.Binding
import Stencil.Proofs.Html.Slot
import Stencil.Proofs.Lineage
import Stencil.Proofs.Markup.Values
import Stencil.Proofs.StartTag
import Stencil.Script.Expansion

/-!
# Elements that hold nothing

Whether an element holds nothing is decided twice. A document goes by the name alone, in lower case
(`Document.isVoid`). The writer goes by the name of an HTML element, and its list has three names
more (`Html.isVoid`); it shows neither an end tag nor an element below such a one (`shut_iff`). So
the two differ on elements of drawings and formulas that are called like void ones, which can hold
something but are never filled, and on the three names (`isVoid_exact`).

Texts are not concerned by this: the writer shows every text below an element, in a void one behind
its tag (`contains_writeAll_text`).
-/

namespace Stencil.Html
open Markup Markup.Tree

variable {e : Element} {v : Value} {ts cs : List Tree} {around : Surroundings} {i k : NodeId}
  {text : String}

/-! ## What is hidden -/

/-- The writer shows neither an element below this one nor an end tag: while there are only elements
below it, its start tag is all that is written. -/
def Shut (e : Element) : Prop :=
  ∀ i children, AllValues (·.isElement) children →
    write .outermost (.node i (.element e) children) = startTagText e

/-- Nothing is written for hidden elements. -/
theorem writeAll_hidden (h : AllValues (·.isElement) ts) (escaped : Bool) :
    writeAll ⟨escaped, true⟩ ts = "" := by
  induction ts using listInduction generalizing escaped with
  | nil => rfl
  | cons i v cs ts ihc iht =>
    obtain ⟨hv, hcs, hts⟩ := (allValues_cons_node i v cs ts).mp h
    cases v with
    | element e => rw [writeAll, write, if_pos rfl, ihc hcs, iht hts, String.append_empty]
    | document | fragment | doctype | comment | text | instruction => cases hv

theorem shut_iff : Shut e ↔ isVoid e.name := by
  have houtermost : ¬ Surroundings.outermost.hidden := Bool.false_ne_true
  constructor
  · intro h
    by_contra hvoid
    have hempty := h 0 [] allValues_nil
    rw [write, if_neg houtermost, if_neg hvoid, writeAll, String.append_empty] at hempty
    have hlength := congrArg String.length hempty
    rw [String.length_append, endTagText] at hlength
    simp at hlength
  · intro hvoid i children h
    rw [write, if_neg houtermost, if_pos hvoid, writeAll_hidden h, String.append_empty]

/-! ## What is shown -/

/-- A text as it is written in an element. -/
def shownText (q : QName) (text : String) : String := if isRaw q then text else escapeText text

/-- Whether the writer goes on to what is below such a node. -/
def isOpen : Value → Bool
  | .text _ | .comment _ | .doctype _ _ _ => false
  | .document | .fragment | .element _ | .instruction _ _ => true

/-- What is below an element is written between two texts of its own, and its texts are escaped or
not by its name. -/
theorem exists_write_element (e : Element) (around : Surroundings) :
    ∃ before behind hidden, ∀ i children, write around (.node i (.element e) children) =
      before ++ writeAll ⟨!isRaw e.name, hidden⟩ children ++ behind := by
  by_cases haround : around.hidden
  · refine ⟨"", "", true, fun i children => ?_⟩
    rw [write, if_pos haround, String.empty_append, String.append_empty]
  · by_cases hvoid : isVoid e.name
    · refine ⟨startTagText e, "", true, fun i children => ?_⟩
      rw [write, if_neg haround, if_pos hvoid, String.append_empty]
    · refine ⟨startTagText e, endTagText e, false, fun i children => ?_⟩
      rw [write, if_neg haround, if_neg hvoid]

theorem exists_write_open (hv : isOpen v) (around : Surroundings) :
    ∃ before behind around', ∀ i children,
      write around (.node i v children) = before ++ writeAll around' children ++ behind := by
  cases v with
  | element e =>
    obtain ⟨before, behind, hidden, h⟩ := exists_write_element e around
    exact ⟨before, behind, _, h⟩
  | document | fragment | instruction =>
    refine ⟨"", "", around, fun i children => ?_⟩
    rw [write, String.empty_append, String.append_empty]
  | text | comment | doctype => cases hv

theorem contains_writeAll_of_mem {t : Tree} (h : t ∈ ts) (around : Surroundings) :
    Text.contains (writeAll around ts) (write around t) := by
  induction ts with
  | nil => cases h
  | cons u ts ih =>
    rw [writeAll]
    rcases List.mem_cons.mp h with rfl | hrest
    · exact Text.contains_append_right (Text.contains_self _) _
    · exact Text.contains_append_left (ih hrest) _

/-- **The writer shows every text of an element**, whether it is void or not, if what is in the tree
is below nodes that can hold something. -/
theorem contains_writeAll_text {below : List Tree}
    (hopen : ∀ t ∈ preorderAll ts, t.children ≠ [] → isOpen t.value)
    (h : .node i (.element e) cs ∈ preorderAll ts) (htext : .node k (.text text) below ∈ cs)
    (around : Surroundings) : Text.contains (writeAll around ts) (shownText e.name text) := by
  induction ts using listInduction generalizing around with
  | nil => cases h
  | cons j v ds us ihd ihu =>
    rw [preorderAll_cons, preorder_node, List.cons_append, List.forall_mem_cons,
      List.forall_mem_append] at hopen
    obtain ⟨hv, hds, hus⟩ := hopen
    rw [preorderAll_cons, preorder_node, List.cons_append, List.mem_cons, List.mem_append] at h
    rw [writeAll]
    rcases h with hself | hin | hbehind
    · obtain ⟨rfl, rfl, rfl⟩ := Tree.node.inj hself
      obtain ⟨before, behind, hidden, hwrite⟩ := exists_write_element e around
      have hshown : write ⟨!isRaw e.name, hidden⟩ (.node k (.text text) below) =
          shownText e.name text := by
        rw [write, shownText]
        cases isRaw e.name <;> rfl
      rw [hwrite, ← hshown]
      exact Text.contains_append_right (Text.contains_append_right
        (Text.contains_append_left (contains_writeAll_of_mem htext _) _) _) _
    · have hne : ds ≠ [] := by
        rintro rfl
        cases hin
      have hv : isOpen v := hv hne
      obtain ⟨before, behind, around', hwrite⟩ := exists_write_open hv around
      rw [hwrite]
      exact Text.contains_append_right (Text.contains_append_right
        (Text.contains_append_left (ihd hds hin around') _) _) _
    · exact Text.contains_append_left (ihu hus hbehind around) _

end Stencil.Html

namespace Stencil.Document
open Markup Markup.Tree Html

variable {d : Document} {i : NodeId} {e : Element}

/-! ## The two lists -/

/-- The names that the writer takes for void and a document does not. -/
def voidInWritingOnly : List String := ["basefont", "bgsound", "frame"]

theorem mem_voidNames_iff (name : String) : name ∈ Html.voidNames ↔
    name ∈ voidNames ∨ name ∈ voidInWritingOnly := by
  have hperm : Html.voidNames.Perm (voidNames ++ voidInWritingOnly) := by decide +kernel
  exact hperm.mem_iff.trans List.mem_append

theorem lowerLetters_of_mem (name : String) (h : name ∈ Html.voidNames) :
    Text.lowerLetters name = name := by
  have hall : ∀ name ∈ Html.voidNames, Text.lowerLetters name = name := by decide +kernel
  exact hall name h

theorem isVoid_iff (hmode : d.mode = .html) (he : d.element? i = some e) :
    d.isVoid i ↔ Text.lowerLetters e.name.base ∈ voidNames := by
  rw [isVoid, value?_of_element? he, Option.any_some, isVoidValue, hmode]
  simp [Value.element?]

theorem isVoid_name_iff (q : QName) : Html.isVoid q ↔ q.space = .html ∧ q.base ∈ Html.voidNames := by
  rw [Html.isVoid, Bool.and_eq_true, beq_iff_eq, List.contains_iff_mem]

/-- The elements that only the document takes for void: those called like a void HTML element that
are none. -/
theorem void_in_document_iff (hmode : d.mode = .html) (he : d.element? i = some e) :
    d.isVoid i ∧ ¬ Html.isVoid e.name ↔ Text.lowerLetters e.name.base ∈ voidNames ∧
      (e.name.space ≠ .html ∨ Text.lowerLetters e.name.base ≠ e.name.base) := by
  rw [isVoid_iff hmode he, isVoid_name_iff]
  refine and_congr_right fun hlower => ?_
  rw [not_and_or]
  refine or_congr_right ⟨fun hnot heq => ?_, fun hne hmem => hne (lowerLetters_of_mem _ hmem)⟩
  rw [heq] at hlower
  exact hnot ((mem_voidNames_iff _).mpr (.inl hlower))

/-- The elements that only the writer takes for void. -/
theorem void_in_writing_iff (hmode : d.mode = .html) (he : d.element? i = some e) :
    ¬ d.isVoid i ∧ Html.isVoid e.name ↔
      e.name.space = .html ∧ e.name.base ∈ voidInWritingOnly := by
  rw [isVoid_iff hmode he, isVoid_name_iff]
  constructor
  · rintro ⟨hnot, hspace, hmem⟩
    rw [lowerLetters_of_mem _ hmem] at hnot
    exact ⟨hspace, ((mem_voidNames_iff _).mp hmem).resolve_left hnot⟩
  · rintro ⟨hspace, hmem⟩
    have hwritten := (mem_voidNames_iff _).mpr (.inr hmem)
    have hapart : ∀ name ∈ voidInWritingOnly, name ∉ voidNames := by decide
    rw [lowerLetters_of_mem _ hwritten]
    exact ⟨hapart _ hmem, hspace, hwritten⟩

/-- An element with a text in the place of its children is written with the text, and with an end tag
unless the writer takes it for void. -/
theorem writeNode_setText (hmode : d.mode = .html) (he : d.element? i = some e) (text : String) :
    (d.setText i text).writeNode i = startTagText e ++ shownText e.name text ++
      if Html.isVoid e.name then "" else endTagText e := by
  have hmode' : (d.setText i text).mode = .html := hmode
  rw [setText] at hmode' ⊢
  rw [writeNode, find?_replaceChildren_element he, hmode', shownText]
  cases hvoid : Html.isVoid e.name <;> cases hraw : Html.isRaw e.name <;>
    simp [Html.write, Html.writeAll, Surroundings.outermost, Value.isElement, Value.element?, hvoid,
      hraw]

theorem contains_writeNode_setText (hmode : d.mode = .html) (he : d.element? i = some e)
    (text : String) : Text.contains ((d.setText i text).writeNode i) (shownText e.name text) := by
  rw [writeNode_setText hmode he]
  exact Text.contains_append_right (Text.contains_append_left (Text.contains_self _) _) _

/-! ## Filling -/

/-- The element at a node is filled: a text that an action or a field of a record has for it is
shown. -/
structure Fills (d : Document) (i : NodeId) (e : Element) (text : String) : Prop where
  action : Text.contains ((Script.applyAction .content text d i).writeNode i)
    (shownText e.name text)
  field : ∀ tag name, Text.contains ((Component.bindField false tag i d (name, text)).writeNode i)
    (shownText e.name text)

/-- The element at a node is passed over: it keeps what is below it. -/
structure PassedOver (d : Document) (i : NodeId) (text : String) : Prop where
  action : Script.applyAction .content text d i = d
  field : ∀ cdata tag name,
    (Component.bindField cdata tag i d (name, text)).forest.children i = d.forest.children i

/-- Setting an attribute does not change what an element is. -/
theorem exists_element_setAttribute (he : d.element? i = some e) (name text : String) :
    ∃ e', (d.setAttribute i name text).element? i = some e' ∧ e'.name = e.name :=
  ⟨_, (writeNode_setAttribute he rfl).1, rfl⟩

theorem isVoid_setAttribute (hmode : d.mode = .html) (he : d.element? i = some e)
    (name text : String) : (d.setAttribute i name text).isVoid i ↔ d.isVoid i := by
  obtain ⟨e', he', hname⟩ := exists_element_setAttribute he name text
  have hmode' : (d.setAttribute i name text).mode = .html := hmode
  rw [isVoid_iff hmode' he', hname, isVoid_iff hmode he]

/-- What a document does not take for void is filled. -/
theorem fills_of_not_isVoid (hmode : d.mode = .html) (he : d.element? i = some e)
    (hvoid : ¬ d.isVoid i) (text : String) : Fills d i e text where
  action := by
    rw [Script.applyAction, if_neg hvoid]
    exact contains_writeNode_setText hmode he text
  field tag name := by
    rw [Component.bindField]
    cases hlink : Component.linkAttribute? tag name with
    | none =>
      dsimp only
      rw [if_neg hvoid]
      exact contains_writeNode_setText hmode he text
    | some target =>
      obtain ⟨e', he', hname⟩ := exists_element_setAttribute he target text
      have hmode' : (d.setAttribute i target text).mode = .html := hmode
      dsimp only
      rw [if_neg (hvoid ∘ (isVoid_setAttribute hmode he target text).mp), ← hname]
      exact contains_writeNode_setText hmode' he' text

/-- What a document takes for void is passed over. -/
theorem passedOver_of_isVoid (hmode : d.mode = .html) (he : d.element? i = some e)
    (hvoid : d.isVoid i) (text : String) : PassedOver d i text where
  action := by
    rw [Script.applyAction, if_pos hvoid]
  field cdata tag name := by
    rw [Component.bindField]
    cases hlink : Component.linkAttribute? tag name with
    | none =>
      dsimp only
      rw [if_pos hvoid]
    | some target =>
      dsimp only
      rw [if_pos ((isVoid_setAttribute hmode he target text).mpr hvoid)]
      exact Forest.children_setValue d.forest i _ i

/-- Every text below an element of the document is in the written document. -/
theorem contains_write_text {k : NodeId} {text : String} (hmode : d.mode = .html)
    (he : d.element? i = some e) (hk : k ∈ d.forest.children i)
    (hvalue : d.forest.value? k = some (.text text)) (hin : i ∈ d.descendants d.root)
    (hopen : ∀ t ∈ d.forest.document.preorder, t.children ≠ [] → isOpen t.value) :
    Text.contains d.write (shownText e.name text) := by
  have hroot : d.forest.find? d.root = some d.forest.document := d.forest.find?_root
  have hids : i ∈ d.forest.document.ids := by
    rw [descendants_eq hroot] at hin
    exact mem_ids_of_mem_children hin
  obtain ⟨⟨j, v, cs⟩, hu⟩ := exists_find?_of_mem hids
  obtain ⟨hmem, rfl⟩ := mem_of_find? hu
  have hfind : d.forest.find? j = some (.node j v cs) := Forest.find?_of_mem_preorder hroot hmem
  obtain ⟨⟨l, w, below⟩, hw, rfl⟩ := List.mem_map.mp (Forest.children_eq hfind ▸ hk)
  have hfind' : d.forest.find? l = some (.node l w below) :=
    Forest.find?_of_mem_preorder hfind (mem_preorder_of_mem_children hw)
  -- The values at the two nodes are those of the trees that have been found there.
  have helement := value?_of_element? he
  rw [id_node, Forest.value?, hfind] at helement
  obtain rfl : v = .element e := Option.some.inj helement
  rw [id_node, Forest.value?, hfind'] at hvalue
  obtain rfl : w = .text text := Option.some.inj hvalue
  rw [write, hmode]
  have hshown : Text.contains (writeAll .outermost [d.forest.document]) (shownText e.name text) :=
    contains_writeAll_text (by simpa using hopen) (by simpa using hmem) hw _
  rwa [writeAll, writeAll, String.append_empty] at hshown

/-- **Void elements.** A document takes an element for void that can show something exactly if the
element is called like a void HTML element and is none; it does not take an element for void that
cannot, exactly if its name is one of three. A text that is put into an element is shown, also where
the element cannot show an element, and so is every text below an element of the document. So what
an action or a record has for an element is shown if the document does not take it for void, and
otherwise the element keeps what it has. -/
theorem isVoid_exact (hmode : d.mode = .html) (he : d.element? i = some e) :
    (d.isVoid i ∧ ¬ Shut e ↔ Text.lowerLetters e.name.base ∈ voidNames ∧
      (e.name.space ≠ .html ∨ Text.lowerLetters e.name.base ≠ e.name.base)) ∧
      (¬ d.isVoid i ∧ Shut e ↔ e.name.space = .html ∧ e.name.base ∈ voidInWritingOnly) ∧
      (∀ text, (d.setText i text).writeNode i = startTagText e ++ shownText e.name text ++
        if Html.isVoid e.name then "" else endTagText e) ∧
      (¬ d.isVoid i → ∀ text, Fills d i e text) ∧ (d.isVoid i → ∀ text, PassedOver d i text) ∧
      ∀ k text, k ∈ d.forest.children i → d.forest.value? k = some (.text text) →
        i ∈ d.descendants d.root →
        (∀ t ∈ d.forest.document.preorder, t.children ≠ [] → isOpen t.value) →
        Text.contains d.write (shownText e.name text) := by
  refine ⟨?_, ?_, writeNode_setText hmode he, fills_of_not_isVoid hmode he,
    passedOver_of_isVoid hmode he, ?_⟩
  · rw [shut_iff]
    exact void_in_document_iff hmode he
  · rw [shut_iff]
    exact void_in_writing_iff hmode he
  · intro k text hk hvalue hin hopen
    exact contains_write_text hmode he hk hvalue hin hopen

/-- A paragraph, whose text can be changed, and which is void for neither. -/
theorem isVoid_exact_paragraph :
    ∃ d e, read "<p>x</p>" .html = .ok d ∧ d.mode = .html ∧ d.element? 4 = some e ∧
      ¬ (d.isVoid 4 ∧ ¬ Shut e) ∧ ¬ (¬ d.isVoid 4 ∧ Shut e) ∧
      (d.setText 4 "A & B").writeNode 4 = "<p>A &amp; B</p>" ∧
      Text.contains d.write "x" := by
  have he : (Document.mk .html (Html.read "<p>x</p>")).element? 4 = some ⟨.html "p", []⟩ := by
    decide +kernel
  obtain ⟨hdocument, hwriting, hset, -, -, hshown⟩ := isVoid_exact rfl he
  refine ⟨_, _, rfl, rfl, he, ?_, ?_, (hset "A & B").trans (by decide +kernel),
    hshown 5 "x" (by decide +kernel) (by decide +kernel) (by decide +kernel) (by decide +kernel)⟩
  · rw [hdocument]
    decide +kernel
  · rw [hwriting]
    decide

/-- A link inside a drawing can show a text, but keeps its own: it is taken for void because it is
called like one. -/
theorem isVoid_drawing :
    ∃ d e, read "<svg><link data-v-item-name>x</link></svg>" .html = .ok d ∧
      d.element? 5 = some e ∧ d.isVoid 5 ∧ ¬ Shut e ∧
      (d.setText 5 "A").writeNode 5 = "<link data-v-item-name=\"\">A</link>" ∧
      (Component.bindRecord "data-v-item-" [("name", .string "A")] d 4).writeNode 5 =
        "<link data-v-item-name=\"\">x</link>" := by
  have hvalues : let d : Document := ⟨.html, Html.read "<svg><link data-v-item-name>x</link></svg>"⟩
      d.element? 5 = some ⟨⟨.svg, none, "link"⟩, [⟨.plain "data-v-item-name", ""⟩]⟩ ∧
      d.isVoid 5 ∧ (d.setText 5 "A").writeNode 5 = "<link data-v-item-name=\"\">A</link>" ∧
      (Component.bindRecord "data-v-item-" [("name", .string "A")] d 4).writeNode 5 =
        "<link data-v-item-name=\"\">x</link>" := by
    decide +kernel
  obtain ⟨he, hvoid, hset, hbound⟩ := hvalues
  refine ⟨_, _, rfl, he, hvoid, ?_, hset, hbound⟩
  rw [shut_iff]
  decide

end Stencil.Document

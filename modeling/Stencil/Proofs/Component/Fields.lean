import Mathlib.Data.List.Induction
import Stencil.Proofs.Attributes
import Stencil.Proofs.Component.Binding
import Stencil.Proofs.Filling

/-!
# What becomes of the fields of a record

An element may name several fields, and binding puts all of them in, one over the other. The last
one is what is seen (`snd_recordEdit`): it is the content of the element, unless the element is void.
A link or an image gets the last of its fields that look like an address as the value of the one
attribute that makes the link (`bound_fst_recordEdit`); no other attribute changes. Over a whole
tree the elements to which a record gives content are filled, whatever they held
(`refilled_bindRecord`).
-/

namespace Stencil.Component
open Markup Document

variable {mode : Mode} {cdata : Bool} {tag field field' target target' text fieldStem : String}
  {record : Record} {v : Value} {e : Element} {d : Document} {top : NodeId}

/-! ## One field -/

/-- Only links and images have an attribute for addresses, and each has one. -/
theorem linkAttribute?_eq_some (h : linkAttribute? tag field = some target) :
    tag = "a" ∧ target = "href" ∨ tag = "img" ∧ target = "src" := by
  rw [linkAttribute?] at h
  split at h
  · next hlink =>
    rw [Bool.and_eq_true, beq_iff_eq] at hlink
    exact .inl ⟨hlink.1, (Option.some.inj h).symm⟩
  · split at h
    · next himage =>
      rw [Bool.and_eq_true, beq_iff_eq] at himage
      exact .inr ⟨himage.1, (Option.some.inj h).symm⟩
    · cases h

theorem linkAttribute?_unique (h : linkAttribute? tag field = some target)
    (h' : linkAttribute? tag field' = some target') : target = target' := by
  rcases linkAttribute?_eq_some h with ⟨rfl, rfl⟩ | ⟨rfl, rfl⟩ <;>
    rcases linkAttribute?_eq_some h' with ⟨htag, rfl⟩ | ⟨htag, rfl⟩
  · rfl
  · exact absurd htag (by decide)
  · exact absurd htag (by decide)
  · rfl

/-- What the text of a field becomes: a section or a text. -/
def fieldContent (cdata : Bool) (text : String) : Value :=
  if cdata then .comment (cdataComment text) else .text text

/-- What a field does to a node apart from its content. -/
def linkValue (tag : String) (v : Value) (bound : String × String) : Value :=
  match linkAttribute? tag bound.1 with
  | some target => valueWithAttribute target bound.2 v
  | none => v

theorem isVoidValue_valueWithAttribute (mode : Mode) (name value : String) (v : Value) :
    isVoidValue mode (valueWithAttribute name value v) = isVoidValue mode v := by
  cases v <;> rfl

theorem isVoidValue_linkValue (mode : Mode) (tag : String) (v : Value) (bound : String × String) :
    isVoidValue mode (linkValue tag v bound) = isVoidValue mode v := by
  rw [linkValue]
  split
  · exact isVoidValue_valueWithAttribute _ _ _ _
  · rfl

theorem fillEdit_eq (mode : Mode) (content v : Value) :
    fillEdit mode content v = (v, if isVoidValue mode v then none else some (.node 0 content [])) := by
  rw [fillEdit]
  split <;> rfl

theorem fieldEdit_eq (mode : Mode) (cdata : Bool) (tag : String) (bound : String × String)
    (v : Value) : fieldEdit mode cdata tag bound v = (linkValue tag v bound,
      if isVoidValue mode v then none else some (.node 0 (fieldContent cdata bound.2) [])) := by
  rw [fieldEdit, linkValue]
  cases linkAttribute? tag bound.1 with
  | none => exact fillEdit_eq mode _ v
  | some target =>
    dsimp only
    rw [Edit.andThen, Edit.ofMap, fillEdit_eq, isVoidValue_valueWithAttribute, Option.or_none]
    rfl

/-! ## All fields of an element -/

theorem fst_foldl_fieldEdit (bounds : List (String × String)) (acc : Edit) :
    (bounds.foldl (fun acc b => acc.andThen (fieldEdit mode cdata tag b)) acc v).1 =
      bounds.foldl (linkValue tag) (acc v).1 := by
  induction bounds generalizing acc with
  | nil => rfl
  | cons b bounds ih => rw [List.foldl_cons, ih, Edit.andThen, fieldEdit_eq, List.foldl_cons]

/-- Of several contents the last one stays. -/
theorem snd_foldl_fieldEdit (bounds : List (String × String)) {acc : Edit}
    (hacc : isVoidValue mode (acc v).1 = isVoidValue mode v) :
    (bounds.foldl (fun acc b => acc.andThen (fieldEdit mode cdata tag b)) acc v).2 =
      if isVoidValue mode v then (acc v).2
      else (bounds.getLast?.map fun b => .node 0 (fieldContent cdata b.2) []).or (acc v).2 := by
  induction bounds generalizing acc with
  | nil => simp
  | cons b bounds ih =>
    have hnext : isVoidValue mode ((acc.andThen (fieldEdit mode cdata tag b)) v).1 =
        isVoidValue mode v := by
      rw [Edit.andThen, fieldEdit_eq, isVoidValue_linkValue, hacc]
    rw [List.foldl_cons, ih hnext, Edit.andThen, fieldEdit_eq, hacc, List.getLast?_cons]
    cases isVoidValue mode v with
    | true => rfl
    | false => cases bounds.getLast? <;> rfl

/-- The fields of an element that are put in an attribute, each with the attribute and the text. -/
def linkFields (fieldStem : String) (record : Record) (e : Element) : List (String × String) :=
  (boundFields fieldStem record e).filterMap fun b =>
    (linkAttribute? (Text.lowerLetters e.name.base) b.1).map fun target => (target, b.2)

theorem foldl_linkValue (tag : String) (bounds : List (String × String)) (v : Value) :
    bounds.foldl (linkValue tag) v =
      (bounds.filterMap fun b => (linkAttribute? tag b.1).map fun target => (target, b.2)).foldl
        (fun v link => valueWithAttribute link.1 link.2 v) v := by
  rw [List.foldl_filterMap]
  refine List.foldl_ext _ _ _ ?_
  intro v b _
  rw [linkValue]
  cases linkAttribute? tag b.1 <;> rfl

/-- What the content of a node becomes: that of the last field that it names, if the node is an
element that is not void. -/
def contentOf (mode : Mode) (fieldStem : String) (record : Record) (v : Value) : Option Value :=
  v.element?.bind fun e =>
    if isVoidValue mode v then none
    else (boundFields fieldStem record e).getLast?.map fun b =>
      fieldContent (e.hasAttribute cdataFilter) b.2

theorem snd_recordEdit (mode : Mode) (fieldStem : String) (record : Record) (v : Value) :
    (recordEdit mode fieldStem record v).2 =
      (contentOf mode fieldStem record v).map fun content => .node 0 content [] := by
  rw [recordEdit, contentOf]
  cases v.element? with
  | none => rfl
  | some e =>
    dsimp only
    rw [snd_foldl_fieldEdit _ rfl, Option.bind_some, Edit.keep, Option.or_none]
    split
    · rfl
    · rw [Option.map_map]
      rfl

theorem fst_recordEdit_element (mode : Mode) (fieldStem : String) (record : Record) (e : Element) :
    (recordEdit mode fieldStem record (.element e)).1 =
      (linkFields fieldStem record e).foldl (fun v link => valueWithAttribute link.1 link.2 v)
        (.element e) := by
  rw [recordEdit, Value.element?, fst_foldl_fieldEdit, foldl_linkValue]
  rfl

theorem fst_recordEdit_of_ne_element (h : v.element? = none) :
    (recordEdit mode fieldStem record v).1 = v := by
  rw [recordEdit, h]
  rfl

/-- All links of an element are put in the same attribute. -/
theorem eq_of_mem_linkFields {link link' : String × String}
    (h : link ∈ linkFields fieldStem record e) (h' : link' ∈ linkFields fieldStem record e) :
    link.1 = link'.1 := by
  obtain ⟨b, -, hb⟩ := List.mem_filterMap.mp h
  obtain ⟨b', -, hb'⟩ := List.mem_filterMap.mp h'
  obtain ⟨target, ht, rfl⟩ := Option.map_eq_some_iff.mp hb
  obtain ⟨target', ht', rfl⟩ := Option.map_eq_some_iff.mp hb'
  exact linkAttribute?_unique ht ht'

/-- Setting attributes leaves an element with its name. -/
theorem exists_foldl_valueWithAttribute (links : List (String × String)) (e : Element) :
    ∃ e', links.foldl (fun v link => valueWithAttribute link.1 link.2 v) (.element e) =
      .element e' ∧ e'.name = e.name := by
  induction links generalizing e with
  | nil => exact ⟨e, rfl, rfl⟩
  | cons link links ih =>
    obtain ⟨e₁, he₁, hname₁, -⟩ := exists_valueWithAttribute link.1 link.2 e
    obtain ⟨e', he', hname⟩ := ih e₁
    rw [List.foldl_cons, he₁]
    exact ⟨e', he', hname.trans hname₁⟩

/-- Of several values of one attribute the last one stays. -/
theorem foldl_valueWithAttribute (h : e.localNames.Nodup) {links : List (String × String)}
    {last : String × String} (hsame : ∀ link ∈ links, link.1 = last.1) :
    (links ++ [last]).foldl (fun v link => valueWithAttribute link.1 link.2 v) (.element e) =
      valueWithAttribute last.1 last.2 (.element e) := by
  induction links using List.reverseRecOn generalizing last with
  | nil => rfl
  | append_singleton links link ih =>
    have hlink : link.1 = last.1 := hsame link (by simp)
    have hlinks : ∀ other ∈ links, other.1 = link.1 := fun other hother =>
      (hsame other (List.mem_append_left _ hother)).trans hlink.symm
    rw [List.foldl_append, ih hlinks, List.foldl_cons, List.foldl_nil, hlink,
      valueWithAttribute_valueWithAttribute h]

/-- What a record does to an element, apart from its content: the last link that it names is put in
the attribute for it, if no two of its attributes are called alike. If it names none it stays as it
is. -/
structure Bound (fieldStem : String) (record : Record) (e e' : Element) : Prop where
  tag : e'.name = e.name
  same : linkFields fieldStem record e = [] → e' = e
  link : ∀ target text, (linkFields fieldStem record e).getLast? = some (target, text) →
    (Text.lowerLetters e.name.base = "a" ∧ target = "href" ∨
      Text.lowerLetters e.name.base = "img" ∧ target = "src") ∧
    (e.localNames.Nodup → AttributeSet target text e e')

theorem bound_fst_recordEdit (mode : Mode) (fieldStem : String) (record : Record) (e : Element) :
    ∃ e', (recordEdit mode fieldStem record (.element e)).1 = .element e' ∧
      Bound fieldStem record e e' := by
  obtain ⟨e', he', hname⟩ := exists_foldl_valueWithAttribute (linkFields fieldStem record e) e
  refine ⟨e', (fst_recordEdit_element mode fieldStem record e).trans he', hname, ?_, ?_⟩
  · intro hnone
    rw [hnone] at he'
    exact (Value.element.inj he').symm
  · intro target text hlast
    obtain ⟨links, hlinks⟩ := List.getLast?_eq_some_iff.mp hlast
    obtain ⟨b, -, hb⟩ := List.mem_filterMap.mp
      (hlinks ▸ by simp : (target, text) ∈ linkFields fieldStem record e)
    obtain ⟨found, htarget, heq⟩ := Option.map_eq_some_iff.mp hb
    obtain ⟨rfl, -⟩ := Prod.mk.inj heq
    refine ⟨linkAttribute?_eq_some htarget, fun hnodup => ?_⟩
    have hsame : ∀ link ∈ links, link.1 = (found, text).1 := fun link hlink =>
      eq_of_mem_linkFields (hlinks ▸ List.mem_append_left _ hlink) (hlinks ▸ by simp)
    rw [hlinks, foldl_valueWithAttribute hnodup hsame, valueWithAttribute_of_nodup hnodup] at he'
    obtain rfl := Value.element.inj he'
    exact attributeSet_setLocal found text e

/-! ## A whole tree -/

/-- What a record puts in the place of the children of a node: the text of the last field that the
node names, if it is an element that is not void. -/
def boundContent (fieldStem : String) (record : Record) (d : Document) (i : NodeId) : Option Value :=
  (d.element? i).bind fun e =>
    if d.isVoid i then none
    else (boundFields fieldStem record e).getLast?.map fun b =>
      if e.hasAttribute cdataFilter then .comment (cdataComment b.2) else .text b.2

/-- **What binding a record does to a detached tree.** The elements that name fields and are not
void are filled with the last of them, and what was below such an element is gone. The links that a
record has for an element are put in its attribute for them; nothing else of any node changes, and
nothing outside of the tree. -/
theorem refilled_bindRecord (fieldStem : String) (record : Record) (htop : d.Knows top)
    (hroot : d.parent? top = none) :
    let d' := bindRecord fieldStem record d top
    Untouched d d' top ∧ Refilled d d' top (boundContent fieldStem record d) ∧
      ∀ i ∈ d.subtree top, i ∈ d'.subtree top →
        (d.element? i = none → d'.forest.value? i = d.forest.value? i) ∧
        ∀ e, d.element? i = some e →
          ∃ e', d'.element? i = some e' ∧ Bound fieldStem record e e' := by
  have hop : ∀ d' i, d'.mode = d.mode → Edits d'.forest.next i (recordEdit d.mode fieldStem record)
      d' (bindElement fieldStem record d' i) := by
    intro d' i hd'
    have h := edits_bindElement fieldStem record d' i
    rwa [hd'] at h
  have hcontent : ∀ i u, d.forest.find? i = some u →
      (recordEdit d.mode fieldStem record u.value).2 =
        (boundContent fieldStem record d i).map fun v => .node 0 v [] := by
    intro i u hu
    rw [snd_recordEdit, contentOf, boundContent, element?, Forest.value?, hu, isVoid_of_find? hu]
    rfl
  obtain ⟨hother, hrefilled, hvalue⟩ := refilled_foldl hop htop hroot hcontent
  refine ⟨hother, hrefilled, fun i hi hi' => ⟨fun hnone => ?_, fun e he => ?_⟩⟩
  · refine (hvalue i hi hi').trans ?_
    rw [element?] at hnone
    cases hv : d.forest.value? i with
    | none => rfl
    | some v =>
      rw [hv, Option.bind_some] at hnone
      rw [Option.map_some, fst_recordEdit_of_ne_element hnone]
  · obtain ⟨e', he', hbound⟩ := bound_fst_recordEdit d.mode fieldStem record e
    refine ⟨e', ?_, hbound⟩
    have hv := hvalue i hi hi'
    rw [value?_of_element? he, Option.map_some, he'] at hv
    rw [element?]
    exact (congrArg (·.bind Value.element?) hv).trans rfl

/-- A list item with a paragraph that names two fields, a field inside the paragraph, and an image. -/
def card : Document :=
  let element (name : String) (attributes : List Attribute) (children : List Tree) : Tree :=
    .node 0 (.element ⟨.html name, attributes⟩) children
  ⟨.html, .ofTrees [element "li" [] [
    element "p" [⟨.plain "data-v-item-name", ""⟩, ⟨.plain "data-v-item-title", ""⟩] [
      element "b" [⟨.plain "data-v-item-name", ""⟩] []],
    element "img" [⟨.plain "src", "old.png"⟩, ⟨.plain "data-v-item-image", ""⟩] []]]⟩

/-- In a copy of the item the paragraph has the text of its second field and nothing else, and the
image has its address. -/
theorem refilled_bindRecord_card :
    let d := (card.copy 1).1
    let d' := bindRecord "data-v-item-"
      [("image", .string "new.png"), ("name", .string "N"), ("title", .string "T")] d 5
    d.Knows 5 ∧ d.parent? 5 = none ∧ 7 ∉ d'.subtree 5 ∧
      (∃ k, ¬ d.Knows k ∧ d'.children 6 = [k] ∧
        d'.forest.find? k = some (.node k (.text "T") [])) ∧
      ∃ e', d'.element? 8 = some e' ∧ e'.local? "src" = some "new.png" := by
  intro d d'
  have htop : d.Knows 5 := Option.isSome_iff_exists.mp (by decide +kernel)
  have hroot : d.parent? 5 = none := by decide +kernel
  obtain ⟨-, hrefilled, hvalue⟩ := refilled_bindRecord "data-v-item-"
    [("image", .string "new.png"), ("name", .string "N"), ("title", .string "T")] htop hroot
  refine ⟨htop, hroot, ?_, ?_, ?_⟩
  · rw [hrefilled.left 7 (by decide +kernel)]
    intro hnone
    have habove : d.Above 6 7 := mem_descendants_iff_above.mp (by decide +kernel)
    exact absurd (hnone 6 (by decide +kernel) habove) (by decide +kernel)
  · exact hrefilled.filled 6 (by decide +kernel) (by decide +kernel) _ (by decide +kernel)
  · obtain ⟨e', he', hbound⟩ := (hvalue 8 (by decide +kernel) (by decide +kernel)).2
      ⟨.html "img", [⟨.plain "src", "old.png"⟩, ⟨.plain "data-v-item-image", ""⟩]⟩
      (by decide +kernel)
    have hset := (hbound.link "src" "new.png" (by decide +kernel)).2 (by decide)
    exact ⟨e', he', (hset.values "src").trans (if_pos rfl)⟩

/-- A drawing with a link that has two attributes called `href`, one of them of another namespace. -/
def drawing : Document :=
  let element (name : QName) (attributes : List Attribute) (children : List Tree) : Tree :=
    .node 0 (.element ⟨name, attributes⟩) children
  ⟨.html, .ofTrees [element (.html "html") [] [element (.html "head") [] [],
    element (.html "body") [] [element ⟨.svg, none, "svg"⟩ [] [element ⟨.svg, none, "a"⟩
      [⟨⟨.xlink, some "xlink", "href"⟩, "x"⟩, ⟨.plain "href", "y"⟩, ⟨.plain "data-v-item-url", ""⟩]
      []]]]]⟩

/-- The address of the link does not arrive: the rebuilt attributes are called alike, and the one
that is kept has the old value. -/
theorem bindRecord_loses_link :
    let d := (drawing.copy 5).1
    let d' := bindRecord "data-v-item-" [("url", .string "/new")] d 6
    (read "<svg><a xlink:href=\"x\" href=\"y\" data-v-item-url></a></svg>" .html).toOption.map
        (·.element? 5) = some (drawing.element? 5) ∧
      d.Knows 6 ∧ d.parent? 6 = none ∧
      ∃ e e', d.element? 6 = some e ∧ d'.element? 6 = some e' ∧
        linkFields "data-v-item-" [("url", .string "/new")] e = [("href", "/new")] ∧
        e'.attributes = [⟨.plain "href", "y"⟩, ⟨.plain "data-v-item-url", ""⟩] ∧
        e'.local? "href" ≠ some "/new" := by
  refine ⟨by decide +kernel, Option.isSome_iff_exists.mp (by decide +kernel), by decide +kernel,
    ⟨⟨.svg, none, "a"⟩, [⟨⟨.xlink, some "xlink", "href"⟩, "x"⟩, ⟨.plain "href", "y"⟩,
      ⟨.plain "data-v-item-url", ""⟩]⟩,
    ⟨⟨.svg, none, "a"⟩, [⟨.plain "href", "y"⟩, ⟨.plain "data-v-item-url", ""⟩]⟩,
    by decide +kernel, by decide +kernel, by decide +kernel, rfl, by decide⟩

end Stencil.Component

import Mathlib.Data.Fintype.EquivFin
import Stencil.Proofs.Attributes
import Stencil.Proofs.Editing
import Stencil.Proofs.Lineage
import Stencil.Proofs.Xml.Items

/-!
# Setting an attribute, seen in the start tag

A start tag shows each attribute with the stem of its namespace, so what setting an attribute should
do to it can be said on the written names alone: one value changes in its place, or one attribute
comes behind all others (`put`). Since setting an attribute takes the namespaces away, it does this
if no attribute is written with a stem and no two are called alike (`Bare`), as in every XML template
(`bare_of_read`). In any other element a new attribute already spoils the others
(`bare_of_tagAttributes`). The rest of the document stays as it is in any case (`Spared`).
-/

namespace Stencil
open Markup

variable {mode : Mode} {e e' : Element} {name text : String} {l : List Attribute}

/-! ## Start tags -/

/-- The name that an attribute is written with. -/
def Mode.attributeName : Mode → QName → String
  | .html => Html.attributeName
  | .xml => QName.base

/-- The value of an attribute as it is written between its quotes. -/
def Mode.escape : Mode → String → String
  | .html => Html.escapeValue
  | .xml => Xml.escapedValue

/-- The attributes that a start tag shows, by their written names. -/
def tagAttributes (mode : Mode) (e : Element) : List (String × String) :=
  e.attributes.map fun a => (mode.attributeName a.name, a.value)

theorem map_fst_tagAttributes (mode : Mode) (e : Element) :
    (tagAttributes mode e).map Prod.fst = e.attributes.map (mode.attributeName ·.name) := by
  rw [tagAttributes, List.map_map]
  rfl

/-- A start tag without its end. -/
def tagText (mode : Mode) (name : String) (attributes : List (String × String)) : String :=
  "<" ++ name ++
    String.join (attributes.map fun a => " " ++ a.1 ++ "=\"" ++ mode.escape a.2 ++ "\"")

/-- What is written for an element behind the attributes of its start tag. -/
def behindAttributes (mode : Mode) (q : QName) (children : List Tree) : String :=
  match mode with
  | .html =>
    if Html.isVoid q then ">" ++ Html.writeAll ⟨!Html.isRaw q, true⟩ children
    else ">" ++ Html.writeAll ⟨!Html.isRaw q, false⟩ children ++ ("</" ++ q.base ++ ">")
  | .xml =>
    if children.isEmpty then "/>" else ">" ++ Xml.writeAll children ++ ("</" ++ q.base ++ ">")

theorem startTagText_eq (e : Element) :
    Html.startTagText e = tagText .html e.name.base (tagAttributes .html e) ++ ">" := by
  rw [Html.startTagText, tagText, tagAttributes, List.map_map]
  rfl

theorem openingText_eq (e : Element) :
    Xml.openingText e = tagText .xml e.name.base (tagAttributes .xml e) := by
  rw [Xml.openingText, tagText, tagAttributes, List.map_map]
  rfl

/-- **What is written for an element** depends on its attributes in the start tag only. -/
theorem Document.writeNode_element {d : Document} {i j : NodeId} {cs : List Tree}
    (h : d.forest.find? i = some (.node j (.element e) cs)) :
    d.writeNode i = tagText d.mode e.name.base (tagAttributes d.mode e) ++
      behindAttributes d.mode e.name cs := by
  rw [writeNode, h]
  cases hmode : d.mode with
  | html =>
    show Html.write .outermost (.node j (.element e) cs) = _
    rw [Html.write, behindAttributes, startTagText_eq]
    cases Html.isVoid e.name <;>
      simp [Html.Surroundings.outermost, Html.endTagText, String.append_assoc]
  | xml =>
    show Xml.write (.node j (.element e) cs) = _
    rw [Xml.write, behindAttributes, openingText_eq]
    cases cs.isEmpty <;> simp [String.append_assoc]

/-! ## One attribute of a start tag -/

/-- The attributes with the one that is written `name` changed, or a new one at the end. -/
def put (name text : String) : List (String × String) → List (String × String)
  | [] => [(name, text)]
  | a :: rest => if a.1 = name then (name, text) :: rest else a :: put name text rest

theorem put_of_not_mem {l : List (String × String)} (h : name ∉ l.map Prod.fst) :
    put name text l = l ++ [(name, text)] := by
  induction l with
  | nil => rfl
  | cons a l ih =>
    rw [List.map_cons, List.mem_cons, not_or] at h
    rw [put, if_neg (Ne.symm h.1), ih h.2, List.cons_append]

/-- Each attribute is written with its name alone, and no two bear the same name. -/
structure Bare (mode : Mode) (e : Element) : Prop where
  names : ∀ a ∈ e.attributes, mode.attributeName a.name = a.name.base
  distinct : e.localNames.Nodup

theorem Mode.attributeName_plain (mode : Mode) (name : String) :
    mode.attributeName (.plain name) = name := by
  cases mode <;> rfl

theorem tagAttributes_eq (h : ∀ a ∈ e.attributes, mode.attributeName a.name = a.name.base) :
    tagAttributes mode e = e.attributes.map fun a => (a.name.base, a.value) :=
  List.map_congr_left fun a ha => by rw [h a ha]

namespace Document

theorem map_pair_withAttribute (name text : String) (l : List Attribute) :
    (withAttribute name text l).map (fun a => (a.name.base, a.value)) =
      put name text (l.map fun a => (a.name.base, a.value)) := by
  induction l with
  | nil => rfl
  | cons a l ih =>
    rw [withAttribute, List.map_cons, put]
    by_cases ha : a.name.base = name
    · rw [if_pos ha, if_pos ha, List.map_cons, ha]
    · rw [if_neg ha, if_neg ha, List.map_cons, ih]

theorem attributeName_setLocal (mode : Mode) (name text : String) (e : Element) :
    ∀ a ∈ (setLocal name text e).attributes, mode.attributeName a.name = a.name.base := by
  intro a ha
  rw [← map_plain_setLocal] at ha
  obtain ⟨b, -, rfl⟩ := List.mem_map.mp ha
  exact mode.attributeName_plain _

theorem tagAttributes_setLocal (h : Bare mode e) (name text : String) :
    tagAttributes mode (setLocal name text e) = put name text (tagAttributes mode e) := by
  rw [tagAttributes_eq (attributeName_setLocal mode name text e), tagAttributes_eq h.names,
    setLocal, map_pair_withAttribute, List.map_map]
  rfl

/-! ## Attributes that have been set -/

/-- Whatever attributes an element had, they bear different names in no namespace once one has been
set. -/
theorem bare_valueWithAttribute
    (hset : valueWithAttribute name text (.element e) = .element e') : Bare mode e' := by
  obtain rfl := Value.element.inj hset
  obtain ⟨hnodup, hsub⟩ := map_name_mergeAttributes (setLocal name text e).attributes
  have hplain : ∀ a ∈ mergeAttributes (setLocal name text e).attributes,
      a.name = .plain a.name.base := by
    intro a ha
    have hname := hsub.subset (List.mem_map_of_mem ha)
    rw [← map_plain_setLocal, map_name_plain] at hname
    obtain ⟨base, -, heq⟩ := List.mem_map.mp hname
    rw [← heq]
    rfl
  refine ⟨fun a ha => ?_, ?_⟩
  · rw [hplain a ha, Mode.attributeName_plain]
    rfl
  · have hnames : (mergeAttributes (setLocal name text e).attributes).map Attribute.name =
        ((mergeAttributes (setLocal name text e).attributes).map (·.name.base)).map QName.plain := by
      rw [List.map_map]
      exact List.map_congr_left hplain
    rw [hnames] at hnodup
    exact hnodup.of_map QName.plain

/-- **If a new attribute is just added to a start tag, each of the others is written with its name
alone**, and no two bear the same name. -/
theorem bare_of_tagAttributes (hname : name ∉ e.localNames)
    (hset : valueWithAttribute name text (.element e) = .element e')
    (h : tagAttributes mode e' = tagAttributes mode e ++ [(name, text)]) : Bare mode e := by
  -- All attributes are there, so none has been run together with another one.
  have hmerged : e'.attributes =
      mergeAttributes (e.attributes.map plainAttribute ++ [⟨.plain name, text⟩]) := by
    rw [← withAttribute_of_not_mem (map_base_plain e ▸ hname)]
    exact (congrArg Element.attributes (Value.element.inj hset)).symm
  have hlength :
      (mergeAttributes (e.attributes.map plainAttribute ++ [⟨.plain name, text⟩])).length =
        (e.attributes.map plainAttribute ++ [(⟨.plain name, text⟩ : Attribute)]).length := by
    have := congrArg List.length h
    simpa [tagAttributes, hmerged] using this
  have hnodup := nodup_of_length_mergeAttributes hlength
  rw [mergeAttributes_of_nodup hnodup] at hmerged
  have hshown := congrArg (List.map Prod.fst) h
  rw [List.map_append, map_fst_tagAttributes, map_fst_tagAttributes, hmerged, List.map_append,
    List.map_map] at hshown
  have hnames := List.map_inj_left.mp (List.append_inj' hshown rfl).1
  refine ⟨fun a ha => (hnames a ha).symm.trans (mode.attributeName_plain _), ?_⟩
  rw [List.map_append, map_name_plain] at hnodup
  exact hnodup.of_append_left.of_map QName.plain

end Document

/-! ## XML templates -/

namespace Xml
open Markup.Tree (AllValues allValues_nil allValues_cons_node)

/-- The attributes of the node bear different names; only elements have any. -/
def ValueDistinct : Value → Prop
  | .element e => e.localNames.Nodup
  | _ => True

/-- A tag names no attribute twice. -/
theorem distinct_of_attributesFrom {total : Nat} {seen : List (List Char × Nat)} {cs : List Char}
    (h : attributesFrom total seen cs = .ok l) :
    (l.map (·.name.base)).Nodup ∧ ∀ a ∈ l, seen.lookup a.name.base.toList = none := by
  fun_induction attributesFrom total seen cs generalizing l with
  | case1 =>
    cases h
    exact ⟨List.nodup_nil, List.forall_mem_nil _⟩
  | case2 => cases h
  | case3 => cases h
  | case4 => cases h
  | case5 seen cs c r hblank position name hnew raw rest hv value _ _ =>
    rename_i ih
    obtain ⟨others, hothers, rfl⟩ := exists_of_map_eq_ok h
    obtain ⟨hnodup, hfree⟩ := ih hothers
    -- A name that comes later is not among those read up to here.
    have hlater : ∀ a ∈ others,
        a.name.base.toList ≠ name ∧ seen.lookup a.name.base.toList = none := by
      intro a ha
      have hnone := hfree a ha
      rw [List.lookup_append, Option.or_eq_none_iff] at hnone
      refine ⟨fun heq => ?_, hnone.1⟩
      rw [heq, List.lookup_cons_self] at hnone
      cases hnone.2
    have hname : (String.ofList name).toList = name := String.toList_ofList
    constructor
    · refine List.nodup_cons.mpr ⟨fun hmem => ?_, hnodup⟩
      obtain ⟨a, ha, heq⟩ := List.mem_map.mp hmem
      exact (hlater a ha).1 (heq ▸ hname)
    · refine List.forall_mem_cons.mpr ⟨?_, fun a ha => (hlater a ha).2⟩
      exact hname.symm ▸ hnew

theorem valueDistinct_of_element {content : List Char} (h : element content = .ok e) :
    ValueDistinct (.element e) := by
  obtain ⟨attributes, hattributes, rfl⟩ := exists_of_map_eq_ok h
  exact (distinct_of_attributesFrom hattributes).1

theorem valueDistinct_of_leaf {item : Item} {v : Value} (h : item.event = .ok (.leaf v)) :
    ValueDistinct v := by
  cases item with
  | empty content =>
    obtain ⟨e, he, hv⟩ := exists_of_map_eq_ok h
    exact Event.leaf.inj hv ▸ valueDistinct_of_element he
  | start content =>
    obtain ⟨e, -, hv⟩ := exists_of_map_eq_ok h
    cases hv
  | text content =>
    rw [Item.event] at h
    split at h
    · exact Event.leaf.inj (Except.ok.inj h) ▸ trivial
    · cases h
  | finish => cases h
  | comment | «section» | instruction | doctype =>
    exact Event.leaf.inj (Except.ok.inj h) ▸ trivial

theorem Spells.valueDistinct {items : List Item} {ts : List Tree} (h : Spells items ts) :
    AllValues ValueDistinct ts := by
  induction h with
  | nil => exact allValues_nil
  | leaf hevent _ ih =>
    exact (allValues_cons_node _ _ _ _).mpr ⟨valueDistinct_of_leaf hevent, allValues_nil, ih⟩
  | element hstart _ _ _ ihinner ih =>
    exact (allValues_cons_node _ _ _ _).mpr ⟨valueDistinct_of_element hstart, ihinner, ih⟩

end Xml

namespace Document

/-- No element of an XML template has two attributes that are called alike. -/
theorem bare_of_read {d : Document} {source : String} {i : NodeId} (h : read source .xml = .ok d)
    (he : d.element? i = some e) : Bare .xml e := by
  obtain ⟨f, hf, rfl⟩ := Xml.exists_of_map_eq_ok h
  obtain ⟨items, ts, -, hspells, rfl⟩ := Xml.exists_spells_of_read hf
  have hall : (Forest.ofTrees ts).AllValues Xml.ValueDistinct :=
    .ofTrees trivial hspells.valueDistinct
  exact ⟨fun _ _ => rfl, hall.of_value? (value?_of_element? he)⟩

end Document

/-! ## Documents -/

namespace Document

variable {d : Document} {i : NodeId}

/-- Two documents that differ at most in the value at one node. -/
structure Spared (i : NodeId) (d d' : Document) : Prop where
  mode : d'.mode = d.mode
  root : d'.root = d.root
  children : ∀ p, d'.forest.children p = d.forest.children p
  value : ∀ j ≠ i, d'.forest.value? j = d.forest.value? j

theorem spared_setAttribute (d : Document) (i : NodeId) (name text : String) :
    Spared i d (d.setAttribute i name text) where
  mode := rfl
  root := rfl
  children p := Forest.children_setValue d.forest i _ p
  value j hj := by
    rw [setAttribute, Forest.value?, Forest.find?_setValue, Forest.value?]
    cases hfind : d.forest.find? j with
    | none => rfl
    | some t =>
      have hid : t.id ≠ i := Forest.id_of_find? hfind ▸ hj
      rw [Option.map_some, Option.map_some, Option.map_some, Tree.value_update _ hid]

/-- An element whose attribute is set is written as before but for the attributes of its tag. -/
theorem writeNode_setAttribute (he : d.element? i = some e)
    (hset : valueWithAttribute name text (.element e) = .element e') :
    (d.setAttribute i name text).element? i = some e' ∧ ∃ behind,
      d.writeNode i = tagText d.mode e.name.base (tagAttributes d.mode e) ++ behind ∧
      (d.setAttribute i name text).writeNode i =
        tagText d.mode e.name.base (tagAttributes d.mode e') ++ behind := by
  obtain ⟨⟨j, v, cs⟩, hfind, rfl⟩ := Option.map_eq_some_iff.mp (value?_of_element? he)
  obtain rfl : j = i := Forest.id_of_find? hfind
  have hfind' : (d.setAttribute j name text).forest.find? j = some (.node j (.element e') cs) := by
    have hupdate := Forest.find?_setValue d.forest j j (valueWithAttribute name text)
    rw [hfind, Option.map_some, Tree.update, if_pos rfl, Tree.withValue, hset] at hupdate
    exact hupdate
  have hname : e'.name = e.name := by
    rw [← Value.element.inj hset]
  refine ⟨?_, behindAttributes d.mode e.name cs, writeNode_element hfind, ?_⟩
  · rw [element?, Forest.value?, hfind']
    rfl
  · rw [writeNode_element hfind', hname]
    rfl

theorem exists_new_name (mode : Mode) (e : Element) :
    ∃ name, name ∉ e.localNames ∧ name ∉ (tagAttributes mode e).map Prod.fst := by
  have : Infinite String := .of_injective String.ofList fun _ _ h => String.ofList_injective h
  obtain ⟨name, hname⟩ := Infinite.exists_notMem_finset
    (e.localNames ++ (tagAttributes mode e).map Prod.fst).toFinset
  rw [List.mem_toFinset, List.mem_append, not_or] at hname
  exact ⟨name, hname⟩

/-- **Setting an attribute** changes nothing but the attributes of the element, and its text only in
the start tag, where each attribute is written with its name alone from then on. It changes or adds
the one attribute there, whichever it is, exactly if this was so before; and so it is in an XML
template. -/
theorem setAttribute_exact (he : d.element? i = some e) :
    (∀ name text, Spared i d (d.setAttribute i name text) ∧
      ∃ e' behind, (d.setAttribute i name text).element? i = some e' ∧ e'.name = e.name ∧
        Bare d.mode e' ∧
        d.writeNode i = tagText d.mode e.name.base (tagAttributes d.mode e) ++ behind ∧
        (d.setAttribute i name text).writeNode i =
          tagText d.mode e.name.base (tagAttributes d.mode e') ++ behind) ∧
      ((∀ name text e', (d.setAttribute i name text).element? i = some e' →
        tagAttributes d.mode e' = put name text (tagAttributes d.mode e)) ↔ Bare d.mode e) ∧
      ∀ source, read source .xml = .ok d → Bare d.mode e := by
  refine ⟨fun name text => ⟨spared_setAttribute d i name text, ?_⟩, ⟨fun h => ?_, ?_⟩, ?_⟩
  · have hset : valueWithAttribute name text (.element e) = _ := rfl
    obtain ⟨helement, behind, hbefore, hafter⟩ := writeNode_setAttribute he hset
    exact ⟨_, behind, helement, rfl, bare_valueWithAttribute rfl, hbefore, hafter⟩
  · obtain ⟨name, hlocal, hwritten⟩ := exists_new_name d.mode e
    have hnew := h name "" _ (writeNode_setAttribute he rfl).1
    rw [put_of_not_mem hwritten] at hnew
    exact bare_of_tagAttributes hlocal rfl hnew
  · intro hbare name text e' he'
    have hset : valueWithAttribute name text (.element e) = _ :=
      valueWithAttribute_of_nodup hbare.distinct
    obtain rfl := Option.some.inj ((writeNode_setAttribute he hset).1.symm.trans he')
    exact tagAttributes_setLocal hbare name text
  · intro source hread
    obtain ⟨f, -, rfl⟩ := Xml.exists_of_map_eq_ok hread
    exact bare_of_read hread he

/-- A link of an HTML page. -/
theorem setAttribute_exact_link :
    ∃ d e, read "<a href=\"#\" class=\"nav\">x</a>" .html = .ok d ∧ d.element? 4 = some e ∧
      ∀ name text e', (d.setAttribute 4 name text).element? 4 = some e' →
        tagAttributes .html e' = put name text [("href", "#"), ("class", "nav")] := by
  have he : (Document.mk .html (Html.read "<a href=\"#\" class=\"nav\">x</a>")).element? 4 =
      some ⟨.html "a", [⟨.plain "href", "#"⟩, ⟨.plain "class", "nav"⟩]⟩ := by
    decide +kernel
  exact ⟨_, _, rfl, he, (setAttribute_exact he).2.1.mpr ⟨by decide, by decide⟩⟩

/-- A reference of a drawing loses the stem of its attribute when a class is set. -/
theorem setAttribute_drops_stem :
    ∃ d e e', read "<svg><use xlink:href=\"#a\"></use></svg>" .html = .ok d ∧
      d.element? 5 = some e ∧ (d.setAttribute 5 "class" "x").element? 5 = some e' ∧
      d.writeNode 5 = "<use xlink:href=\"#a\"></use>" ∧
      (d.setAttribute 5 "class" "x").writeNode 5 = "<use href=\"#a\" class=\"x\"></use>" ∧
      tagAttributes .html e' ≠ put "class" "x" (tagAttributes .html e) := by
  refine ⟨⟨.html, Html.read "<svg><use xlink:href=\"#a\"></use></svg>"⟩,
    ⟨⟨.svg, none, "use"⟩, [⟨⟨.xlink, some "xlink", "href"⟩, "#a"⟩]⟩,
    ⟨⟨.svg, none, "use"⟩, [⟨.plain "href", "#a"⟩, ⟨.plain "class", "x"⟩]⟩, rfl, ?_⟩
  decide +kernel

end Document

end Stencil

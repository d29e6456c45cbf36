import Stencil.Proofs.Component.Stamping
import Stencil.Proofs.Lineage

/-!
# The sites of a component

Two searches find the sites below a root: one over the elements below it, one over the attributes
of each of these. What they find is said here without them (`SiteSearch`): the elements that carry
the singular of the component, if there are any; or else those that carry the singular supplied by
the first wrapper below the root, that is, by the first element with an attribute `data-v-<x>s`
above an element with `data-v-<x>`.

A wrapper is searched in its own scope and its singular is used in the scope of the root. What is
below the wrapper is below the root, so no search that succeeds ends with an empty list of sites
(`stampSites?_exact`).
-/

namespace Stencil.Component
open Markup Document

variable {d : Document} {root w i : NodeId} {name x : String} {a : Attribute} {e : Element}
  {l : List NodeId}

/-! ## Elements that carry an attribute -/

/-- The element at a node carries the attribute `name` of no namespace. -/
def Tagged (d : Document) (name : String) (i : NodeId) : Prop :=
  ∃ e, d.element? i = some e ∧ ∃ a ∈ e.attributes, a.name = .plain name

/-- A list holds the nodes below a root that carry an attribute, in document order. -/
structure ListsTagged (d : Document) (root : NodeId) (name : String) (l : List NodeId) : Prop where
  sublist : l.Sublist (d.descendants root)
  mem_iff : ∀ i, i ∈ l ↔ d.Above root i ∧ Tagged d name i

theorem any_hasAttribute_iff : (d.element? i).any (·.hasAttribute name) ↔ Tagged d name i := by
  simp [Tagged, Element.hasAttribute, Element.attribute?, Option.any_eq_true]

theorem find?_of_mem_treesBelow {t : Tree} (h : t ∈ d.treesBelow root) :
    d.forest.find? t.id = some t := by
  rw [treesBelow] at h
  split at h
  · next u hu =>
    obtain ⟨k, v, cs⟩ := u
    exact Forest.find?_of_mem_preorder hu (List.mem_cons_of_mem _ h)
  · cases h

theorem tagged_eq_filter (d : Document) (root : NodeId) (name : String) : tagged d root name =
    (d.descendants root).filter fun i => (d.element? i).any (·.hasAttribute name) := by
  rw [tagged, descendants, List.filter_map]
  refine congrArg _ (List.filter_congr fun t ht => ?_)
  rw [Function.comp_apply, element?_of_find? (find?_of_mem_treesBelow ht)]

theorem listsTagged_tagged (d : Document) (root : NodeId) (name : String) :
    ListsTagged d root name (tagged d root name) where
  sublist := tagged_eq_filter d root name ▸ List.filter_sublist
  mem_iff i := by
    rw [tagged_eq_filter, List.mem_filter, mem_descendants_iff_above, any_hasAttribute_iff]

/-- There is one such list. -/
theorem ListsTagged.eq_tagged (h : ListsTagged d root name l) : l = tagged d root name := by
  have hnodup := nodup_descendants d root
  have htagged := listsTagged_tagged d root name
  have hperm : l.Perm (tagged d root name) :=
    (List.perm_ext_iff_of_nodup (hnodup.sublist h.sublist) (hnodup.sublist htagged.sublist)).mpr
      fun i => (h.mem_iff i).trans (htagged.mem_iff i).symm
  have hall : l.filter (fun i => (d.element? i).any (·.hasAttribute name)) = l :=
    List.filter_eq_self.mpr fun i hi => any_hasAttribute_iff.mpr ((h.mem_iff i).mp hi).2
  have hsub : l.Sublist (tagged d root name) := by
    rw [tagged_eq_filter, ← hall]
    exact h.sublist.filter _
  exact hsub.eq_of_length hperm.length_eq

theorem tagged_eq_nil_iff :
    tagged d root name = [] ↔ ∀ i, d.Above root i → ¬ Tagged d name i := by
  simp only [List.eq_nil_iff_forall_not_mem, (listsTagged_tagged d root name).mem_iff, not_and]

/-! ## Wrappers -/

/-- The first member of a list with a property. -/
def IsFirst {α : Type} (p : α → Prop) (l : List α) (a : α) : Prop :=
  ∃ before after, l = before ++ a :: after ∧ p a ∧ ∀ b ∈ before, ¬ p b

theorem findSome?_eq_some_iff_isFirst {α β : Type} {f : α → Option β} {l : List α} {b : β} :
    l.findSome? f = some b ↔ ∃ a, IsFirst (fun a => ∃ b, f a = some b) l a ∧ f a = some b := by
  rw [List.findSome?_eq_some_iff]
  constructor
  · rintro ⟨before, a, after, rfl, ha, hbefore⟩
    refine ⟨a, ⟨before, after, rfl, ⟨b, ha⟩, fun c hc => ?_⟩, ha⟩
    simp [hbefore c hc]
  · rintro ⟨a, ⟨before, after, rfl, -, hbefore⟩, ha⟩
    refine ⟨before, a, after, rfl, ha, fun c hc => ?_⟩
    exact Option.eq_none_iff_forall_ne_some.mpr fun b hb => hbefore c hc ⟨b, hb⟩

/-- An attribute name `data-v-<x>s`, and not the marker of a component. -/
structure IsPlural (name x : String) : Prop where
  name_eq : name = "data-v-" ++ x ++ "s"
  ne_empty : x ≠ ""
  not_component : ¬ "component-".toList <+: (x ++ "s").toList

/-- An attribute of the element at `w` supplies the singular `x`: it is named by the plural, and
below `w` something carries the singular. -/
def Supplies (d : Document) (w : NodeId) (x : String) (a : Attribute) : Prop :=
  IsPlural a.name.base x ∧ ∃ i, d.Above w i ∧ Tagged d ("data-v-" ++ x) i

/-- Some attribute of the element at `w` supplies a singular. -/
def Wraps (d : Document) (w : NodeId) : Prop :=
  ∃ e, d.element? w = some e ∧ ∃ a ∈ e.attributes, ∃ x, Supplies d w x a

/-- The first wrapper below a root supplies the singular `x`, by the first of its attributes that
supplies one. -/
def FirstSupplies (d : Document) (root : NodeId) (x : String) : Prop :=
  ∃ w e a, IsFirst (Wraps d) (d.descendants root) w ∧ d.element? w = some e ∧
    IsFirst (fun a => ∃ y, Supplies d w y a) e.attributes a ∧ Supplies d w x a

theorem wrappedSingular?_eq_some_iff : wrappedSingular? name = some x ↔ IsPlural name x := by
  constructor
  · intro h
    obtain ⟨plural, hplural, h⟩ := Option.bind_eq_some_iff.mp h
    rw [Text.afterStem?_eq_some_iff] at hplural
    split at h
    · cases h
    · next hmarker =>
      obtain ⟨singular, hsingular, h⟩ := Option.bind_eq_some_iff.mp h
      rw [Text.beforeTail?_eq_some_iff] at hsingular
      split at h
      · cases h
      · next hempty =>
        obtain rfl := Option.some.inj h
        subst hsingular
        exact ⟨by rw [hplural, String.append_assoc], by simpa using hempty,
          by rwa [Text.startsWith_iff] at hmarker⟩
  · rintro ⟨hname, hne, hmarker⟩
    rw [← Text.startsWith_iff] at hmarker
    have hstem : Text.afterStem? name "data-v-" = some (x ++ "s") :=
      Text.afterStem?_eq_some_iff.mpr (by rw [hname, String.append_assoc])
    have htail : Text.beforeTail? (x ++ "s") "s" = some x := Text.beforeTail?_eq_some_iff.mpr rfl
    rw [wrappedSingular?, hstem]
    simp only [bind, Option.bind_some, htail, if_neg hmarker, String.isEmpty_iff, if_neg hne]

/-- The singular that an attribute of the element at `w` supplies. -/
def supplied? (d : Document) (w : NodeId) (a : Attribute) : Option String := do
  let singular ← wrappedSingular? a.name.base
  if (tagged d w ("data-v-" ++ singular)).isEmpty then none else some singular

theorem supplied?_eq_some_iff : supplied? d w a = some x ↔ Supplies d w x a := by
  rw [supplied?, Supplies, ← wrappedSingular?_eq_some_iff]
  have hsome : ∀ y, (tagged d w ("data-v-" ++ y)).isEmpty = false ↔
      ∃ i, d.Above w i ∧ Tagged d ("data-v-" ++ y) i := by
    intro y
    rw [← Bool.not_eq_true, List.isEmpty_iff, tagged_eq_nil_iff]
    push Not
    rfl
  constructor
  · intro h
    obtain ⟨y, hy, h⟩ := Option.bind_eq_some_iff.mp h
    split at h
    · cases h
    · next hne =>
      obtain rfl := Option.some.inj h
      exact ⟨hy, (hsome y).mp (Bool.eq_false_iff.mpr hne)⟩
  · rintro ⟨hx, hin⟩
    simp only [hx, bind, Option.bind_some, (hsome x).mpr hin, Bool.false_eq_true, if_false]

theorem wrapperSingular?_eq (d : Document) (root : NodeId) : wrapperSingular? d root =
    (d.descendants root).findSome? fun w =>
      (d.element? w).bind fun e => e.attributes.findSome? (supplied? d w) := by
  rw [wrapperSingular?, descendants, List.findSome?_map]
  refine findSome?_congr fun t ht => ?_
  rw [Function.comp_apply, element?_of_find? (find?_of_mem_treesBelow ht)]
  rfl

/-- The search through the attributes of one element. -/
theorem exists_supplied_iff : (∃ x, ((d.element? w).bind fun e =>
    e.attributes.findSome? (supplied? d w)) = some x) ↔ Wraps d w := by
  constructor
  · rintro ⟨x, h⟩
    obtain ⟨e, he, h⟩ := Option.bind_eq_some_iff.mp h
    obtain ⟨a, ha, hx⟩ := List.exists_of_findSome?_eq_some h
    exact ⟨e, he, a, ha, x, supplied?_eq_some_iff.mp hx⟩
  · rintro ⟨e, he, a, ha, x, hx⟩
    rw [he, Option.bind_some, ← Option.isSome_iff_exists, List.findSome?_isSome_iff]
    exact ⟨a, ha, Option.isSome_iff_exists.mpr ⟨x, supplied?_eq_some_iff.mpr hx⟩⟩

theorem wrapperSingular?_eq_some_iff :
    wrapperSingular? d root = some x ↔ FirstSupplies d root x := by
  rw [wrapperSingular?_eq, findSome?_eq_some_iff_isFirst]
  -- First which element it is, then which of its attributes.
  simp only [exists_supplied_iff]
  simp only [Option.bind_eq_some_iff, findSome?_eq_some_iff_isFirst, supplied?_eq_some_iff]
  constructor
  · rintro ⟨w, hw, e, he, a, ha, hx⟩
    exact ⟨w, e, a, hw, he, ha, hx⟩
  · rintro ⟨w, e, a, hw, he, ha, hx⟩
    exact ⟨w, hw, e, he, a, ha, hx⟩

theorem wrapperSingular?_eq_none_iff :
    wrapperSingular? d root = none ↔ ∀ w, d.Above root w → ¬ Wraps d w := by
  rw [wrapperSingular?_eq, List.findSome?_eq_none_iff]
  refine forall_congr' fun w => ?_
  rw [mem_descendants_iff_above, ← exists_supplied_iff,
    ← Option.isSome_iff_exists, Option.not_isSome_iff_eq_none]

/-- **What a wrapper supplies is carried below the root.** -/
theorem tagged_ne_nil_of_firstSupplies (h : FirstSupplies d root x) :
    tagged d root ("data-v-" ++ x) ≠ [] := by
  obtain ⟨w, e, a, ⟨before, after, hall, -, -⟩, -, -, -, i, hi, hx⟩ := h
  have hw : d.Above root w := by
    rw [← mem_descendants_iff_above, hall]
    exact List.mem_append_right _ List.mem_cons_self
  intro hnil
  -- What is below the wrapper is below the root.
  exact tagged_eq_nil_iff.mp hnil i (hw.trans hi) hx

/-! ## The search -/

/-- What the search for sites finds. -/
inductive SiteSearch (d : Document) (root : NodeId) (singular : String) :
    Option (String × List NodeId) → Prop where
  /-- Something below the root carries the singular of the component. -/
  | own {sites : List NodeId} (sites_ne : sites ≠ [])
      (sites_tagged : ListsTagged d root ("data-v-" ++ singular) sites) :
      SiteSearch d root singular (some (singular, sites))
  /-- Nothing does, but there is a wrapper; what counts is what stands below the root. -/
  | wrapped {x : String} {sites : List NodeId}
      (own_none : ∀ i, d.Above root i → ¬ Tagged d ("data-v-" ++ singular) i)
      (supplied : FirstSupplies d root x)
      (sites_tagged : ListsTagged d root ("data-v-" ++ x) sites) :
      SiteSearch d root singular (some (x, sites))
  /-- Nothing does, and there is no wrapper. -/
  | none (own_none : ∀ i, d.Above root i → ¬ Tagged d ("data-v-" ++ singular) i)
      (wrapper_none : ∀ w, d.Above root w → ¬ Wraps d w) :
      SiteSearch d root singular none

variable {singular : String} {found : Option (String × List NodeId)}

theorem stampSites?_of_own (h : tagged d root ("data-v-" ++ singular) ≠ []) :
    stampSites? d root singular = some (singular, tagged d root ("data-v-" ++ singular)) := by
  rw [stampSites?]
  cases hsites : tagged d root ("data-v-" ++ singular) with
  | nil => exact absurd hsites h
  | cons site more => rfl

theorem stampSites?_of_wrapped (hown : tagged d root ("data-v-" ++ singular) = [])
    (hx : wrapperSingular? d root = some x) (hne : tagged d root ("data-v-" ++ x) ≠ []) :
    stampSites? d root singular = some (x, tagged d root ("data-v-" ++ x)) := by
  rw [stampSites?, hown, hx]
  cases hsites : tagged d root ("data-v-" ++ x) with
  | nil => exact absurd hsites hne
  | cons site more => simp [hsites]

theorem stampSites?_of_none (hown : tagged d root ("data-v-" ++ singular) = [])
    (hnone : wrapperSingular? d root = none) : stampSites? d root singular = none := by
  rw [stampSites?, hown, hnone]
  rfl

theorem siteSearch_stampSites? (d : Document) (root : NodeId) (singular : String) :
    SiteSearch d root singular (stampSites? d root singular) := by
  by_cases hown : tagged d root ("data-v-" ++ singular) = []
  · cases hx : wrapperSingular? d root with
    | none =>
      rw [stampSites?_of_none hown hx]
      exact .none (tagged_eq_nil_iff.mp hown) (wrapperSingular?_eq_none_iff.mp hx)
    | some x =>
      have hfirst := wrapperSingular?_eq_some_iff.mp hx
      rw [stampSites?_of_wrapped hown hx (tagged_ne_nil_of_firstSupplies hfirst)]
      exact .wrapped (tagged_eq_nil_iff.mp hown) hfirst (listsTagged_tagged d root _)
  · rw [stampSites?_of_own hown]
    exact .own hown (listsTagged_tagged d root _)

theorem SiteSearch.eq_stampSites? (h : SiteSearch d root singular found) :
    stampSites? d root singular = found := by
  cases h with
  | own hne hsites =>
    obtain rfl := hsites.eq_tagged
    exact stampSites?_of_own hne
  | wrapped hown hfirst hsites =>
    obtain rfl := hsites.eq_tagged
    exact stampSites?_of_wrapped (tagged_eq_nil_iff.mpr hown)
      (wrapperSingular?_eq_some_iff.mpr hfirst) (tagged_ne_nil_of_firstSupplies hfirst)
  | none hown hwrapper =>
    exact stampSites?_of_none (tagged_eq_nil_iff.mpr hown)
      (wrapperSingular?_eq_none_iff.mpr hwrapper)

/-- **The sites of a root are found exactly, and what is found is never an empty list.** -/
theorem stampSites?_exact (d : Document) (root : NodeId) (singular : String) :
    (∀ found, stampSites? d root singular = found ↔ SiteSearch d root singular found) ∧
      (∀ x sites, stampSites? d root singular = some (x, sites) →
        ∃ first more, sites = first :: more) ∧
      (∀ x, wrapperSingular? d root = some x → tagged d root ("data-v-" ++ x) ≠ []) := by
  refine ⟨fun found => ⟨?_, SiteSearch.eq_stampSites?⟩, fun x sites hsites => ?_,
    fun x hx => tagged_ne_nil_of_firstSupplies (wrapperSingular?_eq_some_iff.mp hx)⟩
  · rintro rfl
    exact siteSearch_stampSites? d root singular
  · have hsearch := siteSearch_stampSites? d root singular
    rw [hsites] at hsearch
    rw [← List.ne_nil_iff_exists_cons]
    cases hsearch with
    | own hne _ => exact hne
    | wrapped _ hfirst htagged =>
      rw [htagged.eq_tagged]
      exact tagged_ne_nil_of_firstSupplies hfirst

end Stencil.Component

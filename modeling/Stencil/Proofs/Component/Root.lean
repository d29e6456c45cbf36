import Stencil.Component.Stamping
import Stencil.Proofs.Component.Binding
import Stencil.Proofs.Text.Cutting

/-!
# Component roots

An element is the root of a component exactly if the name of one of its attributes starts with the
component marker: the rest of the name is never empty once it has become a key, so the marker can
always be read. The roots are listed in document order, so the roots above and beside a root come
before it and those inside it come after it.
-/

namespace Stencil.Component
open Markup Document
open Markup.Tree (idsAll preorderAll)

variable {d d' : Document} {r q i : NodeId} {t u : Tree} {m : Marker} {e : Element}

/-! ## Markers -/

/-- Whether a component root is at a node. -/
def IsRoot (d : Document) (i : NodeId) : Prop :=
  ∃ e, d.element? i = some e ∧ ∃ a ∈ e.attributes, componentMarker.toList <+: a.name.base.toList

theorem foldHyphens_hyphen_ne_nil (cs : List Char) : foldHyphens ('-' :: cs) ≠ [] := by
  cases cs with
  | nil => simp [foldHyphens]
  | cons c cs =>
    rw [foldHyphens]
    split <;> simp

/-- The key of an attribute name that starts with the marker. -/
theorem dataKey?_of_marker {name : String} {rest : List Char}
    (h : name.toList = componentMarker.toList ++ rest) :
    dataKey? name = some (String.ofList ("vComponent".toList ++ foldHyphens ('-' :: rest))) := by
  have hkey : foldHyphens ("v-component-".toList ++ rest) =
      "vComponent".toList ++ foldHyphens ('-' :: rest) := by
    rfl
  have hdrop : Text.dropStem? ['d', 'a', 't', 'a', '-'] name.toList =
      some ("v-component-".toList ++ rest) := by
    rw [Text.dropStem?_eq_some_iff, h]
    rfl
  rw [dataKey?, hdrop, Option.map_some, hkey]

theorem lowercase_ne_empty {s : String} (h : s.toList ≠ []) : (Text.lowercase s).isEmpty = false := by
  have hne : Text.lowercaseFrom [] s.toList ≠ [] := by
    cases hs : s.toList with
    | nil => exact absurd hs h
    | cons c cs =>
      rw [Text.lowercaseFrom]
      split
      · simp
      · split <;> simp
  rw [Text.lowercase, Bool.eq_false_iff, Ne, String.isEmpty_iff]
  intro he
  exact hne (by simpa using congrArg String.toList he)

/-- The marker of an element is read from the first attribute that starts like one. -/
theorem ofElement?_of_find? {a : Attribute} {rest : List Char}
    (hfind : e.attributes.find? (fun a =>
      Text.startsWith componentMarker.toList a.name.base.toList) = some a)
    (ha : a.name.base.toList = componentMarker.toList ++ rest) :
    Marker.ofElement? e = some
      ⟨Text.lowercase (String.ofList (foldHyphens ('-' :: rest))), Text.trimmed a.value⟩ := by
  have hdrop : Text.dropStem? "vComponent".toList
      (String.ofList ("vComponent".toList ++ foldHyphens ('-' :: rest))).toList =
      some (foldHyphens ('-' :: rest)) :=
    Text.dropStem?_eq_some_iff.mpr String.toList_ofList
  have hstem : Text.afterStem? (String.ofList ("vComponent".toList ++ foldHyphens ('-' :: rest)))
      "vComponent" = some (String.ofList (foldHyphens ('-' :: rest))) := by
    rw [Text.afterStem?, hdrop, Option.map_some]
  have hkind := lowercase_ne_empty (s := String.ofList (foldHyphens ('-' :: rest)))
    (by rw [String.toList_ofList]; exact foldHyphens_hyphen_ne_nil rest)
  simp only [Marker.ofElement?, hfind, dataKey?_of_marker ha, hstem, hkind, bind,
    Option.bind_some, Bool.false_eq_true, if_false]

/-- **An element with an attribute whose name starts with the marker is a component root.** -/
theorem exists_marker (h : ∃ a ∈ e.attributes, componentMarker.toList <+: a.name.base.toList) :
    ∃ m, Marker.ofElement? e = some m := by
  obtain ⟨a, ha, hm⟩ := h
  -- The reader takes the first attribute with the marker, which need not be `a`.
  cases hfind : e.attributes.find? fun a =>
      Text.startsWith componentMarker.toList a.name.base.toList with
  | none =>
    have hnone := List.find?_eq_none.mp hfind a ha
    exact absurd (Text.startsWith_iff.mpr hm) hnone
  | some b =>
    have hstarts := List.find?_some hfind
    obtain ⟨rest, hb⟩ := Text.startsWith_iff.mp hstarts
    exact ⟨_, ofElement?_of_find? hfind hb.symm⟩

/-- The attribute that marks an element as a component root: the first whose name starts with the
marker. -/
def IsMarkerOf (e : Element) (a : Attribute) : Prop :=
  ∃ before after, e.attributes = before ++ a :: after ∧
    (∀ b ∈ before, ¬ componentMarker.toList <+: b.name.base.toList) ∧
    componentMarker.toList <+: a.name.base.toList

/-- What a marker says is read off the first attribute that starts like one. -/
theorem exists_isMarkerOf (h : Marker.ofElement? e = some m) :
    ∃ a rest, IsMarkerOf e a ∧ a.name.base.toList = componentMarker.toList ++ rest ∧
      m = ⟨Text.lowercase (String.ofList (foldHyphens ('-' :: rest))), Text.trimmed a.value⟩ := by
  cases hfind : e.attributes.find? fun a =>
      Text.startsWith componentMarker.toList a.name.base.toList with
  | none => simp [Marker.ofElement?, hfind] at h
  | some a =>
    obtain ⟨hstarts, before, after, hattributes, hbefore⟩ := List.find?_eq_some_iff_append.mp hfind
    have hprefix := Text.startsWith_iff.mp hstarts
    obtain ⟨rest, ha⟩ := hprefix
    rw [ofElement?_of_find? hfind ha.symm] at h
    refine ⟨a, rest, ⟨before, after, hattributes, fun b hb hmarker => ?_, rest, ha⟩, ha.symm,
      (Option.some.inj h).symm⟩
    have hnot := hbefore b hb
    rw [Text.startsWith_iff.mpr hmarker] at hnot
    cases hnot

theorem marker_of_ofElement? (h : Marker.ofElement? e = some m) :
    ∃ a ∈ e.attributes, componentMarker.toList <+: a.name.base.toList := by
  obtain ⟨a, -, ⟨before, after, hattributes, -, ha⟩, -⟩ := exists_isMarkerOf h
  exact ⟨a, hattributes ▸ List.mem_append_right _ List.mem_cons_self, ha⟩

/-! ## In document order -/

theorem find?_of_mem_document (ht : t ∈ d.forest.document.preorder) :
    d.forest.find? t.id = some t :=
  Forest.find?_of_mem_preorder d.forest.find?_document ht

/-- The document is not below what stands in it. -/
theorem root_not_mem_of_mem_document (ht : t ∈ d.forest.document.preorder) :
    d.root ∉ idsAll t.children := by
  have hnodup : d.forest.document.ids.Nodup := Forest.nodup_of_find? d.forest.find?_document
  have hroot : d.root = d.forest.document.id := d.forest.id_document.symm
  rw [hroot]
  intro hmem
  exact Tree.not_mem_idsAll_children hnodup (Tree.idsAll_children_subset_of_mem_preorder ht hmem)

theorem element?_of_find? (ht : d.forest.find? i = some t) : d.element? i = t.element? := by
  rw [element?, Forest.value?, ht]
  rfl

/-- The node and marker that a tree adds to the list of roots. -/
def rootOf? (t : Tree) : Option (NodeId × Marker) :=
  (t.element?.bind Marker.ofElement?).map (t.id, ·)

theorem roots_eq (d : Document) : roots d = d.forest.document.preorder.filterMap rootOf? := by
  rw [roots]
  congr 1
  funext t
  rw [rootOf?]
  cases t.element? with
  | none => rfl
  | some e => cases h : Marker.ofElement? e <;> simp [h]

theorem id_of_rootOf? {x : NodeId × Marker} (h : rootOf? t = some x) : t.id = x.1 := by
  obtain ⟨m, -, rfl⟩ := Option.map_eq_some_iff.mp h
  rfl

/-- Every root that is listed is one, and is found in the document. -/
theorem exists_of_mem_roots (h : (q, m) ∈ roots d) :
    ∃ t ∈ d.forest.document.preorder, d.forest.find? q = some t ∧ IsRoot d q := by
  rw [roots_eq] at h
  obtain ⟨t, ht, hq⟩ := List.mem_filterMap.mp h
  obtain ⟨m', hm, he⟩ := Option.map_eq_some_iff.mp hq
  obtain ⟨e, he', hm⟩ := Option.bind_eq_some_iff.mp hm
  obtain ⟨rfl, rfl⟩ := Prod.mk.inj he
  have hf := find?_of_mem_document ht
  exact ⟨t, ht, hf, e, (element?_of_find? hf).trans he', marker_of_ofElement? hm⟩

theorem mem_roots (ht : t ∈ d.forest.document.preorder) (he : t.element? = some e)
    (hm : Marker.ofElement? e = some m) : (t.id, m) ∈ roots d := by
  rw [roots_eq]
  refine List.mem_filterMap.mpr ⟨t, ht, ?_⟩
  rw [rootOf?, he, Option.bind_some, hm, Option.map_some]

theorem nodup_roots (d : Document) : ((roots d).map Prod.fst).Nodup := by
  have hsub : ∀ l : List Tree, ((l.filterMap rootOf?).map Prod.fst).Sublist (l.map Tree.id) := by
    intro l
    induction l with
    | nil => exact .slnil
    | cons t l ih =>
      rw [List.filterMap_cons]
      split
      · exact ih.cons _
      · next x hx =>
        rw [List.map_cons, List.map_cons, id_of_rootOf? hx]
        exact ih.cons_cons _
  rw [roots_eq]
  exact (hsub _).nodup (Forest.nodup_of_find? d.forest.find?_document)

/-- Only a node that exists has anything below it. -/
theorem lt_next_of_mem_descendants (h : i ∈ d.descendants q) : q < d.forest.next := by
  cases hq : d.forest.find? q with
  | none => simp [descendants, treesBelow, hq] at h
  | some u => exact Forest.lt_next_of_find? hq

/-- A tree below another one is among the descendants of its node. -/
theorem mem_descendants (hu : d.forest.find? q = some u) (ht : t ∈ u.preorder) (hne : t.id ≠ q) :
    t.id ∈ d.descendants q := by
  obtain rfl := Forest.id_of_find? hu
  obtain ⟨k, v, cs⟩ := u
  rw [Tree.preorder_node, List.mem_cons] at ht
  rw [descendants, treesBelow, hu]
  refine List.mem_map_of_mem (ht.resolve_left ?_)
  rintro rfl
  exact hne rfl

/-- What comes before a tree in document order is not inside it. -/
theorem not_mem_preorder_of_before {before after : List Tree}
    (h : d.forest.document.preorder = before ++ t :: after) (hu : u ∈ before) :
    u ∉ t.preorder := by
  intro hin
  have hall : preorderAll [d.forest.document] = before ++ t :: after := by
    simpa using h
  -- What is inside the tree comes behind it, and no number stands twice.
  obtain ⟨rest, hrest⟩ := Tree.exists_append_of_preorderAll hall
  have hnodup : (d.forest.document.preorder.map Tree.id).Nodup :=
    Forest.nodup_of_find? d.forest.find?_document
  rw [h, hrest, List.map_append, List.nodup_append] at hnodup
  exact hnodup.2.2 u.id (List.mem_map_of_mem hu) u.id
    (List.mem_map_of_mem (List.mem_append_left _ hin)) rfl

/-- **A root without root above it shares no node with the roots listed before it.** -/
theorem disjoint_of_roots_eq {pre post : List (NodeId × Marker)}
    (hroots : roots d = pre ++ (r, m) :: post) (houter : ∀ q, IsRoot d q → r ∉ d.descendants q)
    (ht : d.forest.find? r = some t) {x : NodeId × Marker} (hx : x ∈ pre) :
    ∃ u, d.forest.find? x.1 = some u ∧ ∀ i ∈ u.ids, i ∉ t.ids := by
  have hxroots : (x.1, x.2) ∈ roots d := hroots ▸ List.mem_append_left _ hx
  rw [roots_eq] at hroots
  -- The list of roots is read off the document order, so its cut at `r` is a cut of that order.
  obtain ⟨l₁, rest, hpre, rfl, hrest⟩ := List.filterMap_eq_append_iff.mp hroots
  obtain ⟨l₂, t', l₃, rfl, -, hr, -⟩ := List.filterMap_eq_cons_iff.mp hrest
  rw [← List.append_assoc] at hpre
  have ht' := find?_of_mem_document (d := d) (t := t') (by simp [hpre])
  rw [id_of_rootOf? hr, ht] at ht'
  obtain rfl := Option.some.inj ht'
  obtain ⟨u, hu, hux⟩ := List.mem_filterMap.mp hx
  have huf := find?_of_mem_document (d := d) (t := u) (by simp [hpre, hu])
  rw [id_of_rootOf? hux] at huf
  refine ⟨u, huf, ?_⟩
  have hbefore : u ∉ t.preorder := not_mem_preorder_of_before hpre (List.mem_append_left _ hu)
  rcases Tree.nested_or_disjoint d.forest.distinct (Forest.find?_eq_some_iff.mp huf).1
    (Forest.find?_eq_some_iff.mp ht).1 with h | h | h
  · exact absurd h hbefore
  · -- A tree around `t` would be that of a root above `r`.
    obtain ⟨-, -, -, hroot⟩ := exists_of_mem_roots hxroots
    have hne : t.id ≠ x.1 := by
      intro he
      rw [← he, Forest.id_of_find? ht, ht] at huf
      obtain rfl := Option.some.inj huf
      exact hbefore t.self_mem_preorder
    have hmem := mem_descendants huf h hne
    rw [Forest.id_of_find? ht] at hmem
    exact absurd hmem (houter x.1 hroot)
  · exact h

end Stencil.Component

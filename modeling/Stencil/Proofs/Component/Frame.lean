import Stencil.Proofs.Component.Stamping
import Stencil.Proofs.Script.Expansion

/-!
# What stamping leaves alone

Stamping a root takes out and puts in nodes below it and nothing else. So whatever is not below a
root keeps its value, its parent and its place among its siblings, and if the outermost roots are
emptied (`crop`) the document looks the same before and after (`process_frame`). Roots inside other
roots do not show, whether they are still in the document or were taken out with a site.
-/

namespace Stencil.Component
open Markup Document
open Script (Keeps)
open Markup.Tree (idsAll preorderAll removeAll updateAll update withChildren)

variable {n r q i k : NodeId} {d d' d'' : Document} {t u w : Tree} {ts : List Tree} {m : Marker}
  {sites : List NodeId} {clones : List Tree} {G : Tree → Tree}

/-! ## Cropping -/

/-- Whether a node is marked as the root of a component. -/
def isMarked (v : Value) : Bool := (v.element?.bind Marker.ofElement?).isSome

mutual

/-- The tree without what is below its outermost component roots. -/
def crop : Tree → Tree
  | .node i v cs => .node i v (if isMarked v then [] else cropAll cs)

/-- The trees without what is below their outermost component roots. -/
def cropAll : List Tree → List Tree
  | [] => []
  | t :: ts => crop t :: cropAll ts

end

theorem cropAll_cons_node (i : NodeId) (v : Value) (cs ts : List Tree) :
    cropAll (.node i v cs :: ts)
      = .node i v (if isMarked v then [] else cropAll cs) :: cropAll ts := by
  rw [cropAll, crop]

theorem idsAll_cropAll_subset (ts : List Tree) : idsAll (cropAll ts) ⊆ idsAll ts := by
  induction ts using Tree.listInduction with
  | nil => exact List.Subset.refl _
  | cons j v cs ts ihc iht =>
    rw [cropAll_cons_node, Tree.idsAll_cons, Tree.idsAll_cons, Tree.ids_node, Tree.ids_node]
    refine List.append_subset.mpr ⟨?_, List.subset_append_of_subset_right _ iht⟩
    refine List.subset_append_of_subset_left _ (List.cons_subset_cons j ?_)
    split
    · exact List.nil_subset _
    · exact ihc

theorem ids_crop_subset (t : Tree) : (crop t).ids ⊆ t.ids := by
  have hsub := idsAll_cropAll_subset [t]
  simpa [cropAll] using hsub

/-- What does not show can be taken out. -/
theorem cropAll_removeAll (h : i ∉ idsAll (cropAll ts)) :
    cropAll (removeAll i ts) = cropAll ts := by
  induction ts using Tree.listInduction with
  | nil => rfl
  | cons j v cs ts ihc iht =>
    rw [cropAll_cons_node, Tree.idsAll_cons, Tree.ids_node, List.cons_append, List.mem_cons,
      List.mem_append, not_or, not_or] at h
    obtain ⟨hj, hcs, hts⟩ := h
    rw [Tree.removeAll_cons_node, if_neg (Ne.symm hj), cropAll_cons_node, cropAll_cons_node,
      iht hts]
    split
    · rfl
    · next hv =>
      rw [if_neg hv] at hcs
      rw [ihc hcs]

theorem crop_remove (h : i ∉ (crop t).ids) : crop (t.remove i) = crop t := by
  obtain ⟨j, v, cs⟩ := t
  rw [Tree.remove, crop, crop]
  split
  · rfl
  · next hv =>
    rw [crop, if_neg hv, Tree.ids_node, List.mem_cons, not_or] at h
    rw [cropAll_removeAll h.2]

theorem crop_foldl_remove (h : ∀ i ∈ sites, i ∉ (crop t).ids) :
    crop (sites.foldl (fun t i => t.remove i) t) = crop t := by
  induction sites generalizing t with
  | nil => rfl
  | cons i sites ih =>
    have hi := crop_remove (h i List.mem_cons_self)
    rw [List.foldl_cons, ih, hi]
    intro j hj
    rw [hi]
    exact h j (List.mem_cons_of_mem _ hj)

/-- New children of roots do not show. -/
theorem cropAll_updateAll (g : List Tree → List Tree)
    (h : ∀ u ∈ preorderAll ts, u.id = i → isMarked u.value) :
    cropAll (updateAll i (withChildren g) ts) = cropAll ts := by
  induction ts using Tree.listInduction with
  | nil => rfl
  | cons j v cs ts ihc iht =>
    rw [Tree.preorderAll_cons, Tree.preorder_node] at h
    rw [Tree.updateAll_cons_node, cropAll_cons_node, ← iht fun u hu => h u (by simp [hu])]
    by_cases hj : j = i
    · have hv : isMarked v = true := h (.node j v cs) (by simp) hj
      rw [if_pos hj, withChildren, cropAll_cons_node, if_pos hv, if_pos hv]
    · rw [if_neg hj, cropAll_cons_node, ihc fun u hu => h u (by simp [hu])]

theorem crop_update (g : List Tree → List Tree)
    (h : ∀ u ∈ t.preorder, u.id = i → isMarked u.value) :
    crop (t.update i (withChildren g)) = crop t := by
  have hlist : ∀ u ∈ preorderAll [t], u.id = i → isMarked u.value := by simpa using h
  have hall := cropAll_updateAll g hlist
  rw [updateAll, updateAll, cropAll, cropAll, cropAll, cropAll] at hall
  exact (List.cons.inj hall).1

/-- **What is below a root does not show.** -/
theorem not_mem_idsAll_cropAll (hd : (idsAll ts).Nodup) (hu : u ∈ preorderAll ts)
    (hm : isMarked u.value) (hk : k ∈ idsAll u.children) : k ∉ idsAll (cropAll ts) := by
  induction ts using Tree.listInduction with
  | nil => cases hu
  | cons j v cs ts ihc iht =>
    simp only [Tree.idsAll_cons, Tree.ids_node, List.cons_append, List.nodup_cons,
      List.mem_append, not_or, List.nodup_append] at hd
    obtain ⟨⟨hjc, hjt⟩, hcs, hts, hdisj⟩ := hd
    rw [Tree.preorderAll_cons, Tree.preorder_node, List.cons_append, List.mem_cons,
      List.mem_append] at hu
    rw [cropAll_cons_node, Tree.idsAll_cons, Tree.ids_node, List.cons_append, List.mem_cons,
      List.mem_append, not_or, not_or]
    rcases hu with rfl | hu | hu
    · have hv : isMarked v = true := hm
      rw [if_pos hv]
      refine ⟨fun h => hjc (h ▸ hk), List.not_mem_nil, fun h => ?_⟩
      exact hdisj k hk k (idsAll_cropAll_subset ts h) rfl
    · have hkc : k ∈ idsAll cs := Tree.idsAll_children_subset hu hk
      refine ⟨fun h => hjc (h ▸ hkc), fun h => ?_, fun h => ?_⟩
      · split at h
        · cases h
        · exact ihc hcs hu h
      · exact hdisj k hkc k (idsAll_cropAll_subset ts h) rfl
    · have hkt : k ∈ idsAll ts := Tree.idsAll_children_subset hu hk
      refine ⟨fun h => hjt (h ▸ hkt), fun h => ?_, iht hts hu⟩
      split at h
      · cases h
      · exact hdisj k (idsAll_cropAll_subset cs h) k hkt rfl

/-- What is not below a root does. -/
theorem mem_idsAll_cropAll (hk : k ∈ idsAll ts)
    (h : ∀ u ∈ preorderAll ts, isMarked u.value → k ∉ idsAll u.children) :
    k ∈ idsAll (cropAll ts) := by
  induction ts using Tree.listInduction with
  | nil => exact hk
  | cons j v cs ts ihc iht =>
    rw [Tree.preorderAll_cons, Tree.preorder_node] at h
    rw [Tree.idsAll_cons, Tree.ids_node, List.cons_append, List.mem_cons, List.mem_append] at hk
    rw [cropAll_cons_node, Tree.idsAll_cons, Tree.ids_node, List.cons_append, List.mem_cons,
      List.mem_append]
    rcases hk with rfl | hk | hk
    · exact .inl rfl
    · have hv : ¬ isMarked v = true := fun hv => h (.node j v cs) (by simp) hv hk
      rw [if_neg hv]
      exact .inr (.inl (ihc hk fun u hu => h u (by simp [hu])))
    · exact .inr (.inr (iht hk fun u hu => h u (by simp [hu])))

/-! ## In a document -/

theorem mem_descendants_iff (hu : d.forest.find? q = some u) :
    i ∈ d.descendants q ↔ i ∈ idsAll u.children := by
  rw [descendants, treesBelow, hu]
  rfl

theorem isMarked_of_rootOf? {x : NodeId × Marker} (h : rootOf? t = some x) : isMarked t.value := by
  obtain ⟨m, hm, -⟩ := Option.map_eq_some_iff.mp h
  rw [isMarked, ← Tree.element?, hm]
  rfl

theorem exists_isMarked_of_mem_roots {x : NodeId × Marker} (hx : x ∈ roots d) :
    ∃ u ∈ d.forest.document.preorder, d.forest.find? x.1 = some u ∧ isMarked u.value := by
  rw [roots_eq] at hx
  obtain ⟨u, hu, hux⟩ := List.mem_filterMap.mp hx
  exact ⟨u, hu, id_of_rootOf? hux ▸ find?_of_mem_document hu, isMarked_of_rootOf? hux⟩

theorem exists_mem_roots_of_isMarked (hu : u ∈ d.forest.document.preorder)
    (hm : isMarked u.value) : ∃ x ∈ roots d, x.1 = u.id := by
  obtain ⟨m, hm⟩ := Option.isSome_iff_exists.mp hm
  refine ⟨(u.id, m), ?_, rfl⟩
  rw [roots_eq]
  exact List.mem_filterMap.mpr ⟨u, hu, by rw [rootOf?, Tree.element?, hm]; rfl⟩

/-- What is below a root does not show, even if the root has left the document. -/
theorem not_mem_ids_crop (hu : d.forest.find? q = some u) (hm : isMarked u.value)
    (hroot : d.root ∉ idsAll u.children) (hk : k ∈ idsAll u.children) :
    k ∉ (crop d.forest.document).ids := by
  have hdocument := d.forest.find?_document
  have hin : u ∈ d.forest.document.preorder → k ∉ (crop d.forest.document).ids := by
    intro hin
    have hone : (idsAll [d.forest.document]).Nodup := by
      simpa using Forest.nodup_of_find? hdocument
    have hnot := not_mem_idsAll_cropAll hone (by simpa using hin) hm hk
    simpa [cropAll] using hnot
  rcases Tree.nested_or_disjoint d.forest.distinct (Forest.find?_eq_some_iff.mp hu).1
    (Forest.find?_eq_some_iff.mp hdocument).1 with hnested | habove | hapart
  · exact hin hnested
  · -- the document is not below the root, so it is the root itself
    have hid : d.forest.document.id ∈ u.ids := List.mem_map_of_mem habove
    rw [Forest.id_document, Tree.ids_eq_cons, List.mem_cons, Forest.id_of_find? hu] at hid
    have hq : d.forest.root = q := hid.resolve_right hroot
    have hsame : d.forest.document = u := Forest.document_eq (hq.symm ▸ hu)
    exact hin (hsame ▸ u.self_mem_preorder)
  · intro h
    exact hapart k (Tree.mem_ids_of_mem_children hk) (ids_crop_subset _ h)

/-- The nodes that show are those of the document that are not below a root. -/
theorem mem_ids_crop_iff (d : Document) : k ∈ (crop d.forest.document).ids ↔
    k ∈ d.forest.document.ids ∧ ∀ x ∈ roots d, k ∉ d.descendants x.1 := by
  constructor
  · intro hk
    refine ⟨?_, fun x hx hkx => ?_⟩
    · exact ids_crop_subset _ hk
    · obtain ⟨u, hin, hu, hm⟩ := exists_isMarked_of_mem_roots hx
      exact not_mem_ids_crop hu hm (root_not_mem_of_mem_document hin)
        ((mem_descendants_iff hu).mp hkx) hk
  · rintro ⟨hk, hnot⟩
    have hmem : k ∈ idsAll (cropAll [d.forest.document]) := by
      refine mem_idsAll_cropAll (by simpa using hk) fun u hu hm hku => ?_
      have hu' : u ∈ d.forest.document.preorder := by simpa using hu
      obtain ⟨x, hx, hxu⟩ := exists_mem_roots_of_isMarked hu' hm
      refine hnot x hx ?_
      rw [hxu, mem_descendants_iff (find?_of_mem_document hu')]
      exact hku
    simpa [cropAll] using hmem

/-- What was not below an old node does not come below it. -/
theorem not_mem_descendants_of_evolves (h : Evolves d.forest.next G d d')
    (hu : d.forest.find? q = some u) (hin : i < d.forest.next) (hi : i ∉ d.descendants q) :
    i ∉ d'.descendants q := by
  have hqn := Forest.lt_next_of_find? hu
  have hu' := h.forest.find?_some hqn hu
  rw [mem_descendants_iff hu'] at *
  rw [mem_descendants_iff hu] at hi
  intro hmem
  have hold := h.forest.mem_of_mem_image hqn hu (Tree.mem_ids_of_mem_children hmem) hin
  rw [Tree.ids_eq_cons, List.mem_cons] at hold
  obtain rfl := hold.resolve_right hi
  -- the node would be below itself
  have hnot := Tree.not_mem_idsAll_children (Forest.nodup_of_find? hu')
  rw [Forest.id_of_find? hu', ← Forest.id_of_find? hu] at hnot
  exact hnot hmem

/-! ## One root -/

theorem value_foldl_remove (sites : List NodeId) (t : Tree) :
    (sites.foldl (fun t i => t.remove i) t).value = t.value := by
  induction sites generalizing t with
  | nil => rfl
  | cons i sites ih =>
    rw [List.foldl_cons, ih]
    cases t
    rfl

theorem value_graft (q : NodeId) (sites : List NodeId) (clones : List Tree) (t : Tree) :
    (graft q sites clones t).value = t.value := by
  rw [graft, Tree.value_update_withChildren, value_foldl_remove]

/-- **Stamping a root does not show.** -/
theorem crop_stamp (registry : Registry) (m : Marker) (hu : d.forest.find? q = some u)
    (hm : isMarked u.value) (hroot : d.root ∉ d.descendants q) :
    crop (stamp registry d q m).forest.document = crop d.forest.document := by
  obtain ⟨clones, -, -, hev⟩ := exists_evolves_graft registry m hu
  have hsites := sitesAt_subset hu m
  rw [mem_descendants_iff hu] at hroot
  have hdetach := d.evolves_foldl_detach (sitesAt d q m)
  have hdocument := hdetach.forest.document d.forest.document_lt_next
  have hu' := hdetach.forest.find?_some (Forest.lt_next_of_find? hu) hu
  rw [hev.forest.document d.forest.document_lt_next, graft, crop_update,
    crop_foldl_remove fun s hs => not_mem_ids_crop hu hm hroot (hsites hs)]
  -- a node numbered like the root is the root without its sites
  intro v hv hvq
  rw [← hdocument] at hv
  have hfind := find?_of_mem_document hv
  rw [hvq, hu'] at hfind
  obtain rfl := Option.some.inj hfind
  rwa [value_foldl_remove]

theorem map_id_foldl_remove {w : Tree} (h : ∀ s ∈ sites, s ∉ w.children.map Tree.id) :
    (sites.foldl (fun w s => w.remove s) w).children.map Tree.id = w.children.map Tree.id := by
  have hone : ∀ {s : NodeId} {ts : List Tree}, s ∉ ts.map Tree.id →
      (removeAll s ts).map Tree.id = ts.map Tree.id := by
    intro s ts hs
    induction ts with
    | nil => rfl
    | cons t ts ih =>
      rw [List.map_cons, List.mem_cons, not_or] at hs
      rw [removeAll, if_neg (Ne.symm hs.1), List.map_cons, List.map_cons, ih hs.2, Tree.id_remove]
  induction sites generalizing w with
  | nil => rfl
  | cons s sites ih =>
    have hs : (w.remove s).children.map Tree.id = w.children.map Tree.id := by
      rw [Tree.children_remove]
      exact hone (h s List.mem_cons_self)
    rw [List.foldl_cons, ih, hs]
    intro s' hs'
    rw [hs]
    exact h s' (List.mem_cons_of_mem _ hs')

/-- What is not below a root is kept when the root is stamped. -/
theorem keeps_stamp (registry : Registry) (m : Marker) (hu : d.forest.find? q = some u)
    (ht : d.forest.find? i = some t) (hi : i ∉ d.descendants q) :
    Keeps d (stamp registry d q m) i := by
  obtain ⟨clones, -, -, hev⟩ := exists_evolves_graft registry m hu
  have hsites := sitesAt_subset hu m
  rw [mem_descendants_iff hu] at hi
  refine Script.keeps_of_children hev ht (value_graft ..) fun p w hw hiw => ?_
  obtain rfl := Forest.id_of_find? hw
  have hip : d.forest.parent? i = some w.id := Forest.parent?_eq_some_iff.mpr ⟨w, hw, hiw⟩
  -- The parent neither is the root nor stands below it, so none of its children is a site.
  have hwu : w.id ∉ u.ids := by
    intro hmem
    obtain ⟨v, hv⟩ := Tree.exists_find?_of_mem hmem
    have hwv := (Forest.find?_of_mem_ids hu hmem).trans hv
    rw [hw] at hwv
    obtain rfl := Option.some.inj hwv
    exact hi (Tree.idsAll_children_subset_of_mem_preorder (Tree.mem_of_find? hv).1
      (Tree.mem_idsAll_of_mem_map_id hiw))
  have hwq : w.id ≠ q := by
    rintro rfl
    rw [hw] at hu
    obtain rfl := Option.some.inj hu
    exact hwu w.id_mem_ids
  have hnone : ∀ s ∈ sitesAt d q m, s ∉ w.children.map Tree.id := by
    intro s hs hsw
    obtain ⟨p, hpu, hp⟩ := Forest.exists_parent_of_mem hu (hsites hs)
    rw [Forest.parent?_eq_some_iff.mpr ⟨w, hw, hsw⟩] at hp
    exact hwu (Option.some.inj hp ▸ hpu)
  rw [graft, Tree.map_id_children_update (Tree.id_withChildren _), map_id_foldl_remove hnone]
  rwa [Tree.id_foldl_remove]

/-! ## All roots -/

theorem crop_stampAll (registry : Registry) {l : List (NodeId × Marker)}
    (hl : ∀ x ∈ l, ∃ u, d.forest.find? x.1 = some u ∧ isMarked u.value)
    (hroot : ∀ x ∈ l, d.root ∉ d.descendants x.1) :
    crop (stampAll registry d l).forest.document = crop d.forest.document := by
  induction l generalizing d with
  | nil => rfl
  | cons x l ih =>
    obtain ⟨u, hu, hm⟩ := hl x List.mem_cons_self
    obtain ⟨clones, -, -, hev⟩ := exists_evolves_graft registry x.2 hu
    refine Eq.trans (ih (fun y hy => ?_) fun y hy => ?_)
      (crop_stamp registry x.2 hu hm (hroot x List.mem_cons_self))
    · -- stamping a root leaves the markers of the others alone
      obtain ⟨w, hw, hmw⟩ := hl y (List.mem_cons_of_mem _ hy)
      refine ⟨_, hev.forest.find?_some (Forest.lt_next_of_find? hw) hw, ?_⟩
      rwa [value_graft]
    · obtain ⟨w, hw, -⟩ := hl y (List.mem_cons_of_mem _ hy)
      have hsame : (stamp registry d x.1 x.2).root = d.root := hev.forest.root
      rw [hsame]
      exact not_mem_descendants_of_evolves hev hw
        (Forest.lt_next_of_find? d.forest.find?_root) (hroot y (List.mem_cons_of_mem _ hy))

theorem keeps_trans (h : Keeps d d' i) (h' : Keeps d' d'' i) : Keeps d d'' i :=
  ⟨h'.value.trans h.value, h'.parent.trans h.parent, h'.siblings.trans h.siblings⟩

theorem keeps_stampAll (registry : Registry) {l : List (NodeId × Marker)}
    (hl : ∀ x ∈ l, ∃ u, d.forest.find? x.1 = some u) (ht : d.forest.find? i = some t)
    (hi : ∀ x ∈ l, i ∉ d.descendants x.1) : Keeps d (stampAll registry d l) i := by
  induction l generalizing d t with
  | nil => exact ⟨rfl, rfl, rfl⟩
  | cons x l ih =>
    obtain ⟨u, hu⟩ := hl x List.mem_cons_self
    obtain ⟨clones, -, -, hev⟩ := exists_evolves_graft registry x.2 hu
    have hin := Forest.lt_next_of_find? ht
    refine keeps_trans (keeps_stamp registry x.2 hu ht (hi x List.mem_cons_self))
      (ih (fun y hy => ?_) (hev.forest.find?_some hin ht) fun y hy => ?_)
    · obtain ⟨w, hw⟩ := hl y (List.mem_cons_of_mem _ hy)
      exact ⟨_, hev.forest.find?_some (Forest.lt_next_of_find? hw) hw⟩
    · obtain ⟨w, hw⟩ := hl y (List.mem_cons_of_mem _ hy)
      exact not_mem_descendants_of_evolves hev hw hin (hi y (List.mem_cons_of_mem _ hy))

/-- **Stamping changes nothing but what is below the roots.** Without what is below its outermost
roots the document is the same before and after, and what is left of it then are the nodes that are
not below a root. Such a node, be it a root itself, keeps its value, its parent and its place among
its siblings. -/
theorem process_frame (registry : Registry) (d : Document) :
    crop (process registry d).forest.document = crop d.forest.document ∧
      (∀ k, k ∈ (crop d.forest.document).ids ↔
        k ∈ d.forest.document.ids ∧ ∀ x ∈ roots d, k ∉ d.descendants x.1) ∧
      ∀ i t, d.forest.find? i = some t → (∀ x ∈ roots d, i ∉ d.descendants x.1) →
        Keeps d (process registry d) i := by
  have hroots : ∀ x ∈ roots d, ∃ u, d.forest.find? x.1 = some u ∧ isMarked u.value := by
    intro x hx
    obtain ⟨u, -, hu⟩ := exists_isMarked_of_mem_roots hx
    exact ⟨u, hu⟩
  have hfound : ∀ x ∈ roots d, ∃ u, d.forest.find? x.1 = some u := by
    intro x hx
    obtain ⟨u, hu, -⟩ := hroots x hx
    exact ⟨u, hu⟩
  have hroot : ∀ x ∈ roots d, d.root ∉ d.descendants x.1 := by
    intro x hx
    obtain ⟨u, hin, hu, -⟩ := exists_isMarked_of_mem_roots hx
    rw [mem_descendants_iff hu]
    exact root_not_mem_of_mem_document hin
  exact ⟨crop_stampAll registry hroots hroot, fun _ => mem_ids_crop_iff d,
    fun i t ht hi => keeps_stampAll registry hfound ht hi⟩

/-- A list inside a list: a component root whose one site is around another root. -/
def nestedLists : Document :=
  let element (marker : String) (children : List Tree) : Tree :=
    .node 0 (.element ⟨.html "div", [⟨.plain marker, ""⟩]⟩) children
  ⟨.html, .ofTrees [element "data-v-component-rows"
    [element "data-v-row" [element "data-v-component-cells" [element "data-v-cell" []]]]]⟩

/-- The outer list keeps its place when it gains its rows. The rows do not show. -/
theorem process_frame_nestedLists :
    let registry := Registry.empty.set "rows" [[("cell", .string "a")], []]
    crop (process registry nestedLists).forest.document = crop nestedLists.forest.document ∧
      1 ∈ (crop nestedLists.forest.document).ids ∧ 2 ∉ (crop nestedLists.forest.document).ids ∧
      Keeps nestedLists (process registry nestedLists) 1 := by
  intro registry
  obtain ⟨hcrop, hshows, hkeeps⟩ := process_frame registry nestedLists
  obtain ⟨t, ht⟩ : ∃ t, nestedLists.forest.find? 1 = some t :=
    Option.isSome_iff_exists.mp (by decide)
  have hnot : ∀ x ∈ roots nestedLists, 1 ∉ nestedLists.descendants x.1 := by decide +kernel
  have hbelow : ¬ ∀ x ∈ roots nestedLists, 2 ∉ nestedLists.descendants x.1 := by decide +kernel
  exact ⟨hcrop, (hshows 1).mpr ⟨by decide, hnot⟩, fun h => hbelow ((hshows 2).mp h).2,
    hkeeps 1 t ht hnot⟩

end Stencil.Component

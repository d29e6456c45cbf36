import Stencil.Proofs.Editing
import Stencil.Proofs.Lineage

/-!
# What a pass over a detached tree leaves

Both dialects go through the nodes of a detached tree, in document order, and fill some of them: the
children of such a node give way to one new leaf. The list of nodes is taken before the first of them
is filled, so nodes are visited that are no longer in the tree. Whatever is done to those, the
outcome is as simple as if it had been written down at once (`refilled_foldl`): a node is left if no
node above it was to be filled; a node that was to be filled has its leaf and no other child; every
other node has the children that it had; and nothing outside of the tree has changed.
-/

namespace Stencil.Document
open Markup
open Markup.Tree (idsAll edited)

variable {d d' : Document} {i j top : NodeId} {t u : Tree} {content : NodeId → Option Value}
  {e : NodeId → Edit} {op : Document → NodeId → Document}

/-! ## Trees in a document -/

/-- The nodes of the tree at a node, in document order. -/
def subtree (d : Document) (i : NodeId) : List NodeId := i :: d.descendants i

theorem subtree_eq (h : d.forest.find? i = some t) : d.subtree i = t.ids := cons_descendants h

theorem mem_subtree_iff : j ∈ d.subtree i ↔ j = i ∨ d.Above i j := by
  rw [subtree, List.mem_cons, mem_descendants_iff_above]

/-- Whatever is not in the tree at `top` is as it was. -/
structure Untouched (d d' : Document) (top : NodeId) : Prop where
  mode : d'.mode = d.mode
  root : d'.root = d.root
  tree : ∀ i, d.Knows i → i ∉ d.subtree top → d'.forest.find? i = d.forest.find? i
  parent : ∀ i, d.Knows i → i ∉ d.subtree top → d'.parent? i = d.parent? i
  /-- The tree is still detached. -/
  detached : d'.parent? top = none

/-- The children of some nodes of the tree at `top` have given way to new leaves. -/
structure Refilled (d d' : Document) (top : NodeId) (content : NodeId → Option Value) : Prop where
  /-- A node is left if no node above it is filled. -/
  left : ∀ i ∈ d.subtree top,
    (i ∈ d'.subtree top ↔ ∀ j ∈ d.subtree top, d.Above j i → content j = none)
  /-- A filled node has one child, which is new and holds the content. -/
  filled : ∀ i ∈ d.subtree top, i ∈ d'.subtree top → ∀ v, content i = some v →
    ∃ k, ¬ d.Knows k ∧ d'.children i = [k] ∧ d'.forest.find? k = some (.node k v [])
  /-- Every other node has the children that it had. -/
  kept : ∀ i ∈ d.subtree top, i ∈ d'.subtree top → content i = none →
    d'.children i = d.children i
  /-- No node comes in from elsewhere. -/
  old : ∀ i ∈ d'.subtree top, d.Knows i → i ∈ d.subtree top

/-- Two trees of a detached tree and the rest of the forest share nothing. -/
theorem disjoint_of_not_mem_subtree (ht : d.forest.find? top = some t)
    (hroot : d.parent? top = none) (hu : d.forest.find? i = some u) (hi : i ∉ d.subtree top) :
    ∀ k ∈ t.ids, k ∉ u.ids := by
  rw [subtree_eq ht] at hi
  obtain ⟨htin, htid⟩ := Forest.find?_eq_some_iff.mp ht
  obtain ⟨huin, huid⟩ := Forest.find?_eq_some_iff.mp hu
  rcases Tree.nested_or_disjoint d.forest.distinct htin huin with htu | hut | h
  · -- The tree is not inside another one, because its root has no parent.
    have htop : top ∈ u.ids := htid ▸ List.mem_map_of_mem htu
    rw [Tree.ids_eq_cons, List.mem_cons] at htop
    rcases htop with htop | htop
    · rw [huid] at htop
      exact absurd (htop ▸ htid ▸ t.id_mem_ids) hi
    · exact absurd htop (Forest.not_mem_children_of_parent? hroot hu)
  · exact absurd (huid ▸ List.mem_map_of_mem hut) hi
  · exact h

/-- Steps that leave apart from a detached tree every tree as it was touch nothing else. -/
theorem untouched_of_evolves {G : Tree → Tree} (ht : d.forest.find? top = some t)
    (hroot : d.parent? top = none) (h : Evolves d.forest.next G d d')
    (hG : ∀ u : Tree, (∀ i ∈ t.ids, i ∉ u.ids) → G u = u) : Untouched d d' top := by
  have htree : ∀ i, d.Knows i → i ∉ d.subtree top → d'.forest.find? i = d.forest.find? i := by
    rintro i ⟨u, hu⟩ hi
    rw [hu, h.forest.find?_some (Forest.lt_next_of_find? hu) hu,
      hG u (disjoint_of_not_mem_subtree ht hroot hu hi)]
  refine ⟨h.mode, h.forest.root, htree, ?_,
    h.forest.parent?_eq_none (Forest.lt_next_of_find? ht) hroot⟩
  rintro i ⟨u, hu⟩ hi
  refine Option.ext fun p => ⟨h.forest.parent? i (Forest.lt_next_of_find? hu) p, fun hp => ?_⟩
  -- The parent of a node outside of the tree is outside of it too.
  obtain ⟨w, hw, hc⟩ := Forest.parent?_eq_some_iff.mp hp
  have hpt : p ∉ d.subtree top := by
    intro hpt
    have hiw : i ∈ w.ids := Tree.mem_ids_of_mem_children (Tree.mem_idsAll_of_mem_map_id hc)
    rw [subtree_eq ht] at hpt hi
    obtain ⟨w', hw'⟩ := Tree.exists_find?_of_mem hpt
    have hww' : w' = w :=
      Option.some.inj ((hw'.symm.trans (Forest.find?_of_mem_ids ht hpt).symm).trans hw)
    exact hi (Tree.ids_subset_of_mem_preorder (Tree.mem_of_find? hw').1 (hww' ▸ hiw))
  exact Forest.parent?_eq_some_iff.mpr ⟨w, (htree p ⟨w, hw⟩ hpt).trans hw, hc⟩

/-! ## A rewritten tree -/

section Rewritten
variable {E : NodeId → Edit} {v : Value} (ht : d.forest.find? top = some t)
  (hfresh : ∀ i, (E i).Fresh d.forest.next) (htop : d'.forest.find? top = some (t.rewrite E))
  (hleaf : ∀ i u, d.forest.find? i = some u →
    (E i u.value).2.map Tree.bare = (content i).map fun v => .node 0 v [])
include ht

theorem exists_find?_of_mem_subtree (hi : i ∈ d.subtree top) :
    ∃ u, t.find? i = some u ∧ d.forest.find? i = some u ∧ u.id = i := by
  rw [subtree_eq ht] at hi
  obtain ⟨u, hu⟩ := Tree.exists_find?_of_mem hi
  exact ⟨u, hu, (Forest.find?_of_mem_ids ht hi).trans hu, (Tree.mem_of_find? hu).2⟩

include hfresh htop

theorem find?_of_rewrite (hi : i ∈ d'.subtree top) (hu : t.find? i = some u) :
    d'.forest.find? i = some (u.rewrite E) := by
  rw [subtree_eq htop] at hi
  rw [Forest.find?_of_mem_ids htop hi]
  exact Tree.find?_rewrite_of_mem hfresh (Forest.nodup_of_find? ht)
    (fun i hi => Forest.lt_next ht hi) hu hi

include hleaf

theorem mem_subtree_rewrite_iff (hi : i ∈ d.subtree top) : i ∈ d'.subtree top ↔
    ∀ j ∈ d.subtree top, d.Above j i → content j = none := by
  have hnone : ∀ j u, d.forest.find? j = some u → ((E j u.value).2 = none ↔ content j = none) := by
    intro j u hu
    rw [← Option.map_eq_none_iff, hleaf j u hu, Option.map_eq_none_iff]
  rw [subtree_eq ht] at hi ⊢
  rw [subtree_eq htop, Tree.mem_ids_rewrite_iff hfresh (Forest.nodup_of_find? ht)
    (fun i hi => Forest.lt_next ht hi) hi]
  constructor
  · intro h j hj habove
    rw [← subtree_eq ht] at hj
    obtain ⟨w, hw, hwd, rfl⟩ := exists_find?_of_mem_subtree ht hj
    exact (hnone w.id w hwd).mp
      (h w (Tree.mem_of_find? hw).1 ((Forest.above_iff hwd).mp habove))
  · intro h w hwt hiw
    have hwd := Forest.find?_of_mem_preorder ht hwt
    exact (hnone w.id w hwd).mpr
      (h w.id (List.mem_map_of_mem hwt) ((Forest.above_iff hwd).mpr hiw))

theorem exists_child_of_rewrite (hi : i ∈ d.subtree top) (hi' : i ∈ d'.subtree top)
    (hv : content i = some v) :
    ∃ k, ¬ d.Knows k ∧ d'.children i = [k] ∧ d'.forest.find? k = some (.node k v []) := by
  obtain ⟨u, hu, hud, rfl⟩ := exists_find?_of_mem_subtree ht hi
  have hu' := find?_of_rewrite ht hfresh htop hi' hu
  obtain ⟨leaf, hl, hbare⟩ : ∃ leaf, (E u.id u.value).2 = some leaf ∧ leaf.bare = .node 0 v [] := by
    have h := hleaf u.id u hud
    rw [hv] at h
    exact Option.map_eq_some_iff.mp h
  have hchildren : (u.rewrite E).children = [leaf] := Tree.children_rewrite_of_some hl
  -- The leaf is the content with a new number.
  obtain ⟨k, w, cs⟩ := leaf
  obtain ⟨-, rfl, hcs⟩ := Tree.node.inj hbare
  obtain rfl : cs = [] := by
    cases cs with
    | nil => rfl
    | cons c cs => cases hcs
  refine ⟨k, ?_, ?_, ?_⟩
  · rintro ⟨w', hw'⟩
    exact Nat.not_lt.mpr (hfresh _ _ _ hl k (by simp)) (Forest.lt_next_of_find? hw')
  · rw [children, Forest.children_eq hu', hchildren]
    rfl
  · exact Forest.find?_of_mem_preorder hu'
      (Tree.mem_preorder_of_mem_children (hchildren ▸ List.mem_singleton_self _))

theorem children_of_rewrite (hi : i ∈ d.subtree top) (hi' : i ∈ d'.subtree top)
    (hnone : content i = none) : d'.children i = d.children i := by
  obtain ⟨u, hu, hud, rfl⟩ := exists_find?_of_mem_subtree ht hi
  have hkept : (E u.id u.value).2 = none := by
    rw [← Option.map_eq_none_iff, hleaf u.id u hud, hnone, Option.map_none]
  rw [children, children, Forest.children_eq (find?_of_rewrite ht hfresh htop hi' hu),
    Forest.children_eq hud, Tree.children_rewrite_of_none hkept, Tree.map_id_rewriteAll]

end Rewritten

/-! ## A pass -/

/-- **What a pass over a detached tree does.** The edit of a node says what becomes of its value, and
`content` what is put in the place of its children. -/
theorem refilled_foldl
    (hop : ∀ d' i, d'.mode = d.mode → Edits d'.forest.next i (e i) d' (op d' i))
    (htop : d.Knows top) (hroot : d.parent? top = none)
    (hcontent : ∀ i u, d.forest.find? i = some u →
      (e i u.value).2 = (content i).map fun v => .node 0 v []) :
    Untouched d ((d.subtree top).foldl op d) top ∧
      Refilled d ((d.subtree top).foldl op d) top content ∧
      ∀ i ∈ d.subtree top, i ∈ ((d.subtree top).foldl op d).subtree top →
        ((d.subtree top).foldl op d).forest.value? i =
          (d.forest.value? i).map fun v => (e i v).1 := by
  obtain ⟨t, ht⟩ := htop
  have hnodup := Forest.nodup_of_find? ht
  rw [subtree_eq ht]
  obtain ⟨E, hlike, hfresh, hev⟩ := exists_evolves_foldl hop hnodup rfl (Nat.le_refl _)
  have hG := Tree.foldl_update_ids hfresh hnodup fun i hi => Forest.lt_next ht hi
  generalize t.ids.foldl op d = d' at hev ⊢
  have htop' := hev.forest.find?_some (Forest.lt_next_of_find? ht) ht
  rw [hG] at htop'
  -- Apart from numbers the leaf of a node is its content.
  have hleaf : ∀ i u, d.forest.find? i = some u →
      (E i u.value).2.map Tree.bare = (content i).map fun v => .node 0 v [] := by
    intro i u hu
    rw [← (hlike i u.value).2, hcontent i u hu, Option.map_map]
    rfl
  rw [← subtree_eq ht]
  refine ⟨untouched_of_evolves ht hroot hev fun u hu => Tree.foldl_update_of_not_mem hu,
    ⟨?_, ?_, ?_, ?_⟩, ?_⟩
  · exact fun i hi => mem_subtree_rewrite_iff ht hfresh htop' hleaf hi
  · exact fun i hi hi' v hv => exists_child_of_rewrite ht hfresh htop' hleaf hi hi' hv
  · exact fun i hi hi' hnone => children_of_rewrite ht hfresh htop' hleaf hi hi' hnone
  · rintro i hi ⟨u, hu⟩
    rw [subtree_eq htop', ← hG] at hi
    rw [subtree_eq ht]
    exact hev.forest.mem_of_mem_image (Forest.lt_next_of_find? ht) ht hi
      (Forest.lt_next_of_find? hu)
  · intro i hi hi'
    obtain ⟨u, hu, hud, rfl⟩ := exists_find?_of_mem_subtree ht hi
    rw [Forest.value?, Forest.value?, find?_of_rewrite ht hfresh htop' hi' hu, hud,
      Option.map_some, Option.map_some, Option.map_some, Tree.value_rewrite,
      (hlike u.id u.value).1]

/-- If nothing is filled, the tree has the nodes that it had. -/
theorem Refilled.mem_subtree_iff_of_none (h : Refilled d d' top content)
    (hnone : ∀ i, content i = none) : i ∈ d'.subtree top ↔ i ∈ d.subtree top := by
  have hleft : ∀ i ∈ d.subtree top, i ∈ d'.subtree top := fun i hi =>
    (h.left i hi).mpr fun j _ _ => hnone j
  refine ⟨fun hi => ?_, hleft i⟩
  rcases mem_subtree_iff.mp hi with rfl | habove
  · exact List.mem_cons_self
  · -- Going down, each child was a child of the same node before.
    induction habove with
    | single hparent =>
      have htop : top ∈ d.subtree top := List.mem_cons_self
      have hchild := Forest.mem_children_iff.mpr hparent
      rw [← children, h.kept top htop (hleft top htop) (hnone top)] at hchild
      exact mem_subtree_iff.mpr (.inr (.single (Forest.mem_children_iff.mp hchild)))
    | @tail p c hp hparent ih =>
      have hpd := ih (mem_subtree_iff.mpr (.inr hp))
      have hchild := Forest.mem_children_iff.mpr hparent
      rw [← children, h.kept p hpd (hleft p hpd) (hnone p)] at hchild
      have hparent' := Forest.mem_children_iff.mp hchild
      rcases mem_subtree_iff.mp hpd with rfl | hpd
      · exact mem_subtree_iff.mpr (.inr (.single hparent'))
      · exact mem_subtree_iff.mpr (.inr (.tail hpd hparent'))

end Stencil.Document

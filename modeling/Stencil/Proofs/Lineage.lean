import Mathlib.Data.List.Nodup
import Mathlib.Logic.Relation
import Stencil.Document
import Stencil.Proofs.Markup.Evolution

/-!
# Parents, children and descendants

The parent of a node, the list of its children and the list of its descendants are three readings of
one forest, and they agree whatever is done to it: a node is among the children of its parent, once,
and of no other node (`mem_children_iff`, `nodup_children`); what is listed below a node is what has
it as an ancestor (`mem_descendants_iff_above`); no node is its own ancestor (`not_above_self`); and
every family stands in order in the list of descendants (`family_sublist`).

That nothing else can be is part of the type of forests. What a change does to the lists of children
is `Change.childrenOf`: it takes a node out of one list and puts it into another one, or empties a
list, and touches no other list (`children_change`).
-/

namespace Stencil

namespace Markup
open Markup.Tree (idsAll removeAll preorderAll withValue withChildren)

/-! ## In a tree -/

namespace Tree

variable {t u : Tree} {ts : List Tree} {i : NodeId}

theorem map_id_sublist (ts : List Tree) : (ts.map id).Sublist (idsAll ts) := by
  induction ts using listInduction with
  | nil => exact .slnil
  | cons k v cs ts _ ih =>
    rw [List.map_cons, id_node, idsAll_cons, ids_node, List.cons_append]
    exact (ih.trans (List.sublist_append_right _ _)).cons_cons k

/-- **In document order a parent comes before its children, and these come in their order.** -/
theorem family_sublist (h : u ∈ t.preorder) : (u.id :: u.children.map id).Sublist t.ids := by
  have hinside : u.ids.Sublist (idsAll [t]) := ids_sublist (by simpa using h)
  rw [idsAll_cons, idsAll_nil, List.append_nil, ids_eq_cons] at hinside
  exact ((map_id_sublist u.children).cons_cons u.id).trans hinside

theorem map_id_removeAll (i : NodeId) (ts : List Tree) :
    (removeAll i ts).map id = (ts.map id).filter (· != i) := by
  induction ts with
  | nil => rfl
  | cons t ts ih =>
    rw [removeAll, List.map_cons]
    by_cases hi : t.id = i
    · rw [if_pos hi, ih, List.filter_cons_of_neg (by simpa using hi)]
    · rw [if_neg hi, List.map_cons, id_remove, ih, List.filter_cons_of_pos (by simpa using hi)]

theorem map_id_children_update_withValue (g : Value → Value) (i : NodeId) (t : Tree) :
    (t.update i (withValue g)).children.map id = t.children.map id := by
  by_cases hi : t.id = i
  · subst hi
    rw [update_id]
    cases t
    rfl
  · exact map_id_children_update (id_withValue g) hi

end Tree

/-! ## In a forest -/

namespace Forest

variable {f : Forest} {i j p q c : NodeId} {t u : Tree}

theorem children_eq (h : f.find? p = some t) : f.children p = t.children.map Tree.id := by
  rw [children, h]

theorem children_of_find?_eq_none (h : f.find? p = none) : f.children p = [] := by
  rw [children, h]

/-- **A node is among the children of its parent and of no other node.** -/
theorem mem_children_iff : c ∈ f.children p ↔ f.parent? c = some p := by
  rw [parent?_eq_some_iff]
  constructor
  · intro hc
    cases ht : f.find? p with
    | none =>
      rw [children_of_find?_eq_none ht] at hc
      cases hc
    | some t => exact ⟨t, rfl, children_eq ht ▸ hc⟩
  · rintro ⟨t, ht, hc⟩
    rw [children_eq ht]
    exact hc

theorem nodup_children (f : Forest) (p : NodeId) : (f.children p).Nodup := by
  cases ht : f.find? p with
  | none =>
    rw [children_of_find?_eq_none ht]
    exact List.nodup_nil
  | some t =>
    have hnodup := nodup_of_find? ht
    rw [Tree.ids_eq_cons, List.nodup_cons] at hnodup
    rw [children_eq ht]
    exact hnodup.2.sublist (Tree.map_id_sublist t.children)

/-- The node `i` is an ancestor of `j`: its parent, or an ancestor of its parent. -/
def Above (f : Forest) (i j : NodeId) : Prop :=
  Relation.TransGen (fun p c => f.parent? c = some p) i j

/-- What stands in the trees of a list has their common parent above it. -/
theorem above_of_mem_idsAll {ts : List Tree} (hfound : ∀ u ∈ preorderAll ts, f.find? u.id = some u)
    (hparent : ∀ u ∈ ts, f.parent? u.id = some p) (hj : j ∈ idsAll ts) : f.Above p j := by
  induction ts using Tree.listInduction generalizing p with
  | nil => cases hj
  | cons k v cs ts ihc iht =>
    have hk : f.parent? k = some p := hparent (.node k v cs) List.mem_cons_self
    have hself : f.find? k = some (.node k v cs) := by
      refine hfound (.node k v cs) ?_
      rw [Tree.preorderAll_cons]
      exact List.mem_append_left _ (Tree.self_mem_preorder _)
    rw [Tree.idsAll_cons, Tree.ids_node, List.cons_append, List.mem_cons, List.mem_append] at hj
    rcases hj with rfl | hj | hj
    · exact .single hk
    · refine .head hk (ihc (fun u hu => hfound u ?_) (fun u hu => ?_) hj)
      · rw [Tree.preorderAll_cons, Tree.preorder_node]
        exact List.mem_cons_of_mem _ (List.mem_append_left _ hu)
      · exact parent?_eq_some_iff.mpr ⟨_, hself, List.mem_map_of_mem hu⟩
    · refine iht (fun u hu => hfound u ?_) (fun u hu => hparent u (List.mem_cons_of_mem _ hu)) hj
      rw [Tree.preorderAll_cons]
      exact List.mem_append_right _ hu

/-- **What stands below a node has it as an ancestor, and nothing else has.** -/
theorem above_iff (h : f.find? i = some t) : f.Above i j ↔ j ∈ idsAll t.children := by
  constructor
  · intro habove
    induction habove with
    | single hparent =>
      obtain ⟨u, hu, hc⟩ := parent?_eq_some_iff.mp hparent
      obtain rfl := Option.some.inj (h.symm.trans hu)
      exact Tree.mem_idsAll_of_mem_map_id hc
    | tail _ hparent ih =>
      -- the child of a node below stands below that node and so below `i`
      obtain ⟨u, hu, hc⟩ := parent?_eq_some_iff.mp hparent
      obtain ⟨w, hw⟩ := Tree.exists_find?_of_mem (Tree.mem_ids_of_mem_children ih)
      have hwu := (find?_of_mem_ids h (Tree.mem_ids_of_mem_children ih)).trans hw
      obtain rfl := Option.some.inj (hu.symm.trans hwu)
      exact Tree.idsAll_children_subset_of_mem_preorder (Tree.mem_of_find? hw).1
        (Tree.mem_idsAll_of_mem_map_id hc)
  · intro hj
    obtain ⟨k, v, cs⟩ := t
    obtain rfl := id_of_find? h
    refine above_of_mem_idsAll (fun u hu => ?_) (fun u hu => ?_) hj
    · exact find?_of_mem_preorder h (List.mem_cons_of_mem _ hu)
    · exact parent?_eq_some_iff.mpr ⟨_, h, List.mem_map_of_mem hu⟩

/-- A node that is above another one is known. -/
theorem Above.exists_find? (h : f.Above i j) : ∃ t, f.find? i = some t := by
  obtain ⟨c, hc, -⟩ := Relation.TransGen.head'_iff.mp h
  obtain ⟨t, ht, -⟩ := parent?_eq_some_iff.mp hc
  exact ⟨t, ht⟩

/-- **No node is its own ancestor.** -/
theorem not_above_self (f : Forest) (i : NodeId) : ¬ f.Above i i := by
  intro h
  obtain ⟨t, ht⟩ := h.exists_find?
  have hmem := (above_iff ht).mp h
  rw [← id_of_find? ht] at hmem
  exact Tree.not_mem_idsAll_children (nodup_of_find? ht) hmem

theorem mem_ids_iff (h : f.find? i = some t) : j ∈ t.ids ↔ j = i ∨ f.Above i j := by
  rw [Tree.ids_eq_cons, List.mem_cons, id_of_find? h, above_iff h]

/-! ## What becomes of the children -/

/-- The children of a node whose tree has changed are read off its image. -/
theorem children_of_find?_eq_map {g : Forest} {G : Tree → Tree} {k : List NodeId → List NodeId}
    (h : g.find? q = (f.find? q).map G) (hnone : f.find? q = none → k [] = [])
    (hG : ∀ w, w.id = q → (G w).children.map Tree.id = k (w.children.map Tree.id)) :
    g.children q = k (f.children q) := by
  cases hq : f.find? q with
  | none =>
    rw [hq, Option.map_none] at h
    rw [children_of_find?_eq_none h, children_of_find?_eq_none hq, hnone hq]
  | some w =>
    rw [hq, Option.map_some] at h
    rw [children_eq h, children_eq hq, hG w (id_of_find? hq)]

/-- An edit of one node changes the children of that node alone. -/
theorem children_of_find?_eq_update {g : Forest} {G : List Tree → List Tree}
    {k : List NodeId → List NodeId}
    (h : g.find? q = (f.find? q).map (Tree.update i (withChildren G)))
    (hi : ∃ t, f.find? i = some t) (hG : ∀ cs, (G cs).map Tree.id = k (cs.map Tree.id)) :
    g.children q = if q = i then k (f.children q) else f.children q := by
  by_cases hq : q = i
  · subst hq
    obtain ⟨t, ht⟩ := hi
    rw [if_pos rfl]
    refine children_of_find?_eq_map h (fun hnone => ?_) fun w hw => ?_
    · rw [ht] at hnone
      cases hnone
    · rw [← hw, Tree.update_id, Tree.children_withChildren, hG]
  · rw [if_neg hq]
    refine children_of_find?_eq_map (k := fun l => l) h (fun _ => rfl) fun w hw => ?_
    exact Tree.map_id_children_update (Tree.id_withChildren _) (hw ▸ hq)

theorem children_detach (f : Forest) (i q : NodeId) :
    (f.detach i).children q = (f.children q).filter (· != i) :=
  children_of_find?_eq_map (find?_detach f i q) (fun _ => rfl) fun w _ => by
    rw [Tree.children_remove, Tree.map_id_removeAll]

theorem children_clear (hi : f.find? i = some t) (q : NodeId) :
    (f.clear i).children q = if q = i then [] else f.children q :=
  children_of_find?_eq_update (k := fun _ => []) (find?_clear f i q) ⟨t, hi⟩ fun _ => rfl

theorem children_replaceChildren (hi : f.find? i = some t) (v : Value) (hq : q < f.next) :
    (f.replaceChildren i v).children q = if q = i then [f.next] else f.children q :=
  children_of_find?_eq_update (k := fun _ => [f.next])
    (find?_replaceChildren f i v (Nat.ne_of_lt hq)) ⟨t, hi⟩ fun _ => rfl

theorem children_append (hc : f.find? c = some t) (hp : f.find? p = some u) (hne : p ≠ c)
    (habove : ¬ f.Above c p) (q : NodeId) : (f.append p c).children q =
      (f.children q).filter (· != c) ++ if q = p then [c] else [] := by
  have hpt : p ∉ t.ids := by
    rw [mem_ids_iff hc]
    exact not_or.mpr ⟨hne, habove⟩
  refine children_of_find?_eq_map (k := fun l => l.filter (· != c) ++ if q = p then [c] else [])
    (find?_append hc hpt hp q) (fun hnone => ?_) fun w hw => ?_
  · have hqp : q ≠ p := by
      rintro rfl
      rw [hp] at hnone
      cases hnone
    rw [if_neg hqp]
    rfl
  · have hid : (w.remove c).id = q := (Tree.id_remove c w).trans hw
    by_cases hqp : q = p
    · subst hqp
      rw [if_pos rfl, ← hid, Tree.update_id, Tree.children_withChildren, Tree.children_remove,
        List.map_append, Tree.map_id_removeAll, List.map_singleton, id_of_find? hc]
    · rw [if_neg hqp, List.append_nil, Tree.map_id_children_update (Tree.id_withChildren _),
        Tree.children_remove, Tree.map_id_removeAll]
      rwa [hid]

theorem children_setValue (f : Forest) (i : NodeId) (g : Value → Value) (q : NodeId) :
    (f.setValue i g).children q = f.children q :=
  children_of_find?_eq_map (k := fun l => l) (find?_setValue f i q g) (fun _ => rfl) fun w _ => by
    rw [Tree.map_id_children_update_withValue]

theorem children_copy (f : Forest) (i : NodeId) (hq : q < f.next) :
    (f.copy i).1.children q = f.children q :=
  children_of_find?_eq_map (k := fun l => l) ((evolves_copy f i).find? q hq) (fun _ => rfl)
    fun _ _ => rfl

end Forest
end Markup

/-! ## In a document -/

open Markup

namespace Document

variable {d : Document}

/-- The children of a node. -/
def children (d : Document) (i : NodeId) : List NodeId := d.forest.children i

/-- Whether a node is there. -/
def Knows (d : Document) (i : NodeId) : Prop := ∃ t, d.forest.find? i = some t

/-- The node `i` is an ancestor of `j`. -/
def Above (d : Document) (i j : NodeId) : Prop :=
  Relation.TransGen (fun p c => d.parent? c = some p) i j

/-- What can be done to a document. -/
inductive Change where
  | copy (i : NodeId)
  | detach (i : NodeId)
  | clear (i : NodeId)
  | setText (i : NodeId) (text : String)
  | setCdata (i : NodeId) (text : String)
  | setAttribute (i : NodeId) (name value : String)
  | append (parent child : NodeId)

def change (d : Document) : Change → Document
  | .copy i => (d.copy i).1
  | .detach i => d.detach i
  | .clear i => d.clear i
  | .setText i text => d.setText i text
  | .setCdata i text => d.setCdata i text
  | .setAttribute i name value => d.setAttribute i name value
  | .append parent child => d.append parent child

def changeAll (d : Document) (changes : List Change) : Document := changes.foldl change d

/-- Whether a change is about nodes that are there, and makes no node its own ancestor. -/
def Change.Sound (d : Document) : Change → Prop
  | .copy i | .detach i | .clear i | .setText i _ | .setCdata i _ | .setAttribute i _ _ => d.Knows i
  | .append parent child =>
    d.Knows parent ∧ d.Knows child ∧ parent ≠ child ∧ ¬ d.Above child parent

/-- The children of a node that was there, after a change. -/
def Change.childrenOf (d : Document) (q : NodeId) : Change → List NodeId
  | .copy _ | .setAttribute _ _ _ => d.children q
  | .detach i => (d.children q).filter (· != i)
  | .clear i => if q = i then [] else d.children q
  | .setText i _ | .setCdata i _ => if q = i then [d.forest.next] else d.children q
  | .append parent child =>
    (d.children q).filter (· != child) ++ if q = parent then [child] else []

/-- **A change touches the lists of children that it is about and no other one.** -/
theorem children_change {c : Change} (hc : c.Sound d) {q : NodeId} (hq : d.Knows q) :
    (d.change c).children q = c.childrenOf d q := by
  obtain ⟨w, hw⟩ := hq
  have hlt : q < d.forest.next := Forest.lt_next_of_find? hw
  cases c with
  | copy i => exact Forest.children_copy d.forest i hlt
  | detach i => exact Forest.children_detach d.forest i q
  | clear i =>
    obtain ⟨t, ht⟩ := hc
    exact Forest.children_clear ht q
  | setText i text =>
    obtain ⟨t, ht⟩ := hc
    exact Forest.children_replaceChildren ht _ hlt
  | setCdata i text =>
    obtain ⟨t, ht⟩ := hc
    exact Forest.children_replaceChildren ht _ hlt
  | setAttribute i name value => exact Forest.children_setValue d.forest i _ q
  | append parent child =>
    obtain ⟨⟨u, hu⟩, ⟨t, ht⟩, hne, habove⟩ := hc
    exact Forest.children_append ht hu hne habove q

theorem descendants_eq {i : NodeId} {t : Tree} (h : d.forest.find? i = some t) :
    d.descendants i = Tree.idsAll t.children := by
  rw [descendants, treesBelow, h]
  rfl

theorem descendants_of_find?_eq_none {i : NodeId} (h : d.forest.find? i = none) :
    d.descendants i = [] := by
  rw [descendants, treesBelow, h]
  rfl

theorem nodup_descendants (d : Document) (i : NodeId) : (d.descendants i).Nodup := by
  cases ht : d.forest.find? i with
  | none =>
    rw [descendants_of_find?_eq_none ht]
    exact List.nodup_nil
  | some t =>
    have hnodup := Forest.nodup_of_find? ht
    rw [Tree.ids_eq_cons, List.nodup_cons] at hnodup
    rw [descendants_eq ht]
    exact hnodup.2

/-- **What is listed below a node is what has it as an ancestor.** -/
theorem mem_descendants_iff_above {i j : NodeId} : j ∈ d.descendants i ↔ d.Above i j := by
  cases ht : d.forest.find? i with
  | none =>
    rw [descendants_of_find?_eq_none ht]
    constructor
    · intro h
      cases h
    · intro h
      obtain ⟨t, hsome⟩ := Forest.Above.exists_find? h
      rw [ht] at hsome
      cases hsome
  | some t =>
    rw [descendants_eq ht]
    exact (Forest.above_iff ht).symm

/-- A family in the tree of a node stands in order in the list of what is below the node. -/
theorem family_sublist {i p : NodeId} (h : p = i ∨ p ∈ d.descendants i) :
    (p :: d.children p).Sublist (i :: d.descendants i) := by
  cases ht : d.forest.find? i with
  | none =>
    rw [descendants_of_find?_eq_none ht] at h ⊢
    obtain rfl : p = i := h.resolve_right (List.not_mem_nil)
    rw [children, Forest.children_of_find?_eq_none ht]
  | some t =>
    obtain rfl := Forest.id_of_find? ht
    rw [descendants_eq ht, ← Tree.ids_eq_cons]
    have hp : p ∈ t.ids := by
      rw [Tree.ids_eq_cons, List.mem_cons, ← descendants_eq ht]
      exact h
    obtain ⟨u, hu⟩ := Tree.exists_find?_of_mem hp
    obtain ⟨hin, rfl⟩ := Tree.mem_of_find? hu
    rw [children, Forest.children_eq (Forest.find?_of_mem_preorder ht hin)]
    exact Tree.family_sublist hin

/-! ## After any changes -/

/-- **A document stays a forest.** Whatever was done to it: a node is once among the children of its
parent and not among those of another node; no node is its own ancestor; the descendants of a node
are those that have it as an ancestor, each once, each parent before its children and these in their
order. And the next change, if it makes no node its own ancestor, touches the lists of children that
it is about and no other one. -/
theorem forest_changeAll (d : Document) (changes : List Change) :
    let d' := d.changeAll changes
    (∀ p c, (c ∈ d'.children p ↔ d'.parent? c = some p) ∧
      (d'.children p).count c = if d'.parent? c = some p then 1 else 0) ∧
    (∀ i, ¬ d'.Above i i) ∧
    (∀ i, (d'.descendants i).Nodup ∧ (∀ j, j ∈ d'.descendants i ↔ d'.Above i j) ∧
      ∀ p, p = i ∨ p ∈ d'.descendants i →
        (p :: d'.children p).Sublist (i :: d'.descendants i)) ∧
    ∀ c : Change, c.Sound d' → ∀ q, d'.Knows q → (d'.change c).children q = c.childrenOf d' q := by
  intro d'
  refine ⟨fun p c => ?_, fun i => ?_, fun i => ?_, fun c hc q hq => children_change hc hq⟩
  · have hmem : c ∈ d'.children p ↔ d'.parent? c = some p := Forest.mem_children_iff
    refine ⟨hmem, ?_⟩
    by_cases hparent : d'.parent? c = some p
    · rw [if_pos hparent]
      exact List.count_eq_one_of_mem (Forest.nodup_children d'.forest p) (hmem.mpr hparent)
    · rw [if_neg hparent]
      exact List.count_eq_zero_of_not_mem fun hc => hparent (hmem.mp hc)
  · exact Forest.not_above_self d'.forest i
  · exact ⟨d'.nodup_descendants i, fun j => mem_descendants_iff_above,
      fun p hp => family_sublist hp⟩

/-- An element with two children. -/
def twins : Document :=
  let element (name : String) (children : List Tree) : Tree :=
    .node 0 (.element ⟨.plain name, []⟩) children
  ⟨.xml, .ofTrees [element "a" [element "b" [], element "c" []]]⟩

/-- A copy of the first child comes below the second one, and the first one follows it there. -/
theorem forest_changeAll_twins :
    let d' := twins.changeAll [.copy 2, .append 3 4, .detach 2]
    (d'.children 3).count 4 = 1 ∧ d'.Above 1 4 ∧ ¬ d'.Above 3 3 ∧
      (3 :: d'.children 3).Sublist (1 :: d'.descendants 1) ∧
      (d'.change (.append 3 2)).children 3 = [4, 2] := by
  intro d'
  obtain ⟨hchildren, hself, hbelow, hchange⟩ :=
    forest_changeAll twins [.copy 2, .append 3 4, .detach 2]
  have hparent : d'.parent? 4 = some 3 := by decide +kernel
  have habove : ¬ d'.Above 2 3 := by
    rw [← (hbelow 2).2.1]
    decide +kernel
  have hknows : ∀ i, (d'.forest.find? i).isSome → d'.Knows i := fun i hi =>
    Option.isSome_iff_exists.mp hi
  have hthree : d'.Knows 3 := hknows 3 (by decide +kernel)
  refine ⟨?_, ?_, hself 3, (hbelow 1).2.2 3 (.inr (by decide +kernel)), ?_⟩
  · rw [(hchildren 3 4).2, if_pos hparent]
  · rw [← (hbelow 1).2.1]
    decide +kernel
  · rw [hchange (.append 3 2) ⟨hthree, hknows 2 (by decide +kernel), by decide, habove⟩ 3 hthree]
    decide +kernel

end Document
end Stencil

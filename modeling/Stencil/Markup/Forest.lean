import Stencil.Markup.Numbering

/-!
# Forests

A `Forest` holds the tree of a document and the trees that are detached from it. Moving a node takes
it with everything below it: `detach` makes it a detached tree of its own, `append` makes it the
last child of another node. A copy is a detached tree with numbers that were never used before.

A number names one node of a forest: that none stands twice and that the unused ones are unused is
part of the type. So a node has at most one parent and is not below itself, whatever is done. The
number of the document never changes; its node is a node like the others and can be moved.
-/

namespace Stencil.Markup
open Markup.Tree (idsAll findIn? removeAll updateAll withValue withChildren)

/-- Trees, one of which holds the document. -/
structure Forest where
  trees : List Tree
  root : NodeId
  next : NodeId
  /-- No number stands twice. -/
  distinct : (idsAll trees).Nodup
  /-- Numbers from `next` on are unused. -/
  bounded : ∀ i ∈ idsAll trees, i < next
  /-- The document is there. -/
  rooted : root ∈ idsAll trees
  deriving Repr

namespace Forest

/-- An empty document, with number zero. -/
def empty : Forest := ⟨[.node 0 .document []], 0, 1, by simp, by simp, by simp⟩

instance : Inhabited Forest := ⟨empty⟩

/-- The tree rooted at a node. -/
def find? (f : Forest) (i : NodeId) : Option Tree := Tree.findIn? i f.trees

/-- The tree of the document. -/
def document (f : Forest) : Tree := (f.find? f.root).getD (.node f.root .document [])

/-- The trees beside the document. -/
def detached (f : Forest) : List Tree := f.trees.filter (·.id != f.root)

/-- The value of a node. -/
def value? (f : Forest) (i : NodeId) : Option Value := (f.find? i).map Tree.value

/-- The children of a node. -/
def children (f : Forest) (i : NodeId) : List NodeId :=
  match f.find? i with
  | some t => t.children.map Tree.id
  | none => []

/-- The node whose child `i` is. -/
def parent? (f : Forest) (i : NodeId) : Option NodeId :=
  f.trees.findSome? (·.parent? i)

/-! ## Parents -/

theorem parent?_eq_find? (f : Forest) (i : NodeId) : f.parent? i =
    ((Tree.preorderAll f.trees).find? fun t => t.children.any (·.id == i)).map Tree.id := by
  rw [parent?]
  induction f.trees with
  | nil => rfl
  | cons t ts ih =>
    rw [List.findSome?_cons, Tree.preorderAll_cons, List.find?_append, ih, Tree.parent?]
    cases t.preorder.find? fun u => u.children.any (·.id == i) <;> rfl

theorem exists_parent (f : Forest) {i p : NodeId} (h : f.parent? i = some p) :
    ∃ t ∈ Tree.preorderAll f.trees, t.id = p ∧ i ∈ t.children.map Tree.id := by
  rw [parent?_eq_find?, Option.map_eq_some_iff] at h
  obtain ⟨t, ht, hp⟩ := h
  refine ⟨t, List.mem_of_find?_eq_some ht, hp, ?_⟩
  have := List.find?_some ht
  simpa using this

/-! ## Changing -/

/-- The same nodes in other trees. -/
def rearranged (f : Forest) (trees : List Tree) (h : (idsAll trees).Perm (idsAll f.trees)) :
    Forest :=
  { f with
    trees
    distinct := h.nodup_iff.mpr f.distinct
    bounded := fun i hi => f.bounded i (h.mem_iff.mp hi)
    rooted := h.mem_iff.mpr f.rooted }

/-- Add a detached tree whose numbers were unused so far; numbers from `free` on still are. -/
def adding (f : Forest) (t : Tree) (free : NodeId) (hd : t.ids.Nodup)
    (hb : ∀ i ∈ t.ids, f.next ≤ i ∧ i < free) : Forest :=
  have hids : idsAll (f.trees ++ [t]) = idsAll f.trees ++ t.ids := by simp
  { trees := f.trees ++ [t]
    root := f.root
    next := free
    distinct := hids ▸ List.nodup_append.mpr ⟨f.distinct, hd, fun i hi j hj h =>
      Nat.lt_irrefl _ (Nat.lt_of_lt_of_le (h ▸ f.bounded i hi) (hb j hj).1)⟩
    bounded := by
      intro i hi
      rcases List.mem_append.mp (hids ▸ hi) with hi | hi
      · obtain ⟨h1, h2⟩ := hb t.id t.id_mem_ids
        exact Nat.lt_trans (f.bounded i hi) (Nat.lt_of_le_of_lt h1 h2)
      · exact (hb i hi).2
    rooted := hids ▸ List.mem_append_left _ f.rooted }

/-- Add a new detached node without children. -/
def create (f : Forest) (value : Value) : Forest × NodeId :=
  (f.adding (.node f.next value []) (f.next + 1) (by simp) (by simp), f.next)

/-- Add a detached copy of the tree rooted at a node. An unknown node is its own copy. -/
def copy (f : Forest) (i : NodeId) : Forest × NodeId :=
  match f.find? i with
  | none => (f, i)
  | some t =>
    (f.adding (t.relabel f.next).1 (t.relabel f.next).2 (t.nodup_ids_relabel f.next)
      (t.mem_ids_relabel f.next), f.next)

theorem perm_remove (f : Forest) {i : NodeId} {t : Tree} (ht : f.find? i = some t) :
    (t.ids ++ idsAll (removeAll i f.trees)).Perm (idsAll f.trees) :=
  Tree.perm_removeAll f.distinct ht

/-- Make a node and all below it a detached tree. A node without parent stays as it is. -/
def detach (f : Forest) (i : NodeId) : Forest :=
  match f.parent? i, ht : f.find? i with
  | some _, some t =>
    f.rearranged (removeAll i f.trees ++ [t]) <| by
      rw [Tree.idsAll_append, Tree.idsAll_cons, Tree.idsAll_nil, List.append_nil]
      exact List.perm_append_comm.trans (f.perm_remove ht)
  | _, _ => f

/-- Change the children of the node `p` once `t` has been taken out of the forest; `t` is among the
new children. -/
theorem perm_move (f : Forest) {i p : NodeId} {t : Tree} {g : List Tree → List Tree}
    (ht : f.find? i = some t)
    (hg : ∃ u, findIn? p (removeAll i f.trees) = some u ∧
      (idsAll (g u.children)).Perm (t.ids ++ idsAll u.children)) :
    (idsAll (updateAll p (withChildren g) (removeAll i f.trees))).Perm (idsAll f.trees) := by
  obtain ⟨u, hu, hg⟩ := hg
  have hp := f.perm_remove ht
  have hd := (List.nodup_append.mp (hp.nodup_iff.mpr f.distinct)).2.1
  exact (Tree.perm_updateAll_withChildren hd hu hg).trans hp

theorem find?_remove (f : Forest) {i j : NodeId} {t : Tree} (ht : f.find? i = some t)
    (hj : j ∉ t.ids) : findIn? j (removeAll i f.trees) = (f.find? j).map (Tree.remove i) :=
  Tree.findIn?_removeAll f.distinct ht hj

/-- Make the node `child` the last child of `parent`. Nothing happens if one of them is unknown or
if `parent` is inside `child`. -/
def append (f : Forest) (parent child : NodeId) : Forest :=
  match ht : f.find? child with
  | none => f
  | some t =>
    if h : t.holds parent || (f.find? parent).isNone then f
    else
      f.rearranged (updateAll parent (withChildren (· ++ [t])) (removeAll child f.trees)) <| by
        simp only [Bool.or_eq_true, Tree.holds_iff, not_or, Option.isNone_iff_eq_none] at h
        obtain ⟨u, hu⟩ := Option.ne_none_iff_exists'.mp h.2
        refine f.perm_move ht ⟨u.remove child, ?_, by simpa using List.perm_append_comm⟩
        rw [f.find?_remove ht h.1, hu, Option.map_some]

/-- Trees with a new one directly before its sibling. -/
def before (sibling : NodeId) (t : Tree) : List Tree → List Tree
  | [] => []
  | c :: cs => if c.id = sibling then t :: c :: cs else c :: before sibling t cs

theorem perm_before {sibling : NodeId} (t : Tree) {cs : List Tree}
    (h : sibling ∈ cs.map Tree.id) :
    (idsAll (before sibling t cs)).Perm (t.ids ++ idsAll cs) := by
  induction cs with
  | nil => simp at h
  | cons c cs ih =>
    rw [before]
    split
    · simp
    · next hne =>
      have hcs := (List.mem_cons.mp h).resolve_left (Ne.symm hne)
      simp only [Tree.idsAll_cons]
      exact ((ih hcs).append_left c.ids).trans (List.perm_append_comm_assoc _ _ _)

/-- Put the node `i` directly before its new sibling. Nothing happens if one of them is unknown,
if the sibling has no parent, or if the sibling is inside `i`. -/
def insertBefore (f : Forest) (sibling i : NodeId) : Forest :=
  match ht : f.find? i, hp : f.parent? sibling with
  | some t, some parent =>
    if h : t.holds sibling then f
    else
      f.rearranged (updateAll parent (withChildren (before sibling t)) (removeAll i f.trees)) <| by
        rw [Tree.holds_iff] at h
        obtain ⟨u, hu, hup, hs⟩ := f.exists_parent hp
        have hparent : parent ∉ t.ids := by
          intro hm
          obtain ⟨w, hw, hwp⟩ := List.mem_map.mp hm
          have hwf := Tree.preorder_subset (Tree.mem_of_findIn? ht).1 hw
          obtain rfl := Tree.eq_of_id_eq f.distinct hwf hu (hwp.trans hup.symm)
          exact h (Tree.childIds_subset hw hs)
        have hfind : f.find? parent = some u := (Tree.findIn?_eq_some_iff f.distinct).mpr ⟨hu, hup⟩
        refine f.perm_move ht ⟨u.remove i, ?_, perm_before t ?_⟩
        · rw [f.find?_remove ht hparent, hfind, Option.map_some]
        · rw [Tree.children_remove]
          exact Tree.mem_map_id_removeAll hs fun he => h (he ▸ Tree.id_of_findIn? ht ▸ t.id_mem_ids)
  | _, _ => f

/-- Detach every child of a node. -/
def clear (f : Forest) (i : NodeId) : Forest :=
  (f.children i).foldl detach f

/-- Change the value of a node. -/
def setValue (f : Forest) (i : NodeId) (g : Value → Value) : Forest :=
  f.rearranged (updateAll i (withValue g) f.trees) <|
    .of_eq (Tree.idsAll_updateAll_withValue i g f.trees)

/-- Replace the children of a node by one new node; the old children are detached. -/
def replaceChildren (f : Forest) (i : NodeId) (value : Value) : Forest :=
  let (g, child) := (f.clear i).create value
  g.append i child

/-- The forest whose document holds copies of these trees. -/
def ofTrees (trees : List Tree) : Forest :=
  { trees := [.node 0 .document (Tree.relabelAll trees 1).1]
    root := 0
    next := (Tree.relabelAll trees 1).2
    distinct := by
      simp [Tree.idsAll_relabelAll, List.mem_range'_1, List.nodup_range']
    bounded := by
      simp only [Tree.idsAll_cons, Tree.ids_node, Tree.idsAll_relabelAll, Tree.relabelAll_snd,
        Tree.idsAll_nil, List.append_nil, List.mem_cons, List.mem_range'_1]
      rintro i (rfl | ⟨-, hi⟩)
      · exact Nat.lt_add_right _ Nat.zero_lt_one
      · exact hi
    rooted := by simp }

@[simp] theorem document_ofTrees (trees : List Tree) :
    (ofTrees trees).document = .node 0 .document (Tree.relabelAll trees 1).1 := rfl

@[simp] theorem detached_ofTrees (trees : List Tree) : (ofTrees trees).detached = [] := rfl

end Forest

end Stencil.Markup

import Stencil.Proofs.Markup.Forest

/-!
# What all values of a forest share

A property that holds of every value of a forest survives every operation that brings no value
without it: moving nodes brings none, a new node brings one, and changing a value brings its image.
-/

namespace Stencil.Markup

variable {P : Value → Prop} {v : Value} {ts us : List Tree} {t : Tree} {i j p : NodeId}

/-! ## In trees -/

namespace Tree

/-- All values in a list of trees have the property. -/
def AllValues (P : Value → Prop) (ts : List Tree) : Prop := ∀ t ∈ preorderAll ts, P t.value

@[simp] theorem allValues_nil : AllValues P [] := by
  intro t ht
  cases ht

@[simp] theorem allValues_cons_node (i : NodeId) (v : Value) (cs ts : List Tree) :
    AllValues P (node i v cs :: ts) ↔ P v ∧ AllValues P cs ∧ AllValues P ts := by
  simp only [AllValues, preorderAll_cons, preorder_node, List.cons_append, List.mem_cons,
    List.mem_append, value_node, or_imp, forall_and, forall_eq]

theorem allValues_append : AllValues P (ts ++ us) ↔ AllValues P ts ∧ AllValues P us := by
  induction ts with
  | nil => simp
  | cons t ts ih =>
    obtain ⟨i, v, cs⟩ := t
    rw [List.cons_append, allValues_cons_node, allValues_cons_node, ih, and_assoc, and_assoc]

theorem allValues_reverse : AllValues P ts.reverse ↔ AllValues P ts := by
  induction ts with
  | nil => rfl
  | cons t ts ih =>
    rw [List.reverse_cons, allValues_append, ih, and_comm, ← allValues_append,
      List.singleton_append]

/-- A tree inside the trees of a list has no value that they do not have. -/
theorem AllValues.of_mem (h : AllValues P ts) (ht : t ∈ preorderAll ts) : AllValues P [t] := by
  intro u hu
  rw [preorderAll_cons, preorderAll_nil, List.append_nil] at hu
  exact h u (preorder_subset ht hu)

theorem AllValues.removeAll (h : AllValues P ts) (i : NodeId) : AllValues P (removeAll i ts) := by
  induction ts using listInduction with
  | nil => exact h
  | cons j v cs ts ihc iht =>
    rw [allValues_cons_node] at h
    rw [removeAll_cons_node]
    split
    · exact iht h.2.2
    · rw [allValues_cons_node]
      exact ⟨h.1, ihc h.2.1, iht h.2.2⟩

theorem AllValues.updateAll {g : Tree → Tree} (h : AllValues P ts)
    (hg : ∀ u, AllValues P [u] → AllValues P [g u]) (i : NodeId) :
    AllValues P (updateAll i g ts) := by
  induction ts using listInduction with
  | nil => exact h
  | cons j v cs ts ihc iht =>
    rw [allValues_cons_node] at h
    rw [updateAll_cons_node, ← List.singleton_append, allValues_append]
    refine ⟨?_, iht h.2.2⟩
    split
    · exact hg _ ((allValues_cons_node j v cs []).mpr ⟨h.1, h.2.1, allValues_nil⟩)
    · exact (allValues_cons_node j v _ []).mpr ⟨h.1, ihc h.2.1, allValues_nil⟩

theorem AllValues.withChildren {g : List Tree → List Tree}
    (hg : ∀ cs, AllValues P cs → AllValues P (g cs)) (u : Tree) (h : AllValues P [u]) :
    AllValues P [u.withChildren g] := by
  obtain ⟨j, v, cs⟩ := u
  rw [allValues_cons_node] at h
  exact (allValues_cons_node j v _ []).mpr ⟨h.1, hg cs h.2.1, allValues_nil⟩

theorem AllValues.withValue {g : Value → Value} (hg : ∀ v, P v → P (g v)) (u : Tree)
    (h : AllValues P [u]) : AllValues P [u.withValue g] := by
  obtain ⟨j, v, cs⟩ := u
  rw [allValues_cons_node] at h
  exact (allValues_cons_node j _ cs []).mpr ⟨hg v h.1, h.2⟩

theorem allValues_relabelAll (ts : List Tree) (n : NodeId) :
    AllValues P (relabelAll ts n).1 ↔ AllValues P ts := by
  induction ts using listInduction generalizing n with
  | nil => rfl
  | cons i v cs ts ihc iht =>
    rw [relabelAll_cons_node, allValues_cons_node, allValues_cons_node, ihc, iht]

end Tree

/-! ## In a forest -/

namespace Forest
open Markup.Tree (AllValues allValues_nil allValues_append allValues_cons_node)

variable {f : Forest}

/-- All values of a forest have the property. -/
def AllValues (P : Value → Prop) (f : Forest) : Prop := Tree.AllValues P f.trees

theorem AllValues.of_find? (h : f.AllValues P) (ht : f.find? i = some t) : Tree.AllValues P [t] :=
  Tree.AllValues.of_mem h (find?_eq_some_iff.mp ht).1

/-- The value at a node is one of the values of the forest. -/
theorem AllValues.of_value? (h : f.AllValues P) (hv : f.value? i = some v) : P v := by
  obtain ⟨t, ht, rfl⟩ := Option.map_eq_some_iff.mp hv
  exact h t (find?_eq_some_iff.mp ht).1

theorem allValues_empty (h : P .document) : empty.AllValues P :=
  (allValues_cons_node 0 .document [] []).mpr ⟨h, allValues_nil, allValues_nil⟩

theorem AllValues.create (h : f.AllValues P) (hv : P v) : (f.create v).1.AllValues P :=
  allValues_append.mpr ⟨h, (allValues_cons_node f.next v [] []).mpr
    ⟨hv, allValues_nil, allValues_nil⟩⟩

theorem AllValues.detach (h : f.AllValues P) (i : NodeId) : (f.detach i).AllValues P := by
  cases hp : f.parent? i with
  | none =>
    rw [detach_of_parent?_eq_none hp]
    exact h
  | some p =>
    obtain ⟨w, hw, hi⟩ := parent?_eq_some_iff.mp hp
    obtain ⟨t, ht, rfl⟩ := List.mem_map.mp hi
    have hfind := find?_of_mem_preorder hw (Tree.mem_preorder_of_mem_children ht)
    rw [AllValues, trees_detach hp hfind, allValues_append]
    exact ⟨Tree.AllValues.removeAll h t.id, h.of_find? hfind⟩

theorem AllValues.append (h : f.AllValues P) (parent child : NodeId) :
    (f.append parent child).AllValues P := by
  unfold Forest.append
  split
  · exact h
  · next t ht =>
    split
    · exact h
    · refine (Tree.AllValues.removeAll h child).updateAll (fun u hu => ?_) parent
      exact .withChildren (fun cs hcs => allValues_append.mpr ⟨hcs, h.of_find? ht⟩) u hu

theorem allValues_before {sibling : NodeId} {cs : List Tree} (ht : Tree.AllValues P [t])
    (h : Tree.AllValues P cs) : Tree.AllValues P (before sibling t cs) := by
  induction cs with
  | nil => exact h
  | cons c cs ih =>
    obtain ⟨hc, hcs⟩ := allValues_append.mp (show Tree.AllValues P ([c] ++ cs) from h)
    rw [before]
    split
    · exact allValues_append.mpr ⟨ht, h⟩
    · exact allValues_append.mpr ⟨hc, ih hcs⟩

theorem AllValues.insertBefore (h : f.AllValues P) (sibling i : NodeId) :
    (f.insertBefore sibling i).AllValues P := by
  unfold Forest.insertBefore
  split
  · next t parent ht hp =>
    split
    · exact h
    · refine (Tree.AllValues.removeAll h i).updateAll (fun u hu => ?_) parent
      exact .withChildren (fun cs hcs => allValues_before (h.of_find? ht) hcs) u hu
  · exact h

theorem AllValues.setValue {g : Value → Value} (h : f.AllValues P) (hg : ∀ v, P v → P (g v))
    (i : NodeId) : (f.setValue i g).AllValues P :=
  Tree.AllValues.updateAll h (Tree.AllValues.withValue hg) i

theorem AllValues.ofTrees (hdocument : P .document) (h : Tree.AllValues P ts) :
    (ofTrees ts).AllValues P :=
  (allValues_cons_node 0 .document _ []).mpr
    ⟨hdocument, (Tree.allValues_relabelAll ts 1).mpr h, allValues_nil⟩

end Forest

end Stencil.Markup

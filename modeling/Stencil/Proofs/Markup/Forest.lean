import Stencil.Markup.Forest
import Stencil.Proofs.Markup.Tree

/-!
# What the operations of a forest do to its trees

`Forest.find?` is the view of a forest under which its operations are read: what is found at a node
afterwards is what was found there before, changed at one node of it or rid of one tree. Everything
that was found holds this at once, the document and the detached trees alike.
-/

namespace Stencil.Markup
open Markup.Tree (idsAll findIn? removeAll updateAll withValue withChildren)

namespace Forest

variable {f : Forest} {i j p : NodeId} {t u : Tree}

/-! ## Finding -/

theorem find?_eq_some_iff : f.find? i = some t ↔ t ∈ Tree.preorderAll f.trees ∧ t.id = i :=
  Tree.findIn?_eq_some_iff f.distinct

theorem id_of_find? (h : f.find? i = some t) : t.id = i := Tree.id_of_findIn? h

theorem nodup_of_find? (h : f.find? i = some t) : t.ids.Nodup := Tree.nodup_of_findIn? f.distinct h

theorem find?_root (f : Forest) : f.find? f.root = some f.document := by
  obtain ⟨t, ht⟩ := Option.isSome_iff_exists.mp (Tree.isSome_findIn?_iff.mpr f.rooted)
  have hfind : f.find? f.root = some t := ht
  rw [document, hfind, Option.getD_some]

@[simp] theorem id_document (f : Forest) : f.document.id = f.root := id_of_find? f.find?_root

theorem find?_document (f : Forest) : f.find? f.document.id = some f.document := by
  rw [id_document, find?_root]

/-- The document is known by the tree that is found at its node. -/
theorem document_eq (h : f.find? f.root = some t) : f.document = t :=
  Option.some.inj (f.find?_root.symm.trans h)

/-- What stands inside the tree at a node is found under its own number. -/
theorem find?_of_mem_preorder (h : f.find? i = some t) (hu : u ∈ t.preorder) :
    f.find? u.id = some u :=
  find?_eq_some_iff.mpr ⟨Tree.preorder_subset (find?_eq_some_iff.mp h).1 hu, rfl⟩

theorem lt_next (h : f.find? i = some t) (hj : j ∈ t.ids) : j < f.next :=
  f.bounded j (Tree.ids_subset (find?_eq_some_iff.mp h).1 hj)

theorem lt_next_of_find? (h : f.find? i = some t) : i < f.next :=
  lt_next h (id_of_find? h ▸ t.id_mem_ids)

theorem document_lt_next (f : Forest) : f.document.id < f.next := lt_next_of_find? f.find?_document

theorem find?_eq_none_iff : f.find? i = none ↔ i ∉ idsAll f.trees := by
  rw [find?, ← Tree.isSome_findIn?_iff, Option.not_isSome_iff_eq_none]

theorem find?_of_next_le (h : f.next ≤ i) : f.find? i = none :=
  find?_eq_none_iff.mpr fun hi => Nat.not_lt.mpr h (f.bounded i hi)

/-! ## Parents -/

/-- **The parent of a node is the node among whose children it is.** -/
theorem parent?_eq_some_iff :
    f.parent? i = some p ↔ ∃ t, f.find? p = some t ∧ i ∈ t.children.map Tree.id := by
  constructor
  · intro h
    obtain ⟨t, ht, hp, hi⟩ := f.exists_parent h
    exact ⟨t, find?_eq_some_iff.mpr ⟨ht, hp⟩, hi⟩
  · rintro ⟨t, ht, hi⟩
    obtain ⟨htm, rfl⟩ := find?_eq_some_iff.mp ht
    have hd := (Tree.perm_children f.trees).nodup_iff.mpr f.distinct
    rw [parent?_eq_find?, Tree.find?_parent (List.nodup_append.mp hd).2.1 htm hi, Option.map_some]

/-- The parent of a node below another one is that one or below it too. -/
theorem exists_parent_of_mem (h : f.find? j = some t) (hi : i ∈ idsAll t.children) :
    ∃ p ∈ t.ids, f.parent? i = some p := by
  obtain ⟨k, v, cs⟩ := t
  have hp := (Tree.perm_children cs).mem_iff.mpr hi
  rcases List.mem_append.mp hp with hc | hc
  · exact ⟨j, id_of_find? h ▸ Tree.id_mem_ids _, parent?_eq_some_iff.mpr ⟨_, h, hc⟩⟩
  · obtain ⟨u, hu, hc⟩ := List.mem_flatMap.mp hc
    have hum : u ∈ (Tree.node k v cs).preorder := List.mem_cons_of_mem _ hu
    exact ⟨u.id, List.mem_map_of_mem hum,
      parent?_eq_some_iff.mpr ⟨u, find?_of_mem_preorder h hum, hc⟩⟩

/-- A tree whose node has no parent is the document or detached. -/
theorem mem_trees_of_parent?_eq_none (ht : f.find? i = some t) (hp : f.parent? i = none) :
    t ∈ f.trees := by
  obtain ⟨htm, rfl⟩ := find?_eq_some_iff.mp ht
  have hid : t.id ∈ idsAll f.trees := List.mem_map_of_mem htm
  rcases List.mem_append.mp ((Tree.perm_children f.trees).mem_iff.mpr hid) with h | h
  · obtain ⟨u, hu, hut⟩ := List.mem_map.mp h
    rw [← Tree.eq_of_id_eq f.distinct (Tree.mem_preorderAll_of_mem hu) htm hut]
    exact hu
  · obtain ⟨u, hu, hc⟩ := List.mem_flatMap.mp h
    rw [parent?_eq_some_iff.mpr ⟨u, find?_eq_some_iff.mpr ⟨hu, rfl⟩, hc⟩] at hp
    cases hp

theorem not_mem_children_of_parent? (hp : f.parent? i = none) (h : f.find? j = some t) :
    i ∉ idsAll t.children := by
  intro hi
  obtain ⟨p, -, hp'⟩ := exists_parent_of_mem h hi
  rw [hp] at hp'
  cases hp'

/-! ## Changing values -/

theorem find?_setValue (f : Forest) (i j : NodeId) (g : Value → Value) :
    (f.setValue i g).find? j = (f.find? j).map (Tree.update i (withValue g)) := by
  have h : findIn? j (updateAll i (withValue g) f.trees) = _ :=
    Tree.findIn?_updateAll f.distinct fun t ht => by
      rw [Tree.find?_withValue g (nodup_of_find? ht), id_of_find? ht]
  exact h

theorem map_update_of_find?_eq_none {g : Tree → Tree} (h : f.find? i = none) :
    (f.find? j).map (Tree.update i g) = f.find? j :=
  Tree.map_update_findIn? (find?_eq_none_iff.mp h)

theorem find?_of_mem_ids (h : f.find? i = some t) (hj : j ∈ t.ids) : f.find? j = t.find? j := by
  obtain ⟨u, hu⟩ := Tree.exists_find?_of_mem hj
  obtain ⟨hum, rfl⟩ := Tree.mem_of_find? hu
  rw [find?_of_mem_preorder h hum, hu]

/-! ## Detaching -/

theorem detach_of_parent?_eq_none (h : f.parent? i = none) : f.detach i = f := by
  unfold detach
  split
  · next hp _ => simp [h] at hp
  · rfl

theorem trees_detach (hp : f.parent? i = some p) (ht : f.find? i = some t) :
    (f.detach i).trees = removeAll i f.trees ++ [t] := by
  unfold detach
  split
  · next ht' =>
    obtain rfl := Option.some.inj (ht'.symm.trans ht)
    rfl
  · next h => exact absurd ht (h p t hp)

theorem find?_detach (f : Forest) (i j : NodeId) :
    (f.detach i).find? j = (f.find? j).map (Tree.remove i) := by
  cases hp : f.parent? i with
  | none =>
    rw [detach_of_parent?_eq_none hp]
    cases hj : f.find? j with
    | none => rfl
    | some u =>
      rw [Option.map_some, Tree.remove_of_not_mem (not_mem_children_of_parent? hp hj)]
  | some p =>
    obtain ⟨w, hw, hi⟩ := parent?_eq_some_iff.mp hp
    obtain ⟨c, hc, rfl⟩ := List.mem_map.mp hi
    have ht := find?_of_mem_preorder hw (Tree.mem_preorder_of_mem_children hc)
    rw [find?, trees_detach hp ht, Tree.findIn?_append, findIn?, findIn?, Option.or_none]
    -- The tree that is detached is found behind the others; the rest is found without it.
    by_cases hj : j ∈ c.ids
    · have hgone : j ∉ idsAll (removeAll c.id f.trees) := by
        have hd := (f.perm_remove ht).nodup_iff.mpr f.distinct
        exact fun hj' => (List.nodup_append.mp hd).2.2 j hj j hj' rfl
      obtain ⟨u, hu⟩ := Tree.exists_find?_of_mem hj
      have hcs := Tree.idsAll_children_subset_of_mem_preorder (Tree.mem_of_find? hu).1
      rw [Tree.findIn?_of_not_mem hgone, Option.none_or, find?_of_mem_ids ht hj, hu,
        Option.map_some, Tree.remove_of_not_mem fun hi =>
          Tree.not_mem_idsAll_children (nodup_of_find? ht) (hcs hi)]
    · rw [Tree.find?_of_not_mem hj, Option.or_none, f.find?_remove ht hj]

@[simp] theorem root_detach (f : Forest) (i : NodeId) : (f.detach i).root = f.root := by
  unfold detach
  split <;> rfl

@[simp] theorem next_detach (f : Forest) (i : NodeId) : (f.detach i).next = f.next := by
  unfold detach
  split <;> rfl

/-! ## Appending -/

theorem trees_append (ht : f.find? i = some t) (hp : p ∉ t.ids) (hu : f.find? p = some u) :
    (f.append p i).trees = updateAll p (withChildren (· ++ [t])) (removeAll i f.trees) := by
  unfold append
  split
  · next h => rw [ht] at h; cases h
  · next ht' =>
    obtain rfl := Option.some.inj (ht.symm.trans ht')
    rw [dif_neg]
    · rfl
    · simp [Tree.holds_iff, hp, hu]

/-- What is found after `i` has become the last child of `p`. -/
theorem find?_append (ht : f.find? i = some t) (hp : p ∉ t.ids) (hu : f.find? p = some u)
    (j : NodeId) : (f.append p i).find? j =
      (f.find? j).map fun w => (w.remove i).update p (withChildren (· ++ [t])) := by
  have hd := (List.nodup_append.mp ((f.perm_remove ht).nodup_iff.mpr f.distinct)).2
  -- Outside the moved tree: it is taken out at its old place and added at `p`.
  have hrest : ∀ j, j ∉ t.ids →
      (f.append p i).find? j =
        (f.find? j).map fun w => (w.remove i).update p (withChildren (· ++ [t])) := by
    intro j hj
    rw [find?, trees_append ht hp hu, Tree.findIn?_updateAll hd.1 fun w hw => ?_,
      f.find?_remove ht hj, Option.map_map]
    · rfl
    · rw [Tree.find?_withChildren _ (Tree.nodup_of_findIn? hd.1 hw) fun _ => ?_,
        Tree.id_of_findIn? hw]
      rw [Tree.findIn?_append, Tree.findIn?, Tree.find?_of_not_mem hj, Tree.findIn?, Option.or_none,
        Option.or_none]
  by_cases hj : j ∈ t.ids
  · obtain ⟨w, hw⟩ := Tree.exists_find?_of_mem hj
    obtain ⟨hwm, rfl⟩ := Tree.mem_of_find? hw
    have hwi : i ∉ idsAll w.children := fun h =>
      Tree.not_mem_idsAll_children (nodup_of_find? ht)
        (id_of_find? ht ▸ Tree.idsAll_children_subset_of_mem_preorder hwm h)
    have hwp : p ∉ w.ids := fun h => hp (Tree.ids_subset_of_mem_preorder hwm h)
    rw [find?_of_mem_preorder ht hwm, Option.map_some, Tree.remove_of_not_mem hwi,
      Tree.update_of_not_mem hwp]
    -- Inside the moved tree nothing changes, and it is now found below `p`.
    have hparent := hrest p hp
    rw [hu, Option.map_some] at hparent
    have hin : t ∈ ((u.remove i).update p (withChildren (· ++ [t]))).children := by
      rw [← id_of_find? hu, ← Tree.id_remove i u, Tree.update_id, Tree.children_withChildren]
      simp
    exact find?_of_mem_preorder hparent
      (Tree.mem_preorder_trans hwm (Tree.mem_preorder_of_mem_children hin))
  · exact hrest j hj

@[simp] theorem root_append (f : Forest) (p i : NodeId) : (f.append p i).root = f.root := by
  unfold append
  split
  · rfl
  · split <;> rfl

@[simp] theorem next_append (f : Forest) (p i : NodeId) : (f.append p i).next = f.next := by
  unfold append
  split
  · rfl
  · split <;> rfl

theorem append_eq_self (ht : f.find? i = some t) (h : p ∈ t.ids ∨ f.find? p = none) :
    f.append p i = f := by
  unfold append
  split
  · rfl
  · next ht' =>
    obtain rfl := Option.some.inj (ht.symm.trans ht')
    rw [dif_pos]
    rcases h with h | h
    · simp [Tree.holds_iff.mpr h]
    · simp [h]

/-! ## Adding -/

theorem find?_adding (f : Forest) (t : Tree) (free : NodeId) (hd : t.ids.Nodup)
    (hb : ∀ i ∈ t.ids, f.next ≤ i ∧ i < free) (j : NodeId) :
    (f.adding t free hd hb).find? j = (f.find? j).or (t.find? j) := by
  have htrees : (f.adding t free hd hb).find? j = findIn? j (f.trees ++ [t]) := rfl
  rw [htrees, Tree.findIn?_append, findIn?, findIn?, Option.or_none]
  rfl

theorem find?_create (f : Forest) (v : Value) (j : NodeId) :
    (f.create v).1.find? j = if f.next = j then some (.node j v []) else f.find? j := by
  rw [create, find?_adding, Tree.find?_node, findIn?]
  split
  · next h => rw [← h, find?_of_next_le (Nat.le_refl _), Option.none_or]
  · rw [Option.or_none]

/-- A copy of a known node adds the tree with new numbers. -/
theorem copy_eq (h : f.find? i = some t) : f.copy i =
    (f.adding (t.relabel f.next).1 (t.relabel f.next).2 (t.nodup_ids_relabel f.next)
      (t.mem_ids_relabel f.next), f.next) := by
  unfold copy
  split
  · next h' => rw [h] at h'; cases h'
  · next h' =>
    obtain rfl := Option.some.inj (h.symm.trans h')
    rfl

/-- What is found after a copy: what was found before, and the copy. -/
theorem find?_copy (h : f.find? i = some t) (j : NodeId) :
    (f.copy i).1.find? j = (f.find? j).or ((t.relabel f.next).1.find? j) := by
  rw [copy_eq h, find?_adding]

@[simp] theorem snd_copy (h : f.find? i = some t) : (f.copy i).2 = f.next := by
  rw [copy_eq h]

/-! ## Clearing and replacing -/

theorem find?_foldl_detach {v : Value} {cs : List Tree} (h : f.find? i = some (.node i v cs)) :
    ((cs.map Tree.id).foldl detach f).find? j =
      (f.find? j).map (Tree.update i (withChildren fun _ => [])) := by
  induction cs generalizing f with
  | nil =>
    cases hj : f.find? j with
    | none => simp [hj]
    | some w =>
      rw [List.map_nil, List.foldl_nil, hj, Option.map_some,
        Tree.update_eq_self (nodup_of_find? hj) fun u hu => ?_]
      obtain ⟨hum, rfl⟩ := Tree.mem_of_find? hu
      rw [← Option.some.inj (h.symm.trans (find?_of_mem_preorder hj hum))]
      rfl
  | cons c cs ih =>
    have hd := nodup_of_find? h
    simp only [Tree.ids_node, Tree.idsAll_cons, List.nodup_cons, List.nodup_append] at hd
    have hc : c.id ∉ idsAll cs := fun hc => hd.2.2.2 c.id c.id_mem_ids c.id hc rfl
    have hi : (f.detach c.id).find? i = some (.node i v cs) := by
      rw [find?_detach, h, Option.map_some, Tree.remove, removeAll, if_pos rfl,
        Tree.removeAll_of_not_mem hc]
    rw [List.map_cons, List.foldl_cons, ih hi, find?_detach, Option.map_map]
    cases hj : f.find? j with
    | none => rfl
    | some w =>
      rw [Option.map_some, Option.map_some, Function.comp_apply]
      -- A tree that does not hold `i` does not hold its children either.
      by_cases hiw : i ∈ w.ids
      · have hu : w.find? i = some (.node i v (c :: cs)) := by rw [← find?_of_mem_ids hj hiw, h]
        rw [Tree.update_remove (nodup_of_find? hj) hu (by simp)]
      · rw [Tree.remove_of_not_mem fun hcw => ?_]
        obtain ⟨p, hpw, hp⟩ := exists_parent_of_mem hj hcw
        have hpi : f.parent? c.id = some i := parent?_eq_some_iff.mpr ⟨_, h, by simp⟩
        exact hiw (Option.some.inj (hpi.symm.trans hp) ▸ hpw)

theorem find?_clear (f : Forest) (i j : NodeId) :
    (f.clear i).find? j = (f.find? j).map (Tree.update i (withChildren fun _ => [])) := by
  rw [clear, children]
  cases hi : f.find? i with
  | none => rw [map_update_of_find?_eq_none hi, List.foldl_nil]
  | some t =>
    obtain ⟨k, v, cs⟩ := t
    obtain rfl := id_of_find? hi
    exact find?_foldl_detach hi

@[simp] theorem next_clear (f : Forest) (i : NodeId) : (f.clear i).next = f.next := by
  rw [clear]
  induction f.children i generalizing f with
  | nil => rfl
  | cons k ks ih => rw [List.foldl_cons, ih, next_detach]

@[simp] theorem root_clear (f : Forest) (i : NodeId) : (f.clear i).root = f.root := by
  rw [clear]
  induction f.children i generalizing f with
  | nil => rfl
  | cons k ks ih => rw [List.foldl_cons, ih, root_detach]

theorem replaceChildren_eq (f : Forest) (i : NodeId) (v : Value) :
    f.replaceChildren i v = ((f.clear i).create v).1.append i f.next := by
  rw [← next_clear f i]
  rfl

/-- What is found once the children are gone and the new node is not yet in their place. -/
theorem find?_create_clear (f : Forest) (i j : NodeId) (v : Value) :
    ((f.clear i).create v).1.find? j = if f.next = j then some (.node j v []) else
      (f.find? j).map (Tree.update i (withChildren fun _ => [])) := by
  rw [find?_create, next_clear, find?_clear]

theorem find?_next_create_clear (f : Forest) (i : NodeId) (v : Value) :
    ((f.clear i).create v).1.find? f.next = some (.node f.next v []) := by
  rw [find?_create_clear, if_pos rfl]

/-- An unknown node gets no child: the new node stays detached. -/
theorem replaceChildren_of_find?_eq_none (v : Value) (hi : f.find? i = none) :
    f.replaceChildren i v = ((f.clear i).create v).1 := by
  rw [replaceChildren_eq]
  refine append_eq_self (find?_next_create_clear f i v) ?_
  by_cases hne : i = f.next
  · exact .inl (by simp [hne])
  · refine .inr ?_
    rw [find?_create_clear, if_neg (Ne.symm hne), hi, Option.map_none]

/-- What is found after the children of `i` have been replaced by one new node. -/
theorem find?_replaceChildren (f : Forest) (i : NodeId) (v : Value) (hj : j ≠ f.next) :
    (f.replaceChildren i v).find? j =
      (f.find? j).map (Tree.update i (withChildren fun _ => [.node f.next v []])) := by
  cases hi : f.find? i with
  | none =>
    rw [replaceChildren_of_find?_eq_none v hi, find?_create_clear, if_neg (Ne.symm hj),
      map_update_of_find?_eq_none hi, map_update_of_find?_eq_none hi]
  | some t =>
    have hne : i ≠ f.next := Nat.ne_of_lt (lt_next_of_find? hi)
    have hti : ((f.clear i).create v).1.find? i = some (t.update i (withChildren fun _ => [])) := by
      rw [find?_create_clear, if_neg (Ne.symm hne), hi, Option.map_some]
    rw [replaceChildren_eq, find?_append (find?_next_create_clear f i v) (by simpa using hne)
      hti, find?_create_clear, if_neg (Ne.symm hj),
      Option.map_map]
    cases hw : f.find? j with
    | none => rfl
    | some w =>
      -- The new node was in none of the old trees.
      have hfresh : f.next ∉ idsAll (w.update i (withChildren fun _ => [])).children := by
        intro h
        have hold := Tree.mem_ids_update (P := fun _ => False)
          (fun u k hk => .inl (Tree.ids_clear_subset u hk)) (Tree.mem_ids_of_mem_children h)
        exact Nat.lt_irrefl _ (lt_next hw (hold.resolve_right fun h => h))
      rw [Option.map_some, Option.map_some, Function.comp_apply, Tree.remove_of_not_mem hfresh,
        Tree.update_update (Tree.id_withChildren _)]
      congr 2
      funext u
      cases u
      rfl

end Forest

end Stencil.Markup

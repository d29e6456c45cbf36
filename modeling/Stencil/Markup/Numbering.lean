import Stencil.Markup.Tree

/-!
# Numbers in lists of trees

What finding, changing and removing do to the numbers in a list of trees. No number stands twice in
the trees of a forest, so a number leads to one tree, taking that tree out takes its numbers out and
nothing else, and putting it below another node puts them back.
-/

namespace Stencil.Markup.Tree

variable {i j : NodeId} {t u : Tree} {ts us : List Tree}

/-! ## Finding -/

theorem findIn?_cons_node (i j : NodeId) (v : Value) (cs ts : List Tree) :
    findIn? i (node j v cs :: ts) =
      if j = i then some (node j v cs) else (findIn? i cs).or (findIn? i ts) := by
  simp only [findIn?, find?]
  split <;> rfl

theorem isSome_findIn?_iff : (findIn? i ts).isSome ↔ i ∈ idsAll ts := by
  induction ts using listInduction with
  | nil => simp [findIn?]
  | cons j v cs ts ihc iht =>
    rw [findIn?_cons_node]
    by_cases h : j = i
    · simp [h]
    · simp [h, Ne.symm h, ihc, iht]

theorem findIn?_of_not_mem (h : i ∉ idsAll ts) : findIn? i ts = none := by
  rw [← Option.not_isSome_iff_eq_none, isSome_findIn?_iff]
  exact h

theorem exists_findIn?_of_mem (h : i ∈ idsAll ts) : ∃ t, findIn? i ts = some t :=
  Option.isSome_iff_exists.mp (isSome_findIn?_iff.mpr h)

theorem mem_of_findIn? (h : findIn? i ts = some t) : t ∈ preorderAll ts ∧ t.id = i := by
  induction ts using listInduction with
  | nil => simp [findIn?] at h
  | cons j v cs ts ihc iht =>
    rw [findIn?_cons_node] at h
    split at h
    · next hj =>
      obtain rfl := Option.some.inj h
      exact ⟨by simp, hj⟩
    · rcases Option.or_eq_some_iff.mp h with hc | ⟨-, ht⟩
      · exact ⟨by simp [(ihc hc).1], (ihc hc).2⟩
      · exact ⟨by simp [(iht ht).1], (iht ht).2⟩

theorem id_of_findIn? (h : findIn? i ts = some t) : t.id = i := (mem_of_findIn? h).2

theorem mem_idsAll_of_findIn? (h : findIn? i ts = some t) : i ∈ idsAll ts :=
  isSome_findIn?_iff.mp (by rw [h]; rfl)

/-- A tree inside a tree of the list is inside the list. -/
theorem preorder_subset (h : t ∈ preorderAll ts) : t.preorder ⊆ preorderAll ts := by
  induction ts using listInduction with
  | nil => simp at h
  | cons j v cs ts ihc iht =>
    intro u hu
    simp only [preorderAll_cons, preorder_node, List.cons_append, List.mem_cons,
      List.mem_append] at h ⊢
    rcases h with rfl | h | h
    · simp only [preorder_node, List.mem_cons] at hu
      exact hu.imp_right Or.inl
    · exact Or.inr (Or.inl (ihc h hu))
    · exact Or.inr (Or.inr (iht h hu))

theorem ids_sublist (h : t ∈ preorderAll ts) : t.ids.Sublist (idsAll ts) := by
  induction ts using listInduction with
  | nil => simp at h
  | cons j v cs ts ihc iht =>
    simp only [preorderAll_cons, preorder_node, List.cons_append, List.mem_cons,
      List.mem_append] at h
    simp only [idsAll_cons, ids_node]
    rcases h with rfl | h | h
    · simp
    · exact ((ihc h).cons j).trans (List.sublist_append_left _ _)
    · exact (iht h).trans (List.sublist_append_right _ _)

theorem ids_subset (h : t ∈ preorderAll ts) : t.ids ⊆ idsAll ts := (ids_sublist h).subset

theorem idsAll_children_subset (h : t ∈ preorderAll ts) : idsAll t.children ⊆ idsAll ts := by
  intro i hi
  obtain ⟨j, v, cs⟩ := t
  exact ids_subset h (by simp [show i ∈ idsAll cs from hi])

theorem eq_of_id_eq (hd : (idsAll ts).Nodup) (ht : t ∈ preorderAll ts) (hu : u ∈ preorderAll ts)
    (h : t.id = u.id) : t = u := by
  have hp := List.pairwise_map.mp hd
  generalize preorderAll ts = l at ht hu hp
  induction l with
  | nil => cases ht
  | cons a l ih =>
    obtain ⟨ha, hp⟩ := List.pairwise_cons.mp hp
    rcases List.mem_cons.mp ht with rfl | ht'
    · rcases List.mem_cons.mp hu with rfl | hu'
      · rfl
      · exact absurd h (ha u hu')
    · rcases List.mem_cons.mp hu with rfl | hu'
      · exact absurd h.symm (ha t ht')
      · exact ih ht' hu' hp

/-- **A number leads to one tree.** -/
theorem findIn?_eq_some_iff (hd : (idsAll ts).Nodup) :
    findIn? i ts = some t ↔ t ∈ preorderAll ts ∧ t.id = i := by
  refine ⟨mem_of_findIn?, fun ⟨hm, hi⟩ => ?_⟩
  obtain ⟨u, hu⟩ := exists_findIn?_of_mem (hi ▸ List.mem_map_of_mem hm : i ∈ idsAll ts)
  obtain ⟨hum, hui⟩ := mem_of_findIn? hu
  rw [hu, eq_of_id_eq hd hum hm (hui.trans hi.symm)]

theorem holds_iff : t.holds i ↔ i ∈ t.ids := by
  have h : (findIn? i [t]).isSome ↔ i ∈ idsAll [t] := isSome_findIn?_iff
  simpa [findIn?, holds] using h

/-! ## Parents -/

/-- **A node is the root of a tree in the list or the child of one node inside.** -/
theorem perm_children (ts : List Tree) :
    (ts.map id ++ (preorderAll ts).flatMap fun t => t.children.map id).Perm (idsAll ts) := by
  induction ts using listInduction with
  | nil => exact .refl _
  | cons i v cs ts ihc iht =>
    simp only [List.map_cons, id_node, preorderAll_cons, preorder_node, List.cons_append,
      List.flatMap_cons, children_node, List.flatMap_append, idsAll_cons, ids_node]
    refine List.Perm.cons i ?_
    rw [← List.append_assoc (cs.map id)]
    exact (List.perm_append_comm_assoc _ _ _).trans (ihc.append iht)

theorem childIds_subset (h : u ∈ t.preorder) : u.children.map id ⊆ t.ids := by
  intro i hi
  have hp := (perm_children [t]).mem_iff (a := i)
  simp only [List.map_cons, List.map_nil, preorderAll_cons, preorderAll_nil, List.append_nil,
    idsAll_cons, idsAll_nil] at hp
  exact hp.mp (List.mem_append_right _ (List.mem_flatMap.mpr ⟨u, h, hi⟩))

/-! ## Removing -/

theorem removeAll_cons_node (i j : NodeId) (v : Value) (cs ts : List Tree) :
    removeAll i (node j v cs :: ts) =
      if j = i then removeAll i ts else node j v (removeAll i cs) :: removeAll i ts := by
  rw [removeAll, remove]
  rfl

theorem removeAll_of_not_mem (h : i ∉ idsAll ts) : removeAll i ts = ts := by
  induction ts using listInduction with
  | nil => rfl
  | cons j v cs ts ihc iht =>
    simp only [idsAll_cons, ids_node, List.cons_append, List.mem_cons, List.mem_append,
      not_or] at h
    rw [removeAll_cons_node, if_neg (Ne.symm h.1), ihc h.2.1, iht h.2.2]

theorem remove_of_not_mem (h : i ∉ idsAll t.children) : t.remove i = t := by
  obtain ⟨j, v, cs⟩ := t
  rw [remove, removeAll_of_not_mem (show i ∉ idsAll cs from h)]

@[simp] theorem children_remove (i : NodeId) (t : Tree) :
    (t.remove i).children = removeAll i t.children := by
  obtain ⟨j, v, cs⟩ := t
  rw [remove, children_node, children_node]

@[simp] theorem id_remove (i : NodeId) (t : Tree) : (t.remove i).id = t.id := by
  obtain ⟨j, v, cs⟩ := t
  rw [remove, id_node, id_node]

theorem mem_map_id_removeAll (h : j ∈ ts.map id) (hj : j ≠ i) : j ∈ (removeAll i ts).map id := by
  induction ts with
  | nil => simp at h
  | cons t ts ih =>
    rw [removeAll]
    rcases List.mem_cons.mp h with rfl | h
    · rw [if_neg hj, List.map_cons, id_remove]
      exact List.mem_cons_self
    · split
      · exact ih h
      · exact List.mem_cons_of_mem _ (ih h)

/-- **Taking a tree out takes out its numbers and no other.** -/
theorem perm_removeAll (hd : (idsAll ts).Nodup) (h : findIn? i ts = some t) :
    (t.ids ++ idsAll (removeAll i ts)).Perm (idsAll ts) := by
  induction ts using listInduction with
  | nil => simp [findIn?] at h
  | cons j v cs ts ihc iht =>
    rw [findIn?_cons_node] at h
    rw [removeAll_cons_node]
    simp only [idsAll_cons, ids_node, List.cons_append, List.nodup_cons, List.mem_append,
      not_or, List.nodup_append] at hd
    obtain ⟨⟨hjc, hjt⟩, hcs, hts, hdisj⟩ := hd
    by_cases hj : j = i
    · rw [if_pos hj] at h
      obtain rfl := Option.some.inj h
      rw [if_pos hj, removeAll_of_not_mem (hj ▸ hjt)]
      simp
    · rw [if_neg hj] at h
      rw [if_neg hj]
      simp only [idsAll_cons, ids_node, List.cons_append]
      refine List.perm_middle.trans (List.Perm.cons j ?_)
      rcases Option.or_eq_some_iff.mp h with hc | ⟨-, ht⟩
      · have hi : i ∉ idsAll ts := fun hi => hdisj i (mem_idsAll_of_findIn? hc) i hi rfl
        rw [removeAll_of_not_mem hi, ← List.append_assoc]
        exact (ihc hcs hc).append_right _
      · have hi : i ∉ idsAll cs := fun hi => hdisj i hi i (mem_idsAll_of_findIn? ht) rfl
        rw [removeAll_of_not_mem hi]
        exact (List.perm_append_comm_assoc _ _ _).trans ((iht hts ht).append_left _)

theorem map_remove_findIn? (h : i ∉ idsAll ts) : (findIn? j ts).map (remove i) = findIn? j ts := by
  cases hf : findIn? j ts with
  | none => rfl
  | some u =>
    have hu := idsAll_children_subset (mem_of_findIn? hf).1
    rw [Option.map_some, remove_of_not_mem fun hi => h (hu hi)]

/-- What is found behind a removal is what was found before it, without the removed tree. -/
theorem findIn?_removeAll (hd : (idsAll ts).Nodup) (h : findIn? i ts = some t)
    (hj : j ∉ t.ids) : findIn? j (removeAll i ts) = (findIn? j ts).map (remove i) := by
  induction ts using listInduction with
  | nil => rfl
  | cons k v cs ts ihc iht =>
    rw [findIn?_cons_node] at h
    rw [removeAll_cons_node, findIn?_cons_node]
    simp only [idsAll_cons, ids_node, List.cons_append, List.nodup_cons, List.mem_append,
      not_or, List.nodup_append] at hd
    obtain ⟨⟨hkc, hkt⟩, hcs, hts, hdisj⟩ := hd
    by_cases hk : k = i
    · rw [if_pos hk] at h
      obtain rfl := Option.some.inj h
      simp only [ids_node, List.mem_cons, not_or] at hj
      rw [if_pos hk, if_neg (Ne.symm hj.1), findIn?_of_not_mem hj.2, Option.none_or,
        removeAll_of_not_mem (hk ▸ hkt), map_remove_findIn? (hk ▸ hkt)]
    · rw [if_neg hk] at h
      rw [if_neg hk, findIn?_cons_node]
      by_cases hkj : k = j
      · rw [if_pos hkj, if_pos hkj, Option.map_some, remove]
      rw [if_neg hkj, if_neg hkj, Option.map_or]
      rcases Option.or_eq_some_iff.mp h with hc | ⟨-, ht⟩
      · have hi : i ∉ idsAll ts := fun hi => hdisj i (mem_idsAll_of_findIn? hc) i hi rfl
        rw [ihc hcs hc, removeAll_of_not_mem hi, map_remove_findIn? hi]
      · have hi : i ∉ idsAll cs := fun hi => hdisj i hi i (mem_idsAll_of_findIn? ht) rfl
        rw [iht hts ht, removeAll_of_not_mem hi, map_remove_findIn? hi]

/-! ## Changing -/

theorem updateAll_cons_node (i j : NodeId) (g : Tree → Tree) (v : Value) (cs ts : List Tree) :
    updateAll i g (node j v cs :: ts) =
      (if j = i then g (node j v cs) else node j v (updateAll i g cs)) :: updateAll i g ts := by
  simp only [updateAll, update]

theorem updateAll_of_not_mem {g : Tree → Tree} (h : i ∉ idsAll ts) : updateAll i g ts = ts := by
  induction ts using listInduction with
  | nil => rfl
  | cons j v cs ts ihc iht =>
    simp only [idsAll_cons, ids_node, List.cons_append, List.mem_cons, List.mem_append,
      not_or] at h
    rw [updateAll_cons_node, if_neg (Ne.symm h.1), ihc h.2.1, iht h.2.2]

theorem update_of_not_mem {g : Tree → Tree} (h : i ∉ t.ids) : t.update i g = t := by
  obtain ⟨j, v, cs⟩ := t
  simp only [ids_node, List.mem_cons, not_or] at h
  rw [update, if_neg (Ne.symm h.1), updateAll_of_not_mem h.2]

@[simp] theorem idsAll_updateAll_withValue (i : NodeId) (g : Value → Value) (ts : List Tree) :
    idsAll (updateAll i (withValue g) ts) = idsAll ts := by
  induction ts using listInduction with
  | nil => rfl
  | cons j v cs ts ihc iht =>
    rw [updateAll_cons_node, idsAll_cons, idsAll_cons, iht]
    split <;> simp [withValue, ihc]

/-- Changing the children of one node changes the numbers as those of its children change. -/
theorem perm_updateAll_withChildren {g : List Tree → List Tree} {more : List NodeId}
    (hd : (idsAll ts).Nodup) (h : findIn? i ts = some t)
    (hg : (idsAll (g t.children)).Perm (more ++ idsAll t.children)) :
    (idsAll (updateAll i (withChildren g) ts)).Perm (more ++ idsAll ts) := by
  induction ts using listInduction with
  | nil => simp [findIn?] at h
  | cons j v cs ts ihc iht =>
    rw [findIn?_cons_node] at h
    rw [updateAll_cons_node]
    simp only [idsAll_cons, ids_node, List.cons_append, List.nodup_cons, List.mem_append,
      not_or, List.nodup_append] at hd
    obtain ⟨⟨hjc, hjt⟩, hcs, hts, hdisj⟩ := hd
    simp only [idsAll_cons, ids_node, List.cons_append]
    refine .trans ?_ List.perm_middle.symm
    by_cases hj : j = i
    · rw [if_pos hj] at h
      obtain rfl := Option.some.inj h
      rw [if_pos hj, updateAll_of_not_mem (hj ▸ hjt), withChildren, ids_node, List.cons_append,
        ← List.append_assoc more]
      exact List.Perm.cons j (hg.append_right _)
    · rw [if_neg hj] at h
      rw [if_neg hj, ids_node, List.cons_append]
      refine List.Perm.cons j ?_
      rcases Option.or_eq_some_iff.mp h with hc | ⟨-, ht⟩
      · have hi : i ∉ idsAll ts := fun hi => hdisj i (mem_idsAll_of_findIn? hc) i hi rfl
        rw [updateAll_of_not_mem hi, ← List.append_assoc]
        exact (ihc hcs hc).append_right _
      · have hi : i ∉ idsAll cs := fun hi => hdisj i hi i (mem_idsAll_of_findIn? ht) rfl
        rw [updateAll_of_not_mem hi]
        exact ((iht hts ht).append_left _).trans (List.perm_append_comm_assoc _ _ _)

/-! ## Numbering anew -/

theorem relabelAll_cons_node (n i : NodeId) (v : Value) (cs ts : List Tree) :
    relabelAll (node i v cs :: ts) n =
      (node n v (relabelAll cs (n + 1)).1 ::
          (relabelAll ts (relabelAll cs (n + 1)).2).1,
        (relabelAll ts (relabelAll cs (n + 1)).2).2) := by
  simp only [relabelAll, relabel]

theorem relabelAll_snd (ts : List Tree) (n : NodeId) :
    (relabelAll ts n).2 = n + (idsAll ts).length := by
  induction ts using listInduction generalizing n with
  | nil => rfl
  | cons i v cs ts ihc iht =>
    rw [relabelAll_cons_node, iht, ihc, idsAll_cons, ids_node, List.cons_append,
      List.length_cons, List.length_append, Nat.add_assoc, Nat.add_assoc, Nat.add_left_comm 1,
      Nat.add_comm 1, Nat.add_assoc]

/-- Numbering anew gives consecutive numbers. -/
theorem idsAll_relabelAll (ts : List Tree) (n : NodeId) :
    idsAll (relabelAll ts n).1 = List.range' n (idsAll ts).length := by
  induction ts using listInduction generalizing n with
  | nil => rfl
  | cons i v cs ts ihc iht =>
    rw [relabelAll_cons_node, idsAll_cons, ids_node, ihc, iht, relabelAll_snd, List.cons_append,
      List.range'_append_1, idsAll_cons, ids_node, List.cons_append, List.length_cons,
      List.length_append, List.range'_succ]

theorem relabel_eq (t : Tree) (n : NodeId) :
    relabelAll [t] n = ([(t.relabel n).1], (t.relabel n).2) := by
  simp only [relabelAll]

theorem relabel_snd (t : Tree) (n : NodeId) : (t.relabel n).2 = n + t.ids.length := by
  simpa [relabel_eq] using relabelAll_snd [t] n

theorem ids_relabel (t : Tree) (n : NodeId) :
    (t.relabel n).1.ids = List.range' n t.ids.length := by
  simpa [relabel_eq] using idsAll_relabelAll [t] n

theorem nodup_ids_relabel (t : Tree) (n : NodeId) : (t.relabel n).1.ids.Nodup := by
  rw [ids_relabel]
  exact List.nodup_range' 1

theorem mem_ids_relabel (t : Tree) (n : NodeId) :
    ∀ i ∈ (t.relabel n).1.ids, n ≤ i ∧ i < (t.relabel n).2 := by
  intro i hi
  rw [ids_relabel, List.mem_range'_1] at hi
  exact ⟨hi.1, relabel_snd t n ▸ hi.2⟩

@[simp] theorem id_relabel (t : Tree) (n : NodeId) : (t.relabel n).1.id = n := by
  cases t
  rfl

end Stencil.Markup.Tree

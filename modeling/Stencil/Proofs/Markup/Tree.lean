import Stencil.Markup.Numbering

/-!
# Trees inside lists of trees

What stands inside what, and what is found after a change at one node. In a list of trees without a
repeated number two trees lie one inside the other or apart, so a change at a node is seen from the
nodes around it and from nowhere else.
-/

namespace Stencil.Markup

namespace Tree

variable {i j : NodeId} {t u : Tree} {ts : List Tree}

theorem nodup_of_findIn? (hd : (idsAll ts).Nodup) (h : findIn? i ts = some t) : t.ids.Nodup :=
  (ids_sublist (mem_of_findIn? h).1).nodup hd

theorem not_mem_idsAll_children (h : t.ids.Nodup) : t.id ∉ idsAll t.children := by
  obtain ⟨i, v, cs⟩ := t
  rw [ids_node, List.nodup_cons] at h
  exact h.1

@[simp] theorem children_withChildren (g : List Tree → List Tree) (t : Tree) :
    (t.withChildren g).children = g t.children := by
  cases t
  rfl

@[simp] theorem id_withChildren (g : List Tree → List Tree) (t : Tree) :
    (t.withChildren g).id = t.id := by
  cases t
  rfl

@[simp] theorem id_withValue (g : Value → Value) (t : Tree) : (t.withValue g).id = t.id := by
  cases t
  rfl

theorem id_update {g : Tree → Tree} (hg : ∀ t, (g t).id = t.id) (i : NodeId) (t : Tree) :
    (t.update i g).id = t.id := by
  obtain ⟨j, v, cs⟩ := t
  rw [update]
  split
  · exact hg _
  · rfl

theorem ids_eq_cons (t : Tree) : t.ids = t.id :: idsAll t.children := by
  cases t
  simp

theorem mem_ids_of_mem_children (h : i ∈ idsAll t.children) : i ∈ t.ids :=
  ids_eq_cons t ▸ List.mem_cons_of_mem _ h

theorem update_id (g : Tree → Tree) (t : Tree) : t.update t.id g = g t := by
  obtain ⟨i, v, cs⟩ := t
  rw [update, id_node, if_pos rfl]

/-- A change at another node leaves the value at the root. -/
theorem value_update (g : Tree → Tree) (h : t.id ≠ i) : (t.update i g).value = t.value := by
  obtain ⟨j, v, cs⟩ := t
  rw [id_node] at h
  rw [update, if_neg h, value_node, value_node]

theorem map_update_findIn? {g : Tree → Tree} (h : i ∉ idsAll ts) :
    (findIn? j ts).map (update i g) = findIn? j ts := by
  cases hf : findIn? j ts with
  | none => rfl
  | some u => rw [Option.map_some, update_of_not_mem fun hi => h (ids_subset (mem_of_findIn? hf).1 hi)]

/-- What is found behind a change at `i` is what was found before it, changed at `i`, as soon as
this holds inside the changed tree itself. -/
theorem findIn?_updateAll {g : Tree → Tree} (hd : (idsAll ts).Nodup)
    (hg : ∀ t, findIn? i ts = some t → (g t).find? j = (t.find? j).map (update i g)) :
    findIn? j (updateAll i g ts) = (findIn? j ts).map (update i g) := by
  induction ts using listInduction with
  | nil => rfl
  | cons k v cs ts ihc iht =>
    simp only [idsAll_cons, ids_node, List.cons_append, List.nodup_cons, List.mem_append,
      not_or, List.nodup_append] at hd
    obtain ⟨⟨hkc, hkt⟩, hcs, hts, hdisj⟩ := hd
    rw [updateAll_cons_node]
    -- At the node itself the assumption on `g` is used; its number stands nowhere else.
    by_cases hk : k = i
    · have hi : i ∉ idsAll ts := hk ▸ hkt
      have hfound : findIn? i (node k v cs :: ts) = some (node k v cs) := by
        rw [findIn?_cons_node, if_pos hk]
      rw [if_pos hk, updateAll_of_not_mem hi, findIn?, hg _ hfound, findIn?, Option.map_or,
        map_update_findIn? hi]
    · have hc : ∀ t, findIn? i cs = some t → (g t).find? j = (t.find? j).map (update i g) := by
        intro t ht
        apply hg
        rw [findIn?_cons_node, if_neg hk, ht, Option.some_or]
      have ht : ∀ t, findIn? i ts = some t → (g t).find? j = (t.find? j).map (update i g) := by
        intro t ht
        apply hg
        have hi : i ∉ idsAll cs := fun hi => hdisj i hi i (mem_idsAll_of_findIn? ht) rfl
        rw [findIn?_cons_node, if_neg hk, findIn?_of_not_mem hi, Option.none_or, ht]
      rw [if_neg hk, findIn?_cons_node, findIn?_cons_node]
      by_cases hj : k = j
      · rw [if_pos hj, if_pos hj, Option.map_some, update, if_neg hk]
      · rw [if_neg hj, if_neg hj, Option.map_or, ihc hcs hc, iht hts ht]

theorem find?_node (i j : NodeId) (v : Value) (cs : List Tree) :
    (node j v cs).find? i = if j = i then some (node j v cs) else findIn? i cs := by
  rw [find?]

/-- Changing the value of a root changes nothing below it. -/
theorem find?_withValue (g : Value → Value) (hd : t.ids.Nodup) :
    (t.withValue g).find? j = (t.find? j).map (update t.id (withValue g)) := by
  obtain ⟨i, v, cs⟩ := t
  have hi : i ∉ idsAll cs := not_mem_idsAll_children hd
  rw [withValue, find?_node, find?_node, id_node]
  by_cases hj : i = j
  · rw [if_pos hj, if_pos hj, Option.map_some, update, if_pos rfl, withValue]
  · rw [if_neg hj, if_neg hj, map_update_findIn? hi]

/-- Other children of a root do not matter to a node that is found in both or in neither. -/
theorem find?_withChildren (g : List Tree → List Tree) (hd : t.ids.Nodup)
    (hg : j ≠ t.id → findIn? j (g t.children) = findIn? j t.children) :
    (t.withChildren g).find? j = (t.find? j).map (update t.id (withChildren g)) := by
  obtain ⟨i, v, cs⟩ := t
  have hi : i ∉ idsAll cs := not_mem_idsAll_children hd
  rw [withChildren, find?_node, find?_node, id_node]
  by_cases hj : i = j
  · rw [if_pos hj, if_pos hj, Option.map_some, update, if_pos rfl, withChildren]
  · rw [if_neg hj, if_neg hj, map_update_findIn? hi]
    exact hg (Ne.symm hj)

/-- Where no number stands twice, the first tree with a child is the only one. -/
theorem find?_parent {l : List Tree} (hd : (l.flatMap fun t => t.children.map id).Nodup)
    (ht : t ∈ l) (hi : i ∈ t.children.map id) :
    l.find? (fun t => t.children.any (·.id == i)) = some t := by
  induction l with
  | nil => cases ht
  | cons a l ih =>
    rw [List.flatMap_cons, List.nodup_append] at hd
    rcases List.mem_cons.mp ht with rfl | ht'
    · refine List.find?_cons_of_pos ?_
      simpa using hi
    · rw [List.find?_cons_of_neg ?_, ih hd.2.1 ht']
      intro ha
      have hia : i ∈ a.children.map id := by simpa using ha
      exact hd.2.2 i hia i (List.mem_flatMap.mpr ⟨t, ht', hi⟩) rfl

theorem mem_of_find? (h : t.find? j = some u) : u ∈ t.preorder ∧ u.id = j := by
  have h' : findIn? j [t] = some u := by rw [findIn?, h, Option.some_or]
  simpa using mem_of_findIn? h'

theorem find?_of_not_mem (h : i ∉ t.ids) : t.find? i = none := by
  rw [← Option.not_isSome_iff_eq_none]
  exact fun hs => h (holds_iff.mp hs)

theorem exists_find?_of_mem (h : i ∈ t.ids) : ∃ u, t.find? i = some u :=
  Option.isSome_iff_exists.mp (holds_iff.mpr h)

theorem ids_subset_of_mem_preorder (h : u ∈ t.preorder) : u.ids ⊆ t.ids := by
  have hu : u ∈ preorderAll [t] := by simpa using h
  simpa using ids_subset hu

theorem mem_preorder_trans {w : Tree} (h : u ∈ t.preorder) (ht : t ∈ w.preorder) :
    u ∈ w.preorder := by
  have ht' : t ∈ preorderAll [w] := by simpa using ht
  simpa using preorder_subset ht' h

theorem idsAll_children_subset_of_mem_preorder (h : u ∈ t.preorder) :
    idsAll u.children ⊆ idsAll t.children := by
  obtain ⟨i, v, cs⟩ := t
  rcases List.mem_cons.mp h with rfl | h
  · exact fun _ hi => hi
  · exact idsAll_children_subset h

theorem mem_preorderAll_of_mem (h : t ∈ ts) : t ∈ preorderAll ts := by
  induction ts with
  | nil => cases h
  | cons a ts ih =>
    rcases List.mem_cons.mp h with rfl | h
    · exact List.mem_append_left _ t.self_mem_preorder
    · exact List.mem_append_right _ (ih h)

theorem mem_idsAll_iff : i ∈ idsAll ts ↔ ∃ t ∈ ts, i ∈ t.ids := by
  induction ts with
  | nil => simp
  | cons t ts ih => simp [ih]

theorem mem_preorder_of_mem_children (h : u ∈ t.children) : u ∈ t.preorder := by
  obtain ⟨i, v, cs⟩ := t
  exact List.mem_cons_of_mem _ (mem_preorderAll_of_mem h)

/-- **Two trees of a list lie one inside the other or apart.** -/
theorem nested_or_disjoint (hd : (idsAll ts).Nodup) (ht : t ∈ preorderAll ts)
    (hu : u ∈ preorderAll ts) :
    t ∈ u.preorder ∨ u ∈ t.preorder ∨ ∀ i ∈ t.ids, i ∉ u.ids := by
  induction ts using listInduction with
  | nil => cases ht
  | cons k v cs ts ihc iht =>
    simp only [idsAll_cons, ids_node, List.cons_append, List.nodup_cons, List.mem_append,
      not_or, List.nodup_append] at hd
    obtain ⟨⟨hkc, hkt⟩, hcs, hts, hdisj⟩ := hd
    simp only [preorderAll_cons, preorder_node, List.cons_append, List.mem_cons,
      List.mem_append] at ht hu
    rcases ht with rfl | ht | ht <;> rcases hu with rfl | hu | hu
    · exact .inl (self_mem_preorder _)
    · exact .inr (.inl (List.mem_cons_of_mem _ hu))
    · refine .inr (.inr ?_)
      intro i hi hiu
      rw [ids_node] at hi
      rcases List.mem_cons.mp hi with rfl | hi
      · exact hkt (ids_subset hu hiu)
      · exact hdisj i hi i (ids_subset hu hiu) rfl
    · exact .inl (List.mem_cons_of_mem _ ht)
    · exact ihc hcs ht hu
    · exact .inr (.inr fun i hi hiu => hdisj i (ids_subset ht hi) i (ids_subset hu hiu) rfl)
    · refine .inr (.inr ?_)
      intro i hi hiu
      rw [ids_node] at hiu
      rcases List.mem_cons.mp hiu with rfl | hiu
      · exact hkt (ids_subset ht hi)
      · exact hdisj i hiu i (ids_subset ht hi) rfl
    · exact .inr (.inr fun i hi hiu => hdisj i (ids_subset hu hiu) i (ids_subset ht hi) rfl)
    · exact iht hts ht hu

/-- In document order a tree is followed by all that is below it. -/
theorem exists_append_of_preorderAll {l r : List Tree} (h : preorderAll ts = l ++ t :: r) :
    ∃ rest, t :: r = t.preorder ++ rest := by
  induction ts using listInduction generalizing l r with
  | nil => simp at h
  | cons i v cs ts ihc iht =>
    rw [preorderAll_cons, preorder_node, List.cons_append] at h
    cases l with
    | nil =>
      obtain ⟨rfl, rfl⟩ := List.cons.inj h
      exact ⟨preorderAll ts, rfl⟩
    | cons a l =>
      -- The cut is among the children of the first tree or in the trees behind it.
      rcases List.append_eq_append_iff.mp (List.cons.inj h).2 with ⟨m, rfl, hts⟩ | ⟨m, hcs, hr⟩
      · exact iht hts
      · cases m with
        | nil => exact iht (l := []) hr.symm
        | cons b m =>
          obtain ⟨rfl, rfl⟩ := List.cons.inj hr
          obtain ⟨rest, hrest⟩ := ihc hcs
          refine ⟨rest ++ preorderAll ts, ?_⟩
          rw [← List.append_assoc, ← hrest]
          rfl

theorem findIn?_append (i : NodeId) (ts us : List Tree) :
    findIn? i (ts ++ us) = (findIn? i ts).or (findIn? i us) := by
  induction ts with
  | nil => rfl
  | cons t ts ih => rw [List.cons_append, findIn?, findIn?, ih, Option.or_assoc]

/-- Two changes at one node are one. -/
theorem updateAll_updateAll {g h : Tree → Tree} (hh : ∀ t, (h t).id = t.id) (i : NodeId)
    (ts : List Tree) : updateAll i g (updateAll i h ts) = updateAll i (g ∘ h) ts := by
  induction ts using listInduction with
  | nil => rfl
  | cons j v cs ts ihc iht =>
    rw [updateAll_cons_node, updateAll_cons_node, updateAll, iht]
    by_cases hj : j = i
    · have hi : (h (node j v cs)).id = i := (hh _).trans hj
      rw [if_pos hj, if_pos hj, ← hi, update_id, hi, Function.comp_apply]
    · rw [if_neg hj, if_neg hj, update, if_neg hj, ihc]

theorem update_update {g h : Tree → Tree} (hh : ∀ t, (h t).id = t.id) (i : NodeId) (t : Tree) :
    (t.update i h).update i g = t.update i (g ∘ h) := by
  have := updateAll_updateAll (g := g) hh i [t]
  simpa [updateAll] using this

theorem mem_idsAll_of_mem_map_id (h : i ∈ ts.map id) : i ∈ idsAll ts := by
  obtain ⟨t, ht, rfl⟩ := List.mem_map.mp h
  exact ids_subset (mem_preorderAll_of_mem ht) t.id_mem_ids

/-- A child is no root. -/
theorem not_mem_map_id_of_child (hd : (idsAll ts).Nodup) (ht : t ∈ preorderAll ts)
    (hi : i ∈ t.children.map id) : i ∉ ts.map id := by
  have hd' := (perm_children ts).nodup_iff.mpr hd
  exact fun hr => (List.nodup_append.mp hd').2.2 i hr i (List.mem_flatMap.mpr ⟨t, ht, hi⟩) rfl

/-- Where a node is to lose all its children, it does not matter that it has lost one already. -/
theorem updateAll_removeAll {k : NodeId} (hd : (idsAll ts).Nodup) (ht : findIn? i ts = some t)
    (hk : k ∈ t.children.map id) :
    updateAll i (withChildren fun _ => []) (removeAll k ts) =
      updateAll i (withChildren fun _ => []) ts := by
  have hroot := not_mem_map_id_of_child hd (mem_of_findIn? ht).1 hk
  have hkids := mem_idsAll_of_mem_map_id hk
  induction ts using listInduction with
  | nil => rfl
  | cons j v cs ts ihc iht =>
    simp only [idsAll_cons, ids_node, List.cons_append, List.nodup_cons, List.mem_append,
      not_or, List.nodup_append] at hd
    obtain ⟨⟨hjc, hjt⟩, hcs, hts, hdisj⟩ := hd
    simp only [List.map_cons, id_node, List.mem_cons, not_or] at hroot
    rw [removeAll_cons_node, if_neg (Ne.symm hroot.1), updateAll_cons_node, updateAll_cons_node]
    rw [findIn?_cons_node] at ht
    by_cases hj : j = i
    · rw [if_pos hj] at ht
      obtain rfl := Option.some.inj ht
      have hkt : k ∉ idsAll ts := fun h => hdisj k hkids k h rfl
      rw [if_pos hj, if_pos hj, removeAll_of_not_mem hkt, withChildren, withChildren]
    · rw [if_neg hj] at ht
      rw [if_neg hj, if_neg hj]
      -- The node is among the children or behind; its child is on the same side and on no other.
      rcases Option.or_eq_some_iff.mp ht with hc | ⟨-, ht⟩
      · have htm := (mem_of_findIn? hc).1
        have hkt : k ∉ idsAll ts := fun h =>
          hdisj k (idsAll_children_subset htm hkids) k h rfl
        rw [removeAll_of_not_mem hkt, ihc hcs hc (not_mem_map_id_of_child hcs htm hk)]
      · have htm := (mem_of_findIn? ht).1
        have hkc : k ∉ idsAll cs := fun h =>
          hdisj k h k (idsAll_children_subset htm hkids) rfl
        rw [removeAll_of_not_mem hkc, iht hts ht (not_mem_map_id_of_child hts htm hk)]

theorem update_remove {k : NodeId} (hd : t.ids.Nodup) (hu : t.find? i = some u)
    (hk : k ∈ u.children.map id) :
    (t.remove k).update i (withChildren fun _ => []) = t.update i (withChildren fun _ => []) := by
  by_cases hkt : t.id = k
  · rw [remove_of_not_mem (hkt ▸ not_mem_idsAll_children hd)]
  · have hu' : findIn? i [t] = some u := by rw [findIn?, hu, Option.some_or]
    have h := updateAll_removeAll (by simpa using hd) hu' hk
    rw [removeAll, if_neg hkt] at h
    simpa [updateAll, removeAll] using h

/-- Only what becomes of the tree at the node matters. -/
theorem updateAll_congr {g h : Tree → Tree} (hd : (idsAll ts).Nodup)
    (hg : ∀ t, findIn? i ts = some t → g t = h t) : updateAll i g ts = updateAll i h ts := by
  by_cases hi : i ∈ idsAll ts
  · induction ts using listInduction with
    | nil => rfl
    | cons j v cs ts ihc iht =>
      simp only [idsAll_cons, ids_node, List.cons_append, List.nodup_cons, List.mem_append,
        not_or, List.nodup_append] at hd
      obtain ⟨⟨hjc, hjt⟩, hcs, hts, hdisj⟩ := hd
      rw [updateAll_cons_node, updateAll_cons_node]
      by_cases hj : j = i
      · have hit : i ∉ idsAll ts := hj ▸ hjt
        rw [if_pos hj, if_pos hj, hg _ (by rw [findIn?_cons_node, if_pos hj]),
          updateAll_of_not_mem hit, updateAll_of_not_mem hit]
      · have hi' : i ∈ idsAll cs ∨ i ∈ idsAll ts := by
          simpa [Ne.symm hj] using hi
        rw [if_neg hj, if_neg hj]
        rcases hi' with hc | ht
        · have hit : i ∉ idsAll ts := fun ht => hdisj i hc i ht rfl
          rw [updateAll_of_not_mem hit, updateAll_of_not_mem hit, ihc hcs (fun t ht => ?_) hc]
          apply hg
          rw [findIn?_cons_node, if_neg hj, ht, Option.some_or]
        · have hic : i ∉ idsAll cs := fun hc => hdisj i hc i ht rfl
          rw [updateAll_of_not_mem hic, updateAll_of_not_mem hic, iht hts (fun t ht => ?_) ht]
          apply hg
          rw [findIn?_cons_node, if_neg hj, findIn?_of_not_mem hic, Option.none_or, ht]
  · rw [updateAll_of_not_mem hi, updateAll_of_not_mem hi]

theorem update_congr {g h : Tree → Tree} (hd : t.ids.Nodup)
    (hg : ∀ u, t.find? i = some u → g u = h u) : t.update i g = t.update i h := by
  have h := updateAll_congr (g := g) (h := h) (i := i) (by simpa using hd : (idsAll [t]).Nodup)
    (by simpa [findIn?] using hg)
  simpa [updateAll] using h

theorem updateAll_self (i : NodeId) (ts : List Tree) : updateAll i (fun t => t) ts = ts := by
  induction ts using listInduction with
  | nil => rfl
  | cons j v cs ts ihc iht => rw [updateAll_cons_node, ihc, iht, ite_self]

/-- A change that leaves the tree at its node alone changes nothing. -/
theorem update_eq_self {g : Tree → Tree} (hd : t.ids.Nodup)
    (hg : ∀ u, t.find? i = some u → g u = u) : t.update i g = t := by
  have h := updateAll_self i [t]
  rw [updateAll, updateAll] at h
  rw [update_congr hd hg]
  exact (List.cons.inj h).1

/-- No tree is inside one that is listed behind it. -/
theorem pairwise_preorderAll (hd : (idsAll ts).Nodup) :
    (preorderAll ts).Pairwise fun t u => t.id ∉ u.ids := by
  induction ts using listInduction with
  | nil => exact .nil
  | cons j v cs ts ihc iht =>
    simp only [idsAll_cons, ids_node, List.cons_append, List.nodup_cons, List.mem_append,
      not_or, List.nodup_append] at hd
    obtain ⟨⟨hjc, hjt⟩, hcs, hts, hdisj⟩ := hd
    rw [preorderAll_cons, preorder_node, List.cons_append, List.pairwise_cons,
      List.pairwise_append]
    refine ⟨fun u hu hj => ?_, ihc hcs, iht hts, fun t ht u hu htu => ?_⟩
    · rcases List.mem_append.mp hu with hu | hu
      · exact hjc (ids_subset hu hj)
      · exact hjt (ids_subset hu hj)
    · exact hdisj t.id (List.mem_map_of_mem ht) t.id (ids_subset hu htu) rfl

/-! ## No new numbers -/

theorem mem_idsAll_updateAll {g : Tree → Tree} {P : NodeId → Prop}
    (hg : ∀ t, ∀ k ∈ (g t).ids, k ∈ t.ids ∨ P k) (h : j ∈ idsAll (updateAll i g ts)) :
    j ∈ idsAll ts ∨ P j := by
  induction ts using listInduction with
  | nil => exact .inl h
  | cons k v cs ts ihc iht =>
    rw [updateAll_cons_node, idsAll_cons] at h
    rw [idsAll_cons, List.mem_append]
    rcases List.mem_append.mp h with hc | ht
    · split at hc
      · exact (hg _ j hc).imp_left .inl
      · rw [ids_node, List.mem_cons] at hc
        rw [ids_node, List.mem_cons]
        rcases hc with rfl | hc
        · exact .inl (.inl (.inl rfl))
        · exact (ihc hc).imp_left fun h => .inl (.inr h)
    · exact (iht ht).imp_left .inr

theorem mem_ids_update {g : Tree → Tree} {P : NodeId → Prop}
    (hg : ∀ t, ∀ k ∈ (g t).ids, k ∈ t.ids ∨ P k) (h : j ∈ (t.update i g).ids) :
    j ∈ t.ids ∨ P j := by
  have h' : j ∈ idsAll (updateAll i g [t]) := by simpa [updateAll] using h
  simpa using mem_idsAll_updateAll hg h'

/-- More children take nothing away. -/
theorem idsAll_subset_updateAll_append (q : NodeId) (clones ts : List Tree) :
    idsAll ts ⊆ idsAll (updateAll q (withChildren (· ++ clones)) ts) := by
  induction ts using listInduction with
  | nil => exact List.nil_subset _
  | cons k v cs ts ihc iht =>
    rw [updateAll_cons_node, idsAll_cons, idsAll_cons]
    refine List.append_subset.mpr ⟨?_, List.subset_append_of_subset_right _ iht⟩
    refine List.subset_append_of_subset_left _ ?_
    split
    · rw [withChildren, ids_node, ids_node, idsAll_append]
      exact List.cons_subset_cons k (List.subset_append_left _ _)
    · rw [ids_node, ids_node]
      exact List.cons_subset_cons k ihc

theorem ids_subset_update_append (q : NodeId) (clones : List Tree) (t : Tree) :
    t.ids ⊆ (t.update q (withChildren (· ++ clones))).ids := by
  have hsub := idsAll_subset_updateAll_append q clones [t]
  simpa [updateAll] using hsub

theorem ids_clear_subset (t : Tree) : (t.withChildren fun _ => []).ids ⊆ t.ids := by
  obtain ⟨i, v, cs⟩ := t
  simp [withChildren]

theorem removeAll_append (i : NodeId) (ts us : List Tree) :
    removeAll i (ts ++ us) = removeAll i ts ++ removeAll i us := by
  induction ts with
  | nil => rfl
  | cons t ts ih =>
    rw [List.cons_append, removeAll, removeAll, ih]
    split <;> rfl

theorem updateAll_append (g : Tree → Tree) (i : NodeId) (ts us : List Tree) :
    updateAll i g (ts ++ us) = updateAll i g ts ++ updateAll i g us := by
  induction ts with
  | nil => rfl
  | cons t ts ih => rw [List.cons_append, updateAll, updateAll, ih, List.cons_append]

theorem mem_idsAll_removeAll (h : j ∈ idsAll (removeAll i ts)) : j ∈ idsAll ts := by
  induction ts using listInduction with
  | nil => exact h
  | cons k v cs ts ihc iht =>
    rw [removeAll_cons_node] at h
    rw [idsAll_cons, ids_node, List.cons_append, List.mem_cons, List.mem_append]
    split at h
    · exact .inr (.inr (iht h))
    · rw [idsAll_cons, ids_node, List.cons_append, List.mem_cons, List.mem_append] at h
      exact h.imp_right (Or.imp ihc iht)

theorem mem_ids_remove (h : j ∈ (t.remove i).ids) : j ∈ t.ids := by
  obtain ⟨k, v, cs⟩ := t
  rw [remove, ids_node] at h
  rw [ids_node]
  exact List.mem_cons.mpr ((List.mem_cons.mp h).imp_right mem_idsAll_removeAll)

/-- What is gone after a removal was inside what was removed. -/
theorem exists_of_not_mem_idsAll_removeAll (hj : j ∈ idsAll ts)
    (h : j ∉ idsAll (removeAll i ts)) : ∃ u ∈ preorderAll ts, u.id = i ∧ j ∈ u.ids := by
  induction ts using listInduction with
  | nil => cases hj
  | cons k v cs ts ihc iht =>
    rw [idsAll_cons, List.mem_append] at hj
    rw [removeAll_cons_node] at h
    rw [preorderAll_cons]
    have hafter : j ∈ idsAll ts → j ∉ idsAll (removeAll i ts) →
        ∃ u ∈ (node k v cs).preorder ++ preorderAll ts, u.id = i ∧ j ∈ u.ids := by
      intro hj h
      obtain ⟨u, hu, hui⟩ := iht hj h
      exact ⟨u, List.mem_append_right _ hu, hui⟩
    split at h
    · next hk =>
      rcases hj with hj | hj
      · exact ⟨node k v cs, List.mem_append_left _ (self_mem_preorder _), hk, hj⟩
      · exact hafter hj h
    · rw [idsAll_cons, List.mem_append, not_or, ids_node, List.mem_cons, not_or] at h
      rcases hj with hj | hj
      · rw [ids_node, List.mem_cons] at hj
        obtain ⟨u, hu, hui⟩ := ihc (hj.resolve_left h.1.1) h.1.2
        exact ⟨u, List.mem_append_left _ (List.mem_cons_of_mem _ hu), hui⟩
      · exact hafter hj h.2

theorem exists_of_not_mem_ids_remove (hj : j ∈ t.ids) (h : j ∉ (t.remove i).ids) :
    ∃ u, u ∈ t.preorder ∧ u.id = i ∧ j ∈ u.ids := by
  obtain ⟨k, v, cs⟩ := t
  rw [ids_node, List.mem_cons] at hj
  rw [remove, ids_node, List.mem_cons, not_or] at h
  obtain ⟨u, hu, hui⟩ := exists_of_not_mem_idsAll_removeAll (hj.resolve_left h.1) h.2
  exact ⟨u, List.mem_cons_of_mem _ hu, hui⟩

theorem foldl_remove_of_not_mem {l : List NodeId} (h : ∀ i ∈ l, i ∉ t.ids) :
    l.foldl (fun u i => u.remove i) t = t := by
  induction l with
  | nil => rfl
  | cons i l ih =>
    have hi : i ∉ idsAll t.children := fun hi =>
      h i List.mem_cons_self (mem_ids_of_mem_children hi)
    rw [List.foldl_cons, remove_of_not_mem hi]
    exact ih fun j hj => h j (List.mem_cons_of_mem _ hj)

/-- What has been removed is no longer there, unless it is the root. -/
theorem not_mem_idsAll_removeAll (ts : List Tree) : i ∉ idsAll (removeAll i ts) := by
  induction ts using listInduction with
  | nil => exact List.not_mem_nil
  | cons k v cs ts ihc iht =>
    rw [removeAll_cons_node]
    split
    · exact iht
    · next hk => simp [Ne.symm hk, ihc, iht]

theorem mem_ids_foldl_remove {l : List NodeId} (h : j ∈ (l.foldl (fun u i => u.remove i) t).ids) :
    j ∈ t.ids := by
  induction l generalizing t with
  | nil => exact h
  | cons i l ih => exact mem_ids_remove (ih h)

theorem id_foldl_remove (l : List NodeId) (t : Tree) :
    (l.foldl (fun u i => u.remove i) t).id = t.id := by
  induction l generalizing t with
  | nil => rfl
  | cons i l ih => rw [List.foldl_cons, ih, id_remove]

theorem eq_id_of_mem_ids_foldl_remove {l : List NodeId} (hj : j ∈ l)
    (h : j ∈ (l.foldl (fun u i => u.remove i) t).ids) : j = t.id := by
  induction l generalizing t with
  | nil => cases hj
  | cons i l ih =>
    rcases List.mem_cons.mp hj with rfl | hj
    · have hmem : j ∈ (t.remove j).ids := mem_ids_foldl_remove h
      rw [ids_eq_cons, id_remove, List.mem_cons, children_remove] at hmem
      exact hmem.resolve_right (not_mem_idsAll_removeAll t.children)
    · rw [ih hj h, id_remove]

/-! ## Changes that commute -/

variable {p q : NodeId} {clones more : List Tree}

theorem removeAll_comm (i j : NodeId) (ts : List Tree) :
    removeAll i (removeAll j ts) = removeAll j (removeAll i ts) := by
  induction ts using listInduction with
  | nil => rfl
  | cons k v cs ts ihc iht =>
    rw [removeAll_cons_node, removeAll_cons_node]
    by_cases hi : k = i <;> by_cases hj : k = j
    · rw [if_pos hj, if_pos hi, iht]
    · rw [if_neg hj, if_pos hi, removeAll_cons_node, if_pos hi, iht]
    · rw [if_pos hj, if_neg hi, removeAll_cons_node, if_pos hj, iht]
    · rw [if_neg hj, if_neg hi, removeAll_cons_node, if_neg hi, removeAll_cons_node, if_neg hj,
        ihc, iht]

theorem remove_comm (i j : NodeId) (t : Tree) : (t.remove j).remove i = (t.remove i).remove j := by
  cases t
  rw [remove, remove, remove, remove, removeAll_comm]

/-- New children do not matter to what is taken out elsewhere. -/
theorem removeAll_updateAll_append (hi : i ∉ idsAll clones) (ts : List Tree) :
    removeAll i (updateAll q (withChildren (· ++ clones)) ts) =
      updateAll q (withChildren (· ++ clones)) (removeAll i ts) := by
  induction ts using listInduction with
  | nil => rfl
  | cons k v cs ts ihc iht =>
    rw [updateAll_cons_node, removeAll_cons_node]
    by_cases hk : k = i <;> by_cases hq : k = q
    · rw [if_pos hk, if_pos hq, withChildren, removeAll_cons_node, if_pos hk, iht]
    · rw [if_pos hk, if_neg hq, removeAll_cons_node, if_pos hk, iht]
    · rw [if_neg hk, if_pos hq, withChildren, removeAll_cons_node, if_neg hk, updateAll_cons_node,
        if_pos hq, withChildren, removeAll_append, removeAll_of_not_mem hi, iht]
    · rw [if_neg hk, if_neg hq, removeAll_cons_node, if_neg hk, updateAll_cons_node, if_neg hq,
        ihc, iht]

theorem remove_update_append (hi : i ∉ idsAll clones) (q : NodeId) (t : Tree) :
    (t.update q (withChildren (· ++ clones))).remove i =
      (t.remove i).update q (withChildren (· ++ clones)) := by
  obtain ⟨k, v, cs⟩ := t
  rw [update, remove, update]
  split
  · rw [withChildren, withChildren, remove, removeAll_append, removeAll_of_not_mem hi]
  · rw [remove, removeAll_updateAll_append hi]

/-- Two nodes gain their children in any order. -/
theorem updateAll_append_comm (hpq : p ≠ q) (hp : p ∉ idsAll more) (hq : q ∉ idsAll clones)
    (ts : List Tree) :
    updateAll p (withChildren (· ++ clones)) (updateAll q (withChildren (· ++ more)) ts) =
      updateAll q (withChildren (· ++ more)) (updateAll p (withChildren (· ++ clones)) ts) := by
  induction ts using listInduction with
  | nil => rfl
  | cons k v cs ts ihc iht =>
    rw [updateAll_cons_node, updateAll_cons_node]
    by_cases hkp : k = p
    · have hkq : k ≠ q := hkp ▸ hpq
      rw [if_neg hkq, if_pos hkp, updateAll_cons_node, if_pos hkp, withChildren, withChildren,
        updateAll_cons_node, if_neg hkq, updateAll_append, updateAll_of_not_mem hq, iht]
    · rw [if_neg hkp]
      by_cases hkq : k = q
      · rw [if_pos hkq, withChildren, updateAll_cons_node, if_neg hkp, updateAll_cons_node,
          if_pos hkq, withChildren, updateAll_append, updateAll_of_not_mem hp, iht]
      · rw [if_neg hkq, updateAll_cons_node, if_neg hkp, updateAll_cons_node, if_neg hkq, ihc, iht]

theorem update_append_comm (hpq : p ≠ q) (hp : p ∉ idsAll more) (hq : q ∉ idsAll clones)
    (t : Tree) :
    (t.update q (withChildren (· ++ more))).update p (withChildren (· ++ clones)) =
      (t.update p (withChildren (· ++ clones))).update q (withChildren (· ++ more)) := by
  have h := updateAll_append_comm hpq hp hq [t]
  rw [updateAll, updateAll, updateAll, updateAll, updateAll, updateAll] at h
  exact (List.cons.inj h).1

end Tree

end Stencil.Markup

import Stencil.Proofs.Markup.Forest

/-!
# What a change does to the older nodes

A change of a forest makes new nodes and changes the trees of the older ones. `Evolves n G f g`
says the second: the nodes below `n` are those that count as old, and the tree found at each of
them in `g` is the image under `G` of the tree found in `f`. Old nodes never gain a parent, and what
`G` adds to a tree is new, so a detached tree stays detached and a node that has left the document
does not come back.

Every operation on forests is one step of this kind, and steps compose.
-/

namespace Stencil.Markup

namespace Tree

variable {i j : NodeId} {t : Tree} {g : Tree → Tree}

theorem map_id_updateAll (hg : ∀ u, (g u).id = u.id) (i : NodeId) (ts : List Tree) :
    (updateAll i g ts).map id = ts.map id := by
  induction ts with
  | nil => rfl
  | cons t ts ih => rw [updateAll, List.map_cons, List.map_cons, ih, id_update hg]

theorem map_id_children_update (hg : ∀ u, (g u).id = u.id) (h : t.id ≠ i) :
    (t.update i g).children.map id = t.children.map id := by
  obtain ⟨j, v, cs⟩ := t
  rw [id_node] at h
  rw [update, if_neg h]
  exact map_id_updateAll hg i cs

theorem value_update_withChildren (g : List Tree → List Tree) (i : NodeId) (t : Tree) :
    (t.update i (withChildren g)).value = t.value := by
  cases t
  rw [update]
  split <;> rfl

theorem map_id_removeAll_subset (i : NodeId) (ts : List Tree) :
    (removeAll i ts).map id ⊆ ts.map id := by
  induction ts with
  | nil => exact List.Subset.refl _
  | cons t ts ih =>
    rw [removeAll]
    split
    · exact List.subset_cons_of_subset _ ih
    · rw [List.map_cons, List.map_cons, id_remove]
      exact List.cons_subset_cons _ ih

end Tree

namespace Forest
open Markup.Tree (idsAll withValue withChildren)

variable {n m i j p q : NodeId} {f g h : Forest} {t u : Tree} {G H : Tree → Tree}

/-- `g` comes from `f` by steps that turn the tree at each node below `n` into its image. -/
structure Evolves (n : NodeId) (G : Tree → Tree) (f g : Forest) : Prop where
  root : g.root = f.root
  le_next : n ≤ f.next
  next_le : f.next ≤ g.next
  find? : ∀ i < n, g.find? i = (f.find? i).map G
  /-- What an old tree gains is new. -/
  ids : ∀ i < n, ∀ t, f.find? i = some t → ∀ k ∈ (G t).ids, k ∈ t.ids ∨ n ≤ k
  /-- An old node keeps its parent or loses it. -/
  parent? : ∀ i < n, ∀ p, g.parent? i = some p → f.parent? i = some p

namespace Evolves

theorem refl (h : n ≤ f.next) : Evolves n (fun t => t) f f where
  root := rfl
  le_next := h
  next_le := Nat.le_refl _
  find? _ _ := Option.map_id'.symm ▸ rfl
  ids _ _ _ _ _ hk := .inl hk
  parent? _ _ _ hp := hp

theorem trans (hg : Evolves n G f g) (hh : Evolves n H g h) : Evolves n (H ∘ G) f h where
  root := hh.root.trans hg.root
  le_next := hg.le_next
  next_le := Nat.le_trans hg.next_le hh.next_le
  find? i hi := by rw [hh.find? i hi, hg.find? i hi, Option.map_map]
  ids i hi t ht k hk := by
    have ht' : g.find? i = some (G t) := by rw [hg.find? i hi, ht, Option.map_some]
    rcases hh.ids i hi (G t) ht' k hk with hk | hk
    · exact hg.ids i hi t ht k hk
    · exact .inr hk
  parent? i hi p hp := hg.parent? i hi p (hh.parent? i hi p hp)

theorem mono (hmn : m ≤ n) (hg : Evolves n G f g) : Evolves m G f g where
  root := hg.root
  le_next := Nat.le_trans hmn hg.le_next
  next_le := hg.next_le
  find? i hi := hg.find? i (Nat.lt_of_lt_of_le hi hmn)
  ids i hi t ht k hk :=
    (hg.ids i (Nat.lt_of_lt_of_le hi hmn) t ht k hk).imp_right (Nat.le_trans hmn)
  parent? i hi := hg.parent? i (Nat.lt_of_lt_of_le hi hmn)

/-- Only what the images of old trees are matters. -/
theorem congr (hg : Evolves n G f g) (hG : ∀ i < n, ∀ t, f.find? i = some t → G t = H t) :
    Evolves n H f g where
  root := hg.root
  le_next := hg.le_next
  next_le := hg.next_le
  find? i hi := by
    rw [hg.find? i hi]
    cases ht : f.find? i with
    | none => rfl
    | some t => rw [Option.map_some, Option.map_some, hG i hi t ht]
  ids i hi t ht := hG i hi t ht ▸ hg.ids i hi t ht
  parent? := hg.parent?

theorem of_find? (hg : Evolves n G f g) (hf : ∀ i < n, g.find? i = (f.find? i).map H) :
    Evolves n H f g := by
  refine hg.congr ?_
  intro i hi t ht
  have h := (hg.find? i hi).symm.trans (hf i hi)
  rw [ht, Option.map_some, Option.map_some] at h
  exact Option.some.inj h

theorem find?_some (hg : Evolves n G f g) (hi : i < n) (ht : f.find? i = some t) :
    g.find? i = some (G t) := by
  rw [hg.find? i hi, ht, Option.map_some]

theorem parent?_eq_none (hg : Evolves n G f g) (hi : i < n) (hp : f.parent? i = none) :
    g.parent? i = none := by
  cases h : g.parent? i with
  | none => rfl
  | some p => rw [hg.parent? i hi p h] at hp; cases hp

theorem id_document (hg : Evolves n G f g) : g.document.id = f.document.id := by
  rw [Forest.id_document, Forest.id_document, hg.root]

theorem document (hg : Evolves n G f g) (hn : f.document.id < n) : g.document = G f.document := by
  have h := hg.find? _ hn
  rw [f.find?_document, Option.map_some, ← hg.id_document, g.find?_document] at h
  exact Option.some.inj h

/-- An old node in the image of an old tree was in that tree: what the tree gains is new. -/
theorem mem_of_mem_image (hg : Evolves n G f g) (hi : i < n) (ht : f.find? i = some t)
    (hj : j ∈ (G t).ids) (hjn : j < n) : j ∈ t.ids :=
  (hg.ids i hi t ht j hj).resolve_right (Nat.not_le.mpr hjn)

/-- A node that is not in the document does not come into it. -/
theorem not_mem_document (hg : Evolves n G f g) (hn : f.document.id < n) (hi : i < n)
    (h : i ∉ f.document.ids) : i ∉ g.document.ids := by
  rw [hg.document hn]
  intro hmem
  exact h (hg.mem_of_mem_image hn f.find?_document hmem hi)

end Evolves

/-! ## The operations -/

/-- A node is below its parent. -/
theorem mem_of_parent? (h : f.parent? i = some p) : ∃ t, f.find? p = some t ∧ i ∈ idsAll t.children := by
  obtain ⟨t, ht, hi⟩ := parent?_eq_some_iff.mp h
  exact ⟨t, ht, Tree.mem_idsAll_of_mem_map_id hi⟩

/-- A new tree has nothing old in it, since no old node has a new parent. -/
theorem Evolves.le_of_mem (hg : Evolves f.next G f g) (ht : g.find? i = some t) (hi : f.next ≤ i) :
    ∀ k ∈ t.ids, f.next ≤ k := by
  have hbelow : ∀ ts : List Tree, (∀ u ∈ ts, g.find? u.id = some u) →
      (∀ u ∈ ts, f.next ≤ u.id) → ∀ k ∈ idsAll ts, f.next ≤ k := by
    intro ts
    induction ts using Tree.listInduction with
    | nil => exact fun _ _ => nofun
    | cons j v cs ts ihc iht =>
      intro hfind hnew k hk
      have hj := hfind _ List.mem_cons_self
      have hchildren : ∀ u ∈ cs, g.find? u.id = some u := fun u hu =>
        find?_of_mem_preorder hj (Tree.mem_preorder_of_mem_children hu)
      rw [Tree.idsAll_cons, Tree.ids_node, List.cons_append, List.mem_cons, List.mem_append] at hk
      rcases hk with rfl | hk | hk
      · exact hnew _ List.mem_cons_self
      · refine ihc hchildren (fun u hu => ?_) k hk
        -- an old child would have had this parent before
        refine Nat.le_of_not_lt fun hlt => ?_
        have hparent : g.parent? u.id = some j :=
          parent?_eq_some_iff.mpr ⟨_, hj, List.mem_map_of_mem hu⟩
        obtain ⟨w, hw, -⟩ := mem_of_parent? (hg.parent? u.id hlt j hparent)
        exact Nat.not_lt.mpr (hnew _ List.mem_cons_self) (lt_next_of_find? hw)
      · exact iht (fun u hu => hfind u (List.mem_cons_of_mem _ hu))
          (fun u hu => hnew u (List.mem_cons_of_mem _ hu)) k hk
  obtain rfl := id_of_find? ht
  have hone := hbelow [t] (by simpa using ht) (by simpa using hi)
  simpa using hone

theorem parent?_setValue (f : Forest) (i j : NodeId) (g : Value → Value) :
    (f.setValue i g).parent? j = f.parent? j := by
  have hchildren : ∀ t : Tree,
      (t.update i (withValue g)).children.map Tree.id = t.children.map Tree.id := by
    intro t
    -- At the node itself the children stay, above it they keep their numbers.
    by_cases h : t.id = i
    · subst h
      rw [Tree.update_id]
      cases t
      rfl
    · exact Tree.map_id_children_update (Tree.id_withValue g) h
  refine Option.ext ?_
  intro p
  rw [parent?_eq_some_iff, parent?_eq_some_iff, find?_setValue]
  cases f.find? p with
  | none => simp
  | some t => simp only [Option.map_some, Option.some.injEq, exists_eq_left', hchildren]

theorem evolves_setValue (f : Forest) (i : NodeId) (g : Value → Value) :
    Evolves f.next (Tree.update i (withValue g)) f (f.setValue i g) where
  root := rfl
  le_next := Nat.le_refl _
  next_le := Nat.le_refl _
  find? j _ := find?_setValue f i j g
  ids j _ t _ k hk := Tree.mem_ids_update (P := fun k => f.next ≤ k)
    (fun u k hk => .inl (by cases u; simpa [withValue] using hk)) hk
  parent? j _ p hp := parent?_setValue f i j g ▸ hp

theorem evolves_detach (f : Forest) (i : NodeId) :
    Evolves f.next (Tree.remove i) f (f.detach i) where
  root := root_detach f i
  le_next := Nat.le_refl _
  next_le := Nat.le_of_eq (next_detach f i).symm
  find? j _ := find?_detach f i j
  ids j _ t _ k hk := .inl (Tree.mem_ids_remove hk)
  parent? j _ p hp := by
    obtain ⟨t, ht, hj⟩ := parent?_eq_some_iff.mp hp
    rw [find?_detach, Option.map_eq_some_iff] at ht
    obtain ⟨u, hu, rfl⟩ := ht
    rw [Tree.children_remove] at hj
    exact parent?_eq_some_iff.mpr ⟨u, hu, Tree.map_id_removeAll_subset i _ hj⟩

/-- Detaching several nodes. -/
theorem evolves_foldl_detach (f : Forest) (l : List NodeId) :
    Evolves f.next (fun t => l.foldl (fun t i => t.remove i) t) f (l.foldl detach f) := by
  induction l generalizing f with
  | nil => exact .refl (Nat.le_refl _)
  | cons i l ih =>
    have h := ih (f.detach i)
    rw [next_detach] at h
    exact (evolves_detach f i).trans h

theorem evolves_clear (f : Forest) (i : NodeId) :
    Evolves f.next (Tree.update i (withChildren fun _ => [])) f (f.clear i) :=
  (evolves_foldl_detach f (f.children i)).of_find? fun j _ => find?_clear f i j

/-- A new detached tree changes nothing. -/
theorem evolves_adding (f : Forest) (t : Tree) (free : NodeId) (hd : t.ids.Nodup)
    (hb : ∀ i ∈ t.ids, f.next ≤ i ∧ i < free) :
    Evolves f.next (fun t => t) f (f.adding t free hd hb) where
  root := rfl
  le_next := Nat.le_refl _
  next_le := by
    obtain ⟨h1, h2⟩ := hb t.id t.id_mem_ids
    exact Nat.le_trans h1 (Nat.le_of_lt h2)
  find? j hj := by
    rw [find?_adding, Tree.find?_of_not_mem fun h => Nat.not_lt.mpr (hb j h).1 hj, Option.or_none,
      Option.map_id']
  ids _ _ _ _ _ hk := .inl hk
  parent? j hj p hp := by
    obtain ⟨u, hu, hju⟩ := parent?_eq_some_iff.mp hp
    rw [find?_adding, Option.or_eq_some_iff] at hu
    rcases hu with hu | ⟨-, hu⟩
    · exact parent?_eq_some_iff.mpr ⟨u, hu, hju⟩
    · -- A parent in the new tree would make `j` a new node.
      have hjt : j ∈ t.ids := Tree.childIds_subset (Tree.mem_of_find? hu).1 hju
      exact absurd hj (Nat.not_lt.mpr (hb j hjt).1)

/-- The new tree has no parent. -/
theorem parent?_adding (f : Forest) (t : Tree) (free : NodeId) (hd : t.ids.Nodup)
    (hb : ∀ i ∈ t.ids, f.next ≤ i ∧ i < free) : (f.adding t free hd hb).parent? t.id = none := by
  cases hp : (f.adding t free hd hb).parent? t.id with
  | none => rfl
  | some p =>
    obtain ⟨u, hu, hc⟩ := mem_of_parent? hp
    rw [find?_adding, Option.or_eq_some_iff] at hu
    -- Neither an older tree nor a tree inside the new one has the new root below it.
    rcases hu with hu | ⟨-, hu⟩
    · have hmem : t.id ∈ u.ids := Tree.mem_ids_of_mem_children hc
      exact absurd (lt_next hu hmem) (Nat.not_lt.mpr (hb _ t.id_mem_ids).1)
    · have hin := Tree.idsAll_children_subset_of_mem_preorder (Tree.mem_of_find? hu).1 hc
      exact absurd hin (Tree.not_mem_idsAll_children hd)

theorem evolves_create (f : Forest) (v : Value) : Evolves f.next (fun t => t) f (f.create v).1 :=
  evolves_adding f _ _ (by simp) (by simp)

theorem parent?_create (f : Forest) (v : Value) : (f.create v).1.parent? f.next = none :=
  parent?_adding f (.node f.next v []) _ (by simp) (by simp)

theorem evolves_copy (f : Forest) (i : NodeId) : Evolves f.next (fun t => t) f (f.copy i).1 := by
  unfold copy
  split
  · exact .refl (Nat.le_refl _)
  · exact evolves_adding f _ _ (Tree.nodup_ids_relabel _ _) (Tree.mem_ids_relabel _ _)

/-- The copy of a tree is found under the first number that was free. -/
theorem find?_snd_copy (h : f.find? i = some t) :
    (f.copy i).1.find? f.next = some (t.relabel f.next).1 := by
  have hself : (t.relabel f.next).1.find? f.next = some (t.relabel f.next).1 := by
    cases t
    rw [Tree.relabel, Tree.find?, if_pos rfl]
  rw [find?_copy h, find?_of_next_le (Nat.le_refl _), Option.none_or, hself]

theorem parent?_snd_copy (h : f.find? i = some t) : (f.copy i).1.parent? f.next = none := by
  have hroot := parent?_adding f _ _ (t.nodup_ids_relabel f.next) (t.mem_ids_relabel f.next)
  rw [Tree.id_relabel] at hroot
  rw [copy_eq h, hroot]

/-- A detached tree of new nodes becomes the last child of `p`. -/
theorem evolves_append (hn : n ≤ f.next) (ht : f.find? i = some t) (hroot : f.parent? i = none)
    (hnew : ∀ k ∈ t.ids, n ≤ k) (hp : p < n) (hu : f.find? p = some u) :
    Evolves n (Tree.update p (withChildren (· ++ [t]))) f (f.append p i) := by
  have hpt : p ∉ t.ids := fun h => Nat.not_lt.mpr (hnew p h) hp
  -- The tree has no parent, so nothing is lost at its old place.
  have hfind : ∀ j, (f.append p i).find? j =
      (f.find? j).map (Tree.update p (withChildren (· ++ [t]))) := by
    intro j
    rw [find?_append ht hpt hu]
    cases hw : f.find? j with
    | none => rfl
    | some w =>
      rw [Option.map_some, Option.map_some,
        Tree.remove_of_not_mem (not_mem_children_of_parent? hroot hw)]
  refine ⟨root_append f p i, hn, Nat.le_of_eq (next_append f p i).symm, fun j _ => hfind j, ?_, ?_⟩
  · intro j _ w _ k hk
    refine Tree.mem_ids_update (P := fun k => n ≤ k) ?_ hk
    intro u k hk
    rw [Tree.ids_eq_cons, Tree.children_withChildren, Tree.id_withChildren, Tree.idsAll_append,
      ← List.cons_append, ← Tree.ids_eq_cons] at hk
    rcases List.mem_append.mp hk with hk | hk
    · exact .inl hk
    · exact .inr (hnew k (by simpa using hk))
  · intro j hj q hq
    obtain ⟨w, hw, hjw⟩ := parent?_eq_some_iff.mp hq
    rw [hfind, Option.map_eq_some_iff] at hw
    obtain ⟨w, hw, rfl⟩ := hw
    refine parent?_eq_some_iff.mpr ⟨w, hw, ?_⟩
    -- The children of `p` are the old ones and a new one; those of the others are the same.
    by_cases hwp : w.id = p
    · subst hwp
      rw [Tree.update_id, Tree.children_withChildren, List.map_append, List.mem_append] at hjw
      refine hjw.resolve_right ?_
      intro h
      have hjt : j = t.id := by simpa using h
      exact Nat.not_lt.mpr (hnew j (hjt ▸ t.id_mem_ids)) hj
    · rwa [Tree.map_id_children_update (Tree.id_withChildren _) hwp] at hjw

theorem evolves_replaceChildren (f : Forest) (i : NodeId) (v : Value) :
    Evolves f.next (Tree.update i (withChildren fun _ => [.node f.next v []])) f
      (f.replaceChildren i v) := by
  have hcreate : Evolves f.next _ f ((f.clear i).create v).1 :=
    (evolves_clear f i).trans (next_clear f i ▸ evolves_create (f.clear i) v)
  have hfind : ∀ j < f.next, (f.replaceChildren i v).find? j =
      (f.find? j).map (Tree.update i (withChildren fun _ => [.node f.next v []])) :=
    fun j hj => find?_replaceChildren f i v (Nat.ne_of_lt hj)
  cases hi : f.find? i with
  | none =>
    -- There is nothing to append to: the new node stays detached and no old tree changes.
    rw [replaceChildren_of_find?_eq_none v hi] at hfind ⊢
    exact hcreate.of_find? hfind
  | some t =>
    have hin := lt_next_of_find? hi
    have hroot : ((f.clear i).create v).1.parent? f.next = none :=
      next_clear f i ▸ parent?_create (f.clear i) v
    have happend := evolves_append hcreate.next_le (find?_next_create_clear f i v) hroot (by simp)
      hin (hcreate.find?_some hin hi)
    rw [replaceChildren_eq] at hfind ⊢
    exact (hcreate.trans happend).of_find? hfind

end Forest

end Stencil.Markup

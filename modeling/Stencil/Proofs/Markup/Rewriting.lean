import Stencil.Proofs.Markup.Shape

/-!
# Rewriting a tree node by node

An `Edit` says what becomes of one node: its new value and, if its children are replaced, the leaf
that replaces them. Rewriting a tree edits its nodes from the root downward; what an edit has
replaced is not visited. Editing the nodes of a tree one after the other in document order comes to
the same (`foldl_update_ids`), because an edit changes no node but its own and those it removes.

Leaves carry numbers, which differ from copy to copy. Edits that are equal apart from them
(`Edit.Like`) rewrite trees that are equal apart from their numbers to trees that are
(`bare_rewrite`).
-/

namespace Stencil.Markup

/-- What becomes of a node by its value: the new value, and the tree that replaces its children. -/
abbrev Edit := Value → Value × Option Tree

namespace Edit

/-- The edit that changes nothing. -/
def keep : Edit := fun v => (v, none)

/-- One edit after the other. -/
def andThen (e g : Edit) : Edit := fun v => ((g (e v).1).1, (g (e v).1).2.or (e v).2)

/-- Edits that are equal apart from the numbers of their leaves. -/
def Like (e g : Edit) : Prop :=
  ∀ v, (e v).1 = (g v).1 ∧ (e v).2.map Tree.bare = (g v).2.map Tree.bare

/-- The leaves of the edit have numbers from `n` on. -/
def Fresh (n : NodeId) (e : Edit) : Prop := ∀ v, ∀ t ∈ (e v).2, ∀ k ∈ t.ids, n ≤ k

variable {n m : NodeId} {e g e' g' : Edit}

theorem Like.refl (e : Edit) : e.Like e := fun _ => ⟨rfl, rfl⟩

theorem Like.andThen (he : e.Like e') (hg : g.Like g') : (e.andThen g).Like (e'.andThen g') := by
  intro v
  obtain ⟨he1, he2⟩ := he v
  obtain ⟨hg1, hg2⟩ := hg (e v).1
  rw [he1] at hg1 hg2
  simp only [Edit.andThen, he1]
  refine ⟨hg1, ?_⟩
  rw [Option.map_or, Option.map_or, he2, hg2]

theorem fresh_keep (n : NodeId) : keep.Fresh n := by
  intro v t ht
  simp [keep] at ht

theorem Fresh.andThen (he : e.Fresh n) (hg : g.Fresh n) : (e.andThen g).Fresh n := by
  intro v t ht k hk
  simp only [Edit.andThen, Option.mem_def, Option.or_eq_some_iff] at ht
  rcases ht with ht | ⟨-, ht⟩
  · exact hg _ t ht k hk
  · exact he v t ht k hk

theorem Fresh.mono (h : m ≤ n) (he : e.Fresh n) : e.Fresh m :=
  fun v t ht k hk => Nat.le_trans h (he v t ht k hk)

end Edit

namespace Tree

variable {i n : NodeId} {t : Tree} {ts : List Tree} {e g : NodeId → Edit}

/-- The tree with its root node edited. -/
def edited (e : Edit) : Tree → Tree
  | node i v cs => node i (e v).1 (((e v).2.map fun leaf => [leaf]).getD cs)

mutual

/-- The tree with every node edited, from the root downward. -/
def rewrite (e : NodeId → Edit) : Tree → Tree
  | node i v cs =>
    node i (e i v).1 <| match (e i v).2 with
      | some leaf => [leaf]
      | none => rewriteAll e cs

/-- The trees of a list with every node edited. -/
def rewriteAll (e : NodeId → Edit) : List Tree → List Tree
  | [] => []
  | t :: ts => rewrite e t :: rewriteAll e ts

end

@[simp] theorem id_edited (e : Edit) (t : Tree) : (t.edited e).id = t.id := by
  cases t
  rfl

theorem edited_keep (t : Tree) : t.edited Edit.keep = t := by
  cases t
  rfl

theorem edited_edited (e g : Edit) (t : Tree) : (t.edited e).edited g = t.edited (e.andThen g) := by
  obtain ⟨i, v, cs⟩ := t
  rw [edited, edited, edited, Edit.andThen]
  cases (g (e v).1).2 <;> rfl

theorem update_keep (i : NodeId) (hd : t.ids.Nodup) : t.update i (edited Edit.keep) = t :=
  update_eq_self hd fun u _ => edited_keep u

/-! ## One after the other -/

/-- Edits of nodes that are not in a list of trees leave it alone. -/
theorem foldl_updateAll_of_not_mem {l : List NodeId} {ts : List Tree}
    (h : ∀ i ∈ l, i ∉ idsAll ts) :
    l.foldl (fun us i => updateAll i (edited (e i)) us) ts = ts := by
  induction l with
  | nil => rfl
  | cons i l ih =>
    rw [List.foldl_cons, updateAll_of_not_mem (h i List.mem_cons_self)]
    exact ih fun j hj => h j (List.mem_cons_of_mem _ hj)

/-- Edits of nodes that are not the first root pass to its children and to the trees behind. -/
theorem foldl_updateAll_cons {l : List NodeId} {v : Value} (cs ts : List Tree) (h : i ∉ l) :
    l.foldl (fun us i => updateAll i (edited (e i)) us) (node i v cs :: ts) =
      node i v (l.foldl (fun us i => updateAll i (edited (e i)) us) cs) ::
        l.foldl (fun us i => updateAll i (edited (e i)) us) ts := by
  induction l generalizing cs ts with
  | nil => rfl
  | cons j l ih =>
    obtain ⟨hj, hl⟩ := not_or.mp (mt List.mem_cons.mpr h)
    rw [List.foldl_cons, updateAll_cons_node, if_neg hj, ih _ _ hl]
    rfl

theorem mem_idsAll_rewriteAll (he : ∀ i, (e i).Fresh n) {k : NodeId}
    (h : k ∈ idsAll (rewriteAll e ts)) : k ∈ idsAll ts ∨ n ≤ k := by
  induction ts using listInduction with
  | nil => simp [rewriteAll] at h
  | cons i v cs ts ihc iht =>
    rw [rewriteAll, rewrite, idsAll_cons, ids_node, List.cons_append, List.mem_cons,
      List.mem_append] at h
    rw [idsAll_cons, ids_node, List.cons_append, List.mem_cons, List.mem_append]
    rcases h with rfl | h | h
    · exact .inl (.inl rfl)
    · cases hl : (e i v).2 with
      | none =>
        rw [hl] at h
        exact (ihc h).imp_left fun h => .inr (.inl h)
      | some leaf =>
        rw [hl] at h
        exact .inr (he i v leaf hl k (by simpa using h))
    · exact (iht h).imp_left fun h => .inr (.inr h)

/-- The nodes of a list of trees, edited in document order. -/
theorem foldl_updateAll_idsAll (he : ∀ i, (e i).Fresh n) (hd : (idsAll ts).Nodup)
    (hn : ∀ i ∈ idsAll ts, i < n) :
    (idsAll ts).foldl (fun us i => updateAll i (edited (e i)) us) ts = rewriteAll e ts := by
  induction ts using listInduction with
  | nil => rfl
  | cons i v cs ts ihc iht =>
    simp only [idsAll_cons, ids_node, List.cons_append, List.nodup_cons, List.mem_append,
      List.nodup_append, List.mem_cons] at hd hn ⊢
    obtain ⟨hi, hcs, hts, hdisj⟩ := hd
    obtain ⟨hic, hit⟩ := not_or.mp hi
    have hirest : i ∉ idsAll cs ++ idsAll ts := by simp [hic, hit]
    -- the trees behind the first one are edited in the second half of the walk only
    have htail : (idsAll cs ++ idsAll ts).foldl (fun us i => updateAll i (edited (e i)) us) ts =
        rewriteAll e ts := by
      rw [List.foldl_append, foldl_updateAll_of_not_mem fun j hj hj' => hdisj j hj j hj' rfl]
      exact iht hts fun j hj => hn j (.inr (.inr hj))
    rw [List.foldl_cons, updateAll_cons_node, if_pos rfl, updateAll_of_not_mem hit, edited,
      foldl_updateAll_cons _ _ hirest, htail, rewriteAll, rewrite]
    congr 2
    cases hl : (e i v).2 with
    | some leaf =>
      -- The children are gone, and the leaf in their place is newer than all nodes of the walk.
      refine foldl_updateAll_of_not_mem ?_
      intro j hj hj'
      have hlt : j < n := hn j (.inr (List.mem_append.mp hj))
      have hle : n ≤ j := he i v leaf hl j (by simpa using hj')
      exact Nat.not_lt.mpr hle hlt
    | none =>
      simp only [Option.map_none, Option.getD_none]
      rw [List.foldl_append, ihc hcs fun j hj => hn j (.inr (.inl hj))]
      refine foldl_updateAll_of_not_mem ?_
      intro j hj hj'
      rcases mem_idsAll_rewriteAll he hj' with hj' | hle
      · exact hdisj j hj' j hj rfl
      · exact Nat.not_lt.mpr hle (hn j (.inr (.inr hj)))

theorem foldl_updateAll_singleton (l : List NodeId) (t : Tree) :
    l.foldl (fun us i => updateAll i (edited (e i)) us) [t] =
      [l.foldl (fun u i => u.update i (edited (e i))) t] := by
  induction l generalizing t with
  | nil => rfl
  | cons i l ih => exact ih (t.update i (edited (e i)))

/-- **Editing the nodes of a tree in document order rewrites the tree.** -/
theorem foldl_update_ids (he : ∀ i, (e i).Fresh n) (hd : t.ids.Nodup) (hn : ∀ i ∈ t.ids, i < n) :
    t.ids.foldl (fun u i => u.update i (edited (e i))) t = t.rewrite e := by
  have hd' : (idsAll [t]).Nodup := by simpa using hd
  have hn' : ∀ i ∈ idsAll [t], i < n := by simpa using hn
  have h := foldl_updateAll_idsAll he hd' hn'
  rw [idsAll_cons, idsAll_nil, List.append_nil, foldl_updateAll_singleton] at h
  exact (List.cons.inj h).1

theorem foldl_update_of_not_mem {l : List NodeId} (h : ∀ i ∈ l, i ∉ t.ids) :
    l.foldl (fun u i => u.update i (edited (e i))) t = t := by
  have hts : ∀ i ∈ l, i ∉ idsAll [t] := by simpa using h
  have h' := foldl_updateAll_of_not_mem (e := e) hts
  rw [foldl_updateAll_singleton] at h'
  exact (List.cons.inj h').1

/-! ## What is left

A node is left if no edit replaces the children of a node above it. -/

@[simp] theorem id_rewrite (e : NodeId → Edit) (t : Tree) : (t.rewrite e).id = t.id := by
  cases t
  rfl

theorem value_rewrite (e : NodeId → Edit) (t : Tree) :
    (t.rewrite e).value = (e t.id t.value).1 := by
  cases t
  rfl

theorem children_rewrite_of_none (h : (e t.id t.value).2 = none) :
    (t.rewrite e).children = rewriteAll e t.children := by
  obtain ⟨i, v, cs⟩ := t
  rw [id_node, value_node] at h
  rw [rewrite, h]
  rfl

theorem children_rewrite_of_some {leaf : Tree} (h : (e t.id t.value).2 = some leaf) :
    (t.rewrite e).children = [leaf] := by
  obtain ⟨i, v, cs⟩ := t
  rw [id_node, value_node] at h
  rw [rewrite, h]
  rfl

theorem find?_rewrite (e : NodeId → Edit) (j : NodeId) (t : Tree) : (t.rewrite e).find? j =
    if t.id = j then some (t.rewrite e) else findIn? j (t.rewrite e).children := by
  cases t
  rw [rewrite, find?]
  rfl

theorem map_id_rewriteAll (e : NodeId → Edit) (ts : List Tree) :
    (rewriteAll e ts).map id = ts.map id := by
  induction ts with
  | nil => rfl
  | cons t ts ih => rw [rewriteAll, List.map_cons, List.map_cons, ih, id_rewrite]

/-- What stands below a rewritten node is new, or it is old and the children were not replaced. -/
theorem mem_idsAll_children_rewrite (he : ∀ i, (e i).Fresh n)
    (h : i ∈ idsAll (t.rewrite e).children) :
    n ≤ i ∨ (e t.id t.value).2 = none ∧ i ∈ idsAll (rewriteAll e t.children) := by
  cases hl : (e t.id t.value).2 with
  | none =>
    rw [children_rewrite_of_none hl] at h
    exact .inr ⟨rfl, h⟩
  | some leaf =>
    rw [children_rewrite_of_some hl] at h
    exact .inl (he t.id t.value leaf hl i (by simpa using h))

/-- An old node below a rewritten one was there before. -/
theorem mem_idsAll_children_of_lt (he : ∀ i, (e i).Fresh n) (hin : i < n)
    (h : i ∈ idsAll (t.rewrite e).children) : i ∈ idsAll t.children := by
  rcases mem_idsAll_children_rewrite he h with hle | ⟨-, hi⟩
  · exact absurd hin (Nat.not_lt.mpr hle)
  · exact (mem_idsAll_rewriteAll he hi).resolve_right (Nat.not_le.mpr hin)

/-- A node above which nothing is replaced is left, and its tree is rewritten. -/
theorem findIn?_rewriteAll (he : ∀ i, (e i).Fresh n) (hd : (idsAll ts).Nodup)
    (hn : ∀ i ∈ idsAll ts, i < n) (ht : findIn? i ts = some t)
    (h : ∀ u ∈ preorderAll ts, i ∈ idsAll u.children → (e u.id u.value).2 = none) :
    findIn? i (rewriteAll e ts) = some (t.rewrite e) := by
  induction ts using listInduction with
  | nil => cases ht
  | cons k v cs ts ihc iht =>
    have hin : i < n := hn i (mem_idsAll_of_findIn? ht)
    simp only [idsAll_cons, ids_node, List.cons_append, List.nodup_cons, List.mem_append,
      List.nodup_append, List.mem_cons] at hd hn
    obtain ⟨-, hcs, hts, -⟩ := hd
    simp only [preorderAll_cons, preorder_node, List.cons_append, List.mem_cons,
      List.mem_append] at h
    have hbelow : ∀ hi : i ∈ idsAll cs, (e k v).2 = none := h (node k v cs) (.inl rfl)
    rw [findIn?_cons_node] at ht
    rw [rewriteAll, findIn?, find?_rewrite, id_node]
    by_cases hk : k = i
    · rw [if_pos hk] at ht ⊢
      rw [Option.some.inj ht, Option.some_or]
    · rw [if_neg hk] at ht ⊢
      rcases Option.or_eq_some_iff.mp ht with ht | ⟨hnone, ht⟩
      · -- The node is below the first root, so the children of the root are not replaced.
        have hkept := children_rewrite_of_none (t := node k v cs)
          (hbelow (mem_idsAll_of_findIn? ht))
        rw [hkept, children_node, ihc hcs (fun j hj => hn j (.inr (.inl hj))) ht
          fun u hu => h u (.inr (.inl hu)), Option.some_or]
      · have hgone : i ∉ idsAll ((node k v cs).rewrite e).children := by
          intro hi
          have hold : (findIn? i cs).isSome :=
            isSome_findIn?_iff.mpr (mem_idsAll_children_of_lt he hin hi)
          rw [hnone] at hold
          cases hold
        rw [findIn?_of_not_mem hgone, Option.none_or]
        exact iht hts (fun j hj => hn j (.inr (.inr hj))) ht fun u hu => h u (.inr (.inr hu))

/-- A node below one whose children are replaced is gone. -/
theorem not_mem_idsAll_rewriteAll {leaf : Tree} (he : ∀ i, (e i).Fresh n) (hd : (idsAll ts).Nodup)
    (hn : ∀ i ∈ idsAll ts, i < n) {u : Tree} (hu : u ∈ preorderAll ts) (hi : i ∈ idsAll u.children)
    (h : (e u.id u.value).2 = some leaf) : i ∉ idsAll (rewriteAll e ts) := by
  induction ts using listInduction with
  | nil => cases hu
  | cons k v cs ts ihc iht =>
    have hin : i < n := hn i (idsAll_children_subset hu hi)
    simp only [idsAll_cons, ids_node, List.cons_append, List.nodup_cons, List.mem_append,
      List.nodup_append, List.mem_cons, not_or] at hd hn
    obtain ⟨⟨hkcs, hkts⟩, hcs, hts, hdisj⟩ := hd
    rw [preorderAll_cons, preorder_node, List.cons_append, List.mem_cons, List.mem_append] at hu
    rw [rewriteAll, idsAll_cons, ids_eq_cons, id_rewrite, id_node, List.cons_append, List.mem_cons,
      List.mem_append]
    -- The node stands below the first root or in a later tree, and it is gone from there.
    have hplace : i ∈ idsAll cs ∧ i ∉ idsAll ((node k v cs).rewrite e).children ∨
        i ∈ idsAll ts ∧ i ∉ idsAll (rewriteAll e ts) := by
      rcases hu with rfl | hu | hu
      · refine .inl ⟨hi, fun hmem => ?_⟩
        rcases mem_idsAll_children_rewrite he hmem with hle | ⟨hnone, -⟩
        · exact Nat.not_lt.mpr hle hin
        · rw [hnone] at h
          cases h
      · refine .inl ⟨idsAll_children_subset hu hi, fun hmem => ?_⟩
        rcases mem_idsAll_children_rewrite he hmem with hle | ⟨-, hmem⟩
        · exact Nat.not_lt.mpr hle hin
        · exact ihc hcs (fun j hj => hn j (.inr (.inl hj))) hu hmem
      · exact .inr ⟨idsAll_children_subset hu hi, iht hts (fun j hj => hn j (.inr (.inr hj))) hu⟩
    rintro (rfl | hmem | hmem)
    · rcases hplace with ⟨hic, -⟩ | ⟨his, -⟩
      · exact hkcs hic
      · exact hkts his
    · rcases hplace with ⟨-, hgone⟩ | ⟨his, -⟩
      · exact hgone hmem
      · exact hdisj i (mem_idsAll_children_of_lt he hin hmem) i his rfl
    · rcases hplace with ⟨hic, -⟩ | ⟨-, hgone⟩
      · have his := (mem_idsAll_rewriteAll he hmem).resolve_right (Nat.not_le.mpr hin)
        exact hdisj i hic i his rfl
      · exact hgone hmem

/-- **What is left of a tree**: the nodes above which nothing is replaced. -/
theorem mem_ids_rewrite_iff (he : ∀ i, (e i).Fresh n) (hd : t.ids.Nodup) (hn : ∀ i ∈ t.ids, i < n)
    (hi : i ∈ t.ids) : i ∈ (t.rewrite e).ids ↔
      ∀ u ∈ t.preorder, i ∈ idsAll u.children → (e u.id u.value).2 = none := by
  have hd' : (idsAll [t]).Nodup := by simpa using hd
  have hn' : ∀ i ∈ idsAll [t], i < n := by simpa using hn
  have hrewrite : i ∈ idsAll (rewriteAll e [t]) ↔ i ∈ (t.rewrite e).ids := by simp [rewriteAll]
  rw [← hrewrite]
  constructor
  · intro hleft u hu hiu
    cases hl : (e u.id u.value).2 with
    | none => rfl
    | some leaf =>
      have hu' : u ∈ preorderAll [t] := by simpa using hu
      exact absurd hleft (not_mem_idsAll_rewriteAll he hd' hn' hu' hiu hl)
  · intro h
    obtain ⟨u, hu⟩ : ∃ u, findIn? i [t] = some u := exists_findIn?_of_mem (by simpa using hi)
    exact mem_idsAll_of_findIn? (findIn?_rewriteAll he hd' hn' hu (by simpa using h))

/-- The tree at a node that is left is rewritten. -/
theorem find?_rewrite_of_mem {u : Tree} (he : ∀ i, (e i).Fresh n) (hd : t.ids.Nodup)
    (hn : ∀ i ∈ t.ids, i < n) (hu : t.find? i = some u) (hi : i ∈ (t.rewrite e).ids) :
    (t.rewrite e).find? i = some (u.rewrite e) := by
  have hit : i ∈ t.ids := holds_iff.mp (by rw [holds, hu]; rfl)
  have hkept := (mem_ids_rewrite_iff he hd hn hit).mp hi
  have hin : findIn? i [t] = some u := by rw [findIn?, hu, Option.some_or]
  have hfound := findIn?_rewriteAll he (by simpa using hd) (by simpa using hn) hin
    (by simpa using hkept)
  rwa [rewriteAll, rewriteAll, findIn?, findIn?, Option.or_none] at hfound

/-! ## Apart from numbers -/

theorem bareAll_rewriteAll {φ : NodeId → NodeId}
    (h : ∀ i ∈ idsAll ts, (e i).Like (g (φ i))) :
    renumberAll (fun _ => 0) (rewriteAll g (renumberAll φ ts)) =
      renumberAll (fun _ => 0) (rewriteAll e ts) := by
  induction ts using listInduction with
  | nil => rfl
  | cons i v cs ts ihc iht =>
    simp only [idsAll_cons, ids_node, List.cons_append, List.mem_cons, List.mem_append] at h
    obtain ⟨hv, hl⟩ := h i (.inl rfl) v
    simp only [renumberAll, renumber, rewriteAll, rewrite, hv,
      iht fun j hj => h j (.inr (.inr hj))]
    congr 2
    cases he : (e i v).2 with
    | none =>
      rw [he, Option.map_none, eq_comm, Option.map_eq_none_iff] at hl
      rw [hl]
      exact ihc fun j hj => h j (.inr (.inl hj))
    | some leaf =>
      rw [he, Option.map_some, eq_comm, Option.map_eq_some_iff] at hl
      obtain ⟨leaf', hl', hb⟩ := hl
      rw [hl']
      simp only [renumberAll]
      exact congrArg (· :: []) hb

/-- **Edits that are alike rewrite trees that are equal apart from their numbers to such trees.** -/
theorem bare_rewrite {φ : NodeId → NodeId} (h : ∀ i ∈ t.ids, (e i).Like (g (φ i))) :
    ((t.renumber φ).rewrite g).bare = (t.rewrite e).bare := by
  have h' : ∀ i ∈ idsAll [t], (e i).Like (g (φ i)) := by simpa using h
  have := bareAll_rewriteAll h'
  simp only [rewriteAll, renumberAll] at this
  exact (List.cons.inj this).1

end Tree

end Stencil.Markup

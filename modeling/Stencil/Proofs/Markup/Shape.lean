import Mathlib.Data.List.Nodup
import Stencil.Proofs.Markup.Tree

/-!
# Trees apart from their numbers

A copy of a tree has numbers of its own, so what copies share is said of the tree without its
numbers (`bare`). Conversely two trees that are equal apart from their numbers are renumberings of
each other (`exists_injective_renumber`), and the renumbering can be taken to be injective
everywhere, so that whatever compares numbers, as matching does, cannot tell the trees apart.
-/

namespace Stencil.Markup.Tree

variable {i q : NodeId} {t u : Tree} {ts us : List Tree} {φ ψ : NodeId → NodeId}

mutual

/-- The tree with other numbers. -/
def renumber (φ : NodeId → NodeId) : Tree → Tree
  | node i v cs => node (φ i) v (renumberAll φ cs)

/-- The trees with other numbers. -/
def renumberAll (φ : NodeId → NodeId) : List Tree → List Tree
  | [] => []
  | t :: ts => renumber φ t :: renumberAll φ ts

end

/-- The tree without its numbers: all are zero. -/
def bare (t : Tree) : Tree := t.renumber fun _ => 0

theorem renumberAll_eq_map (φ : NodeId → NodeId) (ts : List Tree) :
    renumberAll φ ts = ts.map (renumber φ) := by
  induction ts with
  | nil => rfl
  | cons t ts ih => rw [renumberAll, ih, List.map_cons]

theorem renumberAll_append (φ : NodeId → NodeId) (ts us : List Tree) :
    renumberAll φ (ts ++ us) = renumberAll φ ts ++ renumberAll φ us := by
  rw [renumberAll_eq_map, renumberAll_eq_map, renumberAll_eq_map, List.map_append]

theorem renumberAll_renumberAll (φ ψ : NodeId → NodeId) (ts : List Tree) :
    renumberAll ψ (renumberAll φ ts) = renumberAll (ψ ∘ φ) ts := by
  induction ts using listInduction with
  | nil => rfl
  | cons i v cs ts ihc iht =>
    simp only [renumberAll, renumber, ihc, iht, Function.comp_apply]

theorem renumber_renumber (φ ψ : NodeId → NodeId) (t : Tree) :
    (t.renumber φ).renumber ψ = t.renumber (ψ ∘ φ) := by
  obtain ⟨i, v, cs⟩ := t
  simp only [renumber, renumberAll_renumberAll, Function.comp_apply]

@[simp] theorem bare_renumber (φ : NodeId → NodeId) (t : Tree) : (t.renumber φ).bare = t.bare :=
  renumber_renumber φ _ t

theorem bare_bare (t : Tree) : t.bare.bare = t.bare := bare_renumber _ t

theorem renumberAll_self (ts : List Tree) : renumberAll (fun i => i) ts = ts := by
  induction ts using listInduction with
  | nil => rfl
  | cons i v cs ts ihc iht => rw [renumberAll, renumber, ihc, iht]

theorem renumber_self (t : Tree) : t.renumber (fun i => i) = t := by
  obtain ⟨i, v, cs⟩ := t
  rw [renumber, renumberAll_self]

@[simp] theorem id_renumber (φ : NodeId → NodeId) (t : Tree) : (t.renumber φ).id = φ t.id := by
  cases t
  rw [renumber, id_node, id_node]

@[simp] theorem value_renumber (φ : NodeId → NodeId) (t : Tree) :
    (t.renumber φ).value = t.value := by
  cases t
  rw [renumber, value_node, value_node]

@[simp] theorem children_renumber (φ : NodeId → NodeId) (t : Tree) :
    (t.renumber φ).children = t.children.map (renumber φ) := by
  cases t
  rw [renumber, children_node, children_node, renumberAll_eq_map]

theorem idsAll_renumberAll (φ : NodeId → NodeId) (ts : List Tree) :
    idsAll (renumberAll φ ts) = (idsAll ts).map φ := by
  induction ts using listInduction with
  | nil => rfl
  | cons i v cs ts ihc iht => simp [renumberAll, renumber, ihc, iht]

@[simp] theorem ids_renumber (φ : NodeId → NodeId) (t : Tree) :
    (t.renumber φ).ids = t.ids.map φ := by
  simpa [renumberAll] using idsAll_renumberAll φ [t]

theorem renumberAll_congr (h : ∀ i ∈ idsAll ts, φ i = ψ i) :
    renumberAll φ ts = renumberAll ψ ts := by
  induction ts using listInduction with
  | nil => rfl
  | cons i v cs ts ihc iht =>
    simp only [idsAll_cons, ids_node, List.cons_append, List.mem_cons, List.mem_append] at h
    rw [renumberAll, renumberAll, renumber, renumber, h i (.inl rfl),
      ihc fun j hj => h j (.inr (.inl hj)), iht fun j hj => h j (.inr (.inr hj))]

theorem renumber_congr (h : ∀ i ∈ t.ids, φ i = ψ i) :
    t.renumber φ = t.renumber ψ := by
  have hlist : ∀ i ∈ idsAll [t], φ i = ψ i := by simpa using h
  have hall := renumberAll_congr hlist
  rw [renumberAll, renumberAll] at hall
  exact (List.cons.inj hall).1

/-- Numbers that no other number becomes are found again. -/
theorem renumberAll_removeAll (hφ : ∀ k, φ k = i ↔ k = i) (ts : List Tree) :
    renumberAll φ (removeAll i ts) = removeAll i (renumberAll φ ts) := by
  induction ts using listInduction with
  | nil => rfl
  | cons k v cs ts ihc iht =>
    rw [removeAll_cons_node, renumberAll, renumber, removeAll_cons_node]
    by_cases hk : k = i
    · rw [if_pos hk, if_pos ((hφ k).mpr hk), iht]
    · rw [if_neg hk, if_neg (mt (hφ k).mp hk), renumberAll, renumber, ihc, iht]

theorem renumber_remove (hφ : ∀ k, φ k = i ↔ k = i) (t : Tree) :
    (t.remove i).renumber φ = (t.renumber φ).remove i := by
  cases t
  rw [remove, renumber, renumber, remove, renumberAll_removeAll hφ]

theorem findIn?_renumberAll (hφ : ∀ k, φ k = i ↔ k = i) (ts : List Tree) :
    findIn? i (renumberAll φ ts) = (findIn? i ts).map (renumber φ) := by
  induction ts using listInduction with
  | nil => rfl
  | cons k v cs ts ihc iht =>
    rw [renumberAll, renumber, findIn?_cons_node, findIn?_cons_node]
    by_cases hk : k = i
    · rw [if_pos hk, if_pos ((hφ k).mpr hk), Option.map_some, renumber]
    · rw [if_neg hk, if_neg (mt (hφ k).mp hk), ihc, iht]
      cases findIn? i cs <;> rfl

theorem find?_renumber (hφ : ∀ k, φ k = i ↔ k = i) (t : Tree) :
    (t.renumber φ).find? i = (t.find? i).map (renumber φ) := by
  have h := findIn?_renumberAll hφ [t]
  rwa [renumberAll, renumberAll, findIn?, findIn?, Option.or_none, findIn?, findIn?,
    Option.or_none] at h

theorem renumberAll_updateAll_append (hφ : ∀ k, φ k = q ↔ k = q) (clones ts : List Tree) :
    renumberAll φ (updateAll q (withChildren (· ++ clones)) ts) =
      updateAll q (withChildren (· ++ renumberAll φ clones)) (renumberAll φ ts) := by
  induction ts using listInduction with
  | nil => rfl
  | cons k v cs ts ihc iht =>
    rw [updateAll_cons_node, renumberAll, renumberAll, renumber, updateAll_cons_node]
    by_cases hk : k = q
    · rw [if_pos hk, if_pos ((hφ k).mpr hk), withChildren, renumber, withChildren,
        renumberAll_append, iht]
    · rw [if_neg hk, if_neg (mt (hφ k).mp hk), renumber, ihc, iht]

theorem renumber_update_append (hφ : ∀ k, φ k = q ↔ k = q) (clones : List Tree) (t : Tree) :
    (t.update q (withChildren (· ++ clones))).renumber φ =
      (t.renumber φ).update q (withChildren (· ++ renumberAll φ clones)) := by
  have h := renumberAll_updateAll_append hφ clones [t]
  rw [updateAll, updateAll, renumberAll, renumberAll, renumberAll, renumberAll, updateAll,
    updateAll] at h
  exact (List.cons.inj h).1

theorem bareAll_relabelAll (ts : List Tree) (n : NodeId) :
    renumberAll (fun _ => 0) (relabelAll ts n).1 = renumberAll (fun _ => 0) ts := by
  induction ts using listInduction generalizing n with
  | nil => rfl
  | cons i v cs ts ihc iht =>
    simp only [relabelAll_cons_node, renumberAll, renumber, ihc, iht]

/-- A tree and its copy are equal apart from their numbers. -/
@[simp] theorem bare_relabel (t : Tree) (n : NodeId) : (t.relabel n).1.bare = t.bare := by
  have h := bareAll_relabelAll [t] n
  rw [relabel_eq, renumberAll, renumberAll] at h
  exact (List.cons.inj h).1

/-- Trees that are equal apart from their numbers are renumberings of each other. -/
theorem exists_renumberAll (hd : (idsAll ts).Nodup)
    (h : renumberAll (fun _ => 0) ts = renumberAll (fun _ => 0) us) :
    ∃ φ, us = renumberAll φ ts := by
  induction ts using listInduction generalizing us with
  | nil =>
    cases us with
    | nil => exact ⟨fun i => i, rfl⟩
    | cons u us => simp [renumberAll] at h
  | cons i v cs ts ihc iht =>
    obtain _ | ⟨⟨j, w, ds⟩, us⟩ := us
    · simp [renumberAll] at h
    simp only [renumberAll, renumber, List.cons.injEq, Tree.node.injEq, true_and] at h
    obtain ⟨⟨rfl, hds⟩, hus⟩ := h
    simp only [idsAll_cons, ids_node, List.cons_append, List.nodup_cons, List.mem_append,
      not_or, List.nodup_append] at hd
    obtain ⟨⟨hic, hit⟩, hcs, hts, hdisj⟩ := hd
    obtain ⟨φ, rfl⟩ := ihc hcs hds
    obtain ⟨ψ, rfl⟩ := iht hts hus
    -- The numbers of the first root, of its children and of the other trees are apart, so the maps
    -- for them fit together.
    refine ⟨fun k => if k = i then j else if k ∈ idsAll cs then φ k else ψ k, ?_⟩
    have hc : renumberAll φ cs =
        renumberAll (fun k => if k = i then j else if k ∈ idsAll cs then φ k else ψ k) cs :=
      renumberAll_congr fun k hk => by
        rw [if_neg (fun h : k = i => hic (h ▸ hk)), if_pos hk]
    have ht : renumberAll ψ ts =
        renumberAll (fun k => if k = i then j else if k ∈ idsAll cs then φ k else ψ k) ts :=
      renumberAll_congr fun k hk => by
        rw [if_neg (fun h : k = i => hit (h ▸ hk)), if_neg fun h => hdisj k h k hk rfl]
    rw [renumberAll, renumber, ← hc, ← ht, if_pos rfl]

/-- A map that is injective on a list of numbers is on that list one that is injective. -/
theorem exists_injective_extension {l : List NodeId} (h : (l.map φ).Nodup) :
    ∃ ψ : NodeId → NodeId, Function.Injective ψ ∧ ∀ i ∈ l, ψ i = φ i := by
  obtain ⟨b, hb⟩ : ∃ b, ∀ i ∈ l, φ i < b := by
    induction l with
    | nil => exact ⟨0, by simp⟩
    | cons a l ih =>
      obtain ⟨b, hb⟩ := ih (List.nodup_cons.mp h).2
      refine ⟨max b (φ a + 1), ?_⟩
      intro i hi
      rcases List.mem_cons.mp hi with rfl | hi
      · exact Nat.lt_of_lt_of_le (Nat.lt_succ_self _) (Nat.le_max_right _ _)
      · exact Nat.lt_of_lt_of_le (hb i hi) (Nat.le_max_left _ _)
  -- Outside the list, numbers are moved beyond all that are taken.
  refine ⟨fun i => if i ∈ l then φ i else i + b, ?_, fun i hi => if_pos hi⟩
  intro i j hij
  dsimp only at hij
  by_cases hi : i ∈ l <;> by_cases hj : j ∈ l
  · rw [if_pos hi, if_pos hj] at hij
    exact List.inj_on_of_nodup_map h hi hj hij
  · rw [if_pos hi, if_neg hj] at hij
    exact absurd (hb i hi) (Nat.not_lt.mpr (hij ▸ Nat.le_add_left b j))
  · rw [if_neg hi, if_pos hj] at hij
    exact absurd (hb j hj) (Nat.not_lt.mpr (hij ▸ Nat.le_add_left b i))
  · rw [if_neg hi, if_neg hj] at hij
    exact Nat.add_right_cancel hij

/-- **Trees that are equal apart from their numbers are injective renumberings of each other.** -/
theorem exists_injective_renumber (ht : t.ids.Nodup) (hu : u.ids.Nodup) (h : t.bare = u.bare) :
    ∃ φ : NodeId → NodeId, Function.Injective φ ∧ u = t.renumber φ := by
  have hd : (idsAll [t]).Nodup := by simpa using ht
  have h' : renumberAll (fun _ => 0) [t] = renumberAll (fun _ => 0) [u] := by
    rw [renumberAll, renumberAll]
    exact congrArg (· :: []) h
  obtain ⟨φ, hφ⟩ := exists_renumberAll hd h'
  rw [renumberAll, renumberAll] at hφ
  obtain rfl := (List.cons.inj hφ).1
  rw [ids_renumber] at hu
  obtain ⟨ψ, hψ, hag⟩ := exists_injective_extension hu
  refine ⟨ψ, hψ, ?_⟩
  exact renumber_congr fun i hi => (hag i hi).symm

end Stencil.Markup.Tree

import Stencil.Proofs.Editing

/-!
# Appending worked copies

Both dialects fill a container the same way: for every item a tree is copied, something is done to
the copy while it is still detached, and the copy becomes the container's last child. If what is
done to a copy is a function of the tree alone (`Works`), the container gains one image of the tree
for each item, in order, and every older node is left alone (`exists_evolves_foldl_appendCopy`). The
tree is itself copied before the document is changed, and that copy is the one that is copied for
the items (`exists_evolves_fill`).
-/

namespace Stencil.Document
open Markup
open Markup.Tree (idsAll update withChildren)

variable {n c s : NodeId} {d : Document} {t u : Tree} {mode : Mode}

/-- What `work` makes of a detached tree is given by `W`, apart from numbers, and it leaves the trees
that share no node with it alone. -/
def Works (mode : Mode) (W : Tree → Tree) (work : Document → NodeId → Document) : Prop :=
  ∀ (d : Document) (top : NodeId) (t : Tree), d.mode = mode → d.forest.find? top = some t →
    d.forest.parent? top = none →
    ∃ G, Evolves d.forest.next G d (work d top) ∧ (G t).bare = W t.bare ∧
      ∀ u : Tree, (∀ i ∈ u.ids, i < d.forest.next ∧ i ∉ t.ids) → G u = u

variable {W : Tree → Tree} {work : Document → NodeId → Document}

namespace Works

/-- Doing nothing. -/
theorem refl (mode : Mode) : Works mode (fun t => t) fun d _ => d :=
  fun _ _ _ _ _ _ => ⟨fun t => t, ⟨rfl, .refl (Nat.le_refl _)⟩, rfl, fun _ _ => rfl⟩

/-- One work after the other. -/
theorem trans {W' : Tree → Tree} {work' : Document → NodeId → Document} (hw : Works mode W work)
    (hw' : Works mode W' work') :
    Works mode (fun t => W' (W t)) fun d top => work' (work d top) top := by
  intro d top t hm ht hroot
  obtain ⟨G, hG, hbare, hframe⟩ := hw d top t hm ht hroot
  have hlt := Forest.lt_next_of_find? ht
  obtain ⟨H, hH, hbare', hframe'⟩ := hw' (work d top) top (G t) (hG.mode.trans hm)
    (hG.forest.find?_some hlt ht) (hG.forest.parent?_eq_none hlt hroot)
  refine ⟨H ∘ G, hG.trans (hH.mono hG.forest.next_le), ?_, fun u hu => ?_⟩
  · rw [Function.comp_apply, hbare', hbare]
  · rw [Function.comp_apply, hframe u hu]
    refine hframe' u ?_
    intro k hk
    refine ⟨Nat.lt_of_lt_of_le (hu k hk).1 hG.forest.next_le, ?_⟩
    intro hkt
    exact (hu k hk).2 (hG.forest.mem_of_mem_image hlt ht hkt (hu k hk).1)

/-- A list of works, one after the other. -/
theorem foldl {α : Type} {W : α → Tree → Tree} {work : α → Document → NodeId → Document}
    (hw : ∀ x, Works mode (W x) (work x)) (xs : List α) :
    Works mode (fun t => xs.foldl (fun t x => W x t) t)
      fun d top => xs.foldl (fun d x => work x d top) d := by
  induction xs with
  | nil => exact .refl mode
  | cons x xs ih => exact (hw x).trans ih

end Works

/-- Append to the container a copy of the tree at a node on which `work` has been done. -/
def appendCopy (work : Document → NodeId → Document) (container stamp : NodeId) (d : Document) :
    Document :=
  (work (d.copy stamp).1 (d.copy stamp).2).append container (d.copy stamp).2

theorem snd_copy (h : d.forest.find? s = some t) : (d.copy s).2 = d.forest.next :=
  Forest.snd_copy h

theorem evolves_copy (d : Document) (i : NodeId) :
    Evolves d.forest.next (fun t => t) d (d.copy i).1 :=
  ⟨rfl, d.forest.evolves_copy i⟩

/-- Work on a copy does to no older tree anything, and makes the image of the original. -/
theorem Works.exists_evolves_copy (hw : Works d.mode W work) (hs : d.forest.find? s = some t) :
    ∃ clone, clone.bare = W t.bare ∧ (∀ k ∈ clone.ids, d.forest.next ≤ k) ∧
      (work (d.copy s).1 (d.copy s).2).forest.find? (d.copy s).2 = some clone ∧
      (work (d.copy s).1 (d.copy s).2).forest.parent? (d.copy s).2 = none ∧
      Evolves d.forest.next (fun t => t) d (work (d.copy s).1 (d.copy s).2) := by
  rw [snd_copy hs]
  have hfind : (d.copy s).1.forest.find? d.forest.next = some (t.relabel d.forest.next).1 :=
    Forest.find?_snd_copy hs
  have hroot : (d.copy s).1.forest.parent? d.forest.next = none := Forest.parent?_snd_copy hs
  have hcopy := d.evolves_copy s
  obtain ⟨G, hG, hbare, hframe⟩ := hw (d.copy s).1 d.forest.next _ rfl hfind hroot
  have hlt := Forest.lt_next_of_find? hfind
  refine ⟨_, hbare.trans (by rw [Tree.bare_relabel]), ?_, hG.forest.find?_some hlt hfind,
    hG.forest.parent?_eq_none hlt hroot, (hcopy.trans (hG.mono hcopy.forest.next_le)).congr ?_⟩
  · intro k hk
    -- A node of the worked copy is one of the copy or one that the work has made.
    rcases hG.forest.ids _ hlt _ hfind k hk with hk | hk
    · exact (Tree.mem_ids_relabel t d.forest.next k hk).1
    · exact Nat.le_trans hcopy.forest.next_le hk
  · intro i hi u hu
    refine hframe u fun k hk => ⟨?_, fun hkt => ?_⟩
    · exact Nat.lt_of_lt_of_le (Forest.lt_next hu hk) hcopy.forest.next_le
    · exact Nat.not_lt.mpr (Tree.mem_ids_relabel t d.forest.next k hkt).1 (Forest.lt_next hu hk)

/-- One worked copy becomes the container's last child. -/
theorem Works.exists_evolves_appendCopy (hw : Works d.mode W work)
    (hs : d.forest.find? s = some t) (hc : d.forest.find? c = some u) :
    ∃ clone, clone.bare = W t.bare ∧ (∀ k ∈ clone.ids, d.forest.next ≤ k) ∧
      Evolves d.forest.next (update c (withChildren (· ++ [clone]))) d (d.appendCopy work c s) := by
  obtain ⟨clone, hbare, hnew, hfind, hroot, hev⟩ := hw.exists_evolves_copy hs
  have hcn := Forest.lt_next_of_find? hc
  have happ := Forest.evolves_append hev.forest.next_le hfind hroot hnew hcn
    (hev.forest.find?_some hcn hc)
  exact ⟨clone, hbare, hnew, hev.mode, hev.forest.trans happ⟩

/-- **The container gains one worked copy for each item, in the order of the items.** -/
theorem exists_evolves_foldl_appendCopy {α : Type} {W : α → Tree → Tree}
    {work : α → Document → NodeId → Document} (hw : ∀ x, Works mode (W x) (work x))
    (hm : d.mode = mode) (hn : n ≤ d.forest.next) (hs : d.forest.find? s = some t) (hsn : s < n)
    (hc : d.forest.find? c = some u) (hcn : c < n) (hct : c ∉ t.ids) (xs : List α) :
    ∃ clones : List Tree, clones.map Tree.bare = xs.map (fun x => W x t.bare) ∧
      (∀ k ∈ idsAll clones, n ≤ k) ∧
      Evolves n (update c (withChildren (· ++ clones))) d
        (xs.foldl (fun d x => d.appendCopy (work x) c s) d) := by
  induction xs generalizing d u with
  | nil =>
    refine ⟨[], rfl, by simp, rfl, (Forest.Evolves.refl hn).congr ?_⟩
    intro i _ w hw
    refine (Tree.update_eq_self (Forest.nodup_of_find? hw) ?_).symm
    intro v _
    cases v
    simp [withChildren]
  | cons x xs ih =>
    -- Both the stamp and the container are found again after the step: the stamp as it was, because
    -- the container is not in it, and the container with one child more.
    obtain ⟨clone, hbare, hnew, hev⟩ := (hm ▸ hw x).exists_evolves_appendCopy hs hc
    have hs' := hev.forest.find?_some (Nat.lt_of_lt_of_le hsn hn) hs
    rw [Tree.update_of_not_mem hct] at hs'
    have hc' := hev.forest.find?_some (Nat.lt_of_lt_of_le hcn hn) hc
    obtain ⟨clones, hbares, hnews, hev'⟩ := ih (hev.mode.trans hm)
      (Nat.le_trans hn hev.forest.next_le) hs' hc'
    refine ⟨clone :: clones, by rw [List.map_cons, List.map_cons, hbare, hbares], ?_, ?_⟩
    · intro k hk
      rw [Tree.idsAll_cons, List.mem_append] at hk
      rcases hk with hk | hk
      · exact Nat.le_trans hn (hnew k hk)
      · exact hnews k hk
    · refine ((hev.mono hn).trans hev').congr ?_
      intro i _ w _
      -- One child more and then the others, or all at once.
      rw [Function.comp_apply, Tree.update_update (Tree.id_withChildren _)]
      congr 1
      funext v
      cases v
      simp [withChildren]

/-- **A tree is copied, other trees are changed, and then a container gains one worked copy of the
copy for each item.** -/
theorem exists_evolves_fill {α : Type} {W : α → Tree → Tree}
    {work : α → Document → NodeId → Document} (hw : ∀ x, Works d.mode (W x) (work x))
    (hs : d.forest.find? s = some t) (hc : d.forest.find? c = some u) {d' : Document}
    {H : Tree → Tree} (hd : Evolves (d.copy s).1.forest.next H (d.copy s).1 d')
    (hstamp : H (t.relabel d.forest.next).1 = (t.relabel d.forest.next).1) (xs : List α) :
    ∃ clones : List Tree, clones.map Tree.bare = xs.map (fun x => W x t.bare) ∧
      (∀ k ∈ idsAll clones, d.forest.next ≤ k) ∧
      Evolves d.forest.next (update c (withChildren (· ++ clones)) ∘ H) d
        (xs.foldl (fun e x => e.appendCopy (work x) c d.forest.next) d') := by
  have hcopy := d.evolves_copy s
  have hfind : (d.copy s).1.forest.find? d.forest.next = some (t.relabel d.forest.next).1 :=
    Forest.find?_snd_copy hs
  have hlt := Forest.lt_next_of_find? hfind
  have hcn := Forest.lt_next_of_find? hc
  have hfind' := hd.forest.find?_some hlt hfind
  rw [hstamp] at hfind'
  have hc' := hd.forest.find?_some (Nat.lt_trans hcn hlt) (hcopy.forest.find?_some hcn hc)
  -- The container is older than the copy, so it is not in it.
  have hct : c ∉ (t.relabel d.forest.next).1.ids := fun h =>
    Nat.not_lt.mpr (Tree.mem_ids_relabel t _ c h).1 hcn
  obtain ⟨clones, hbares, hnew, hev⟩ := exists_evolves_foldl_appendCopy hw hd.mode
    hd.forest.next_le hfind' hlt hc' (Nat.lt_trans hcn hlt) hct xs
  refine ⟨clones, ?_, fun k hk => Nat.le_trans (Nat.le_of_lt hlt) (hnew k hk), ?_⟩
  · simpa only [Tree.bare_relabel] using hbares
  · exact hcopy.trans ((hd.trans hev).mono hcopy.forest.next_le)

theorem map_some_bare {α : Type} {clones : List Tree} {xs : List α} {g : α → Tree}
    (h : clones.map Tree.bare = xs.map g) :
    clones.map (fun clone => some clone.bare) = xs.map fun x => some (g x) := by
  have hsome := congrArg (List.map some) h
  rwa [List.map_map, List.map_map] at hsome

end Stencil.Document

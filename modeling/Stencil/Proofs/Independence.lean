import Stencil.Proofs.Copies
import Stencil.Proofs.Lineage
import Stencil.Proofs.Markup.Shape

/-!
# Copies are independent

A copy is made in the forest that holds its original: a new node with the same value, and below it,
one after the other, copies of the children, each made the same way and then appended. That this
gives the tree with new numbers is `copy_eq_foldl`; each step adds one child to the tree that grows
behind the others (`Grown`).

Original and copy share no node, and an edit reaches only the trees that hold its node
(`exists_evolves_change`). So whatever is edited in one of them, the other one stays
(`copy_independent`).
-/

namespace Stencil

namespace Markup.Forest
open Markup.Tree (idsAll removeAll updateAll withChildren relabelAll)

variable {f g : Forest} {i m : NodeId} {t c : Tree} {v : Value} {done cs : List Tree}

/-! ## Node by node -/

theorem trees_copy (h : f.find? i = some t) :
    (f.copy i).1.trees = f.trees ++ [(t.relabel f.next).1] := by
  rw [copy_eq h]
  rfl

theorem next_copy (h : f.find? i = some t) : (f.copy i).1.next = (t.relabel f.next).2 := by
  rw [copy_eq h]
  rfl

/-- The forest `g` is `f` with one more tree, whose root has the first number that was free in
`f`. -/
structure Grown (f : Forest) (v : Value) (cs : List Tree) (free : NodeId) (g : Forest) : Prop where
  trees : g.trees = f.trees ++ [.node f.next v cs]
  root : g.root = f.root
  next : g.next = free

theorem Grown.eq (hg : Grown f v cs m g) {g' : Forest} (hg' : Grown f v cs m g') : g = g' := by
  obtain ⟨trees, root, next, _, _, _⟩ := g
  obtain ⟨trees', root', next', _, _, _⟩ := g'
  obtain ⟨rfl, rfl, rfl⟩ := hg
  obtain ⟨rfl, rfl, rfl⟩ := hg'
  rfl

theorem next_not_mem (f : Forest) : f.next ∉ idsAll f.trees := fun h =>
  Nat.lt_irrefl _ (f.bounded f.next h)

/-- One child is copied and appended. -/
theorem Grown.step (hg : Grown f v done m g) (hc : f.find? i = some c) :
    Grown f v (done ++ [(c.relabel m).1]) (c.relabel m).2
      ((g.copy i).1.append f.next (g.copy i).2) := by
  obtain ⟨htrees, hroot, rfl⟩ := hg
  have hold : f.next ∉ idsAll f.trees := f.next_not_mem
  have hgc : g.find? i = some c := by
    rw [find?] at hc ⊢
    rw [htrees, Tree.findIn?_append, hc, Option.some_or]
  have hparent : g.find? f.next = some (.node f.next v done) := by
    rw [find?, htrees, Tree.findIn?_append, Tree.findIn?_of_not_mem hold, Option.none_or,
      Tree.findIn?, Tree.find?_node, if_pos rfl, Option.some_or]
  have hlt : f.next < g.next := lt_next_of_find? hparent
  have hcopy : f.next ∉ (c.relabel g.next).1.ids := fun h =>
    Nat.not_lt.mpr (Tree.mem_ids_relabel c g.next _ h).1 hlt
  have hcopied := (g.evolves_copy i).find?_some hlt hparent
  rw [snd_copy hgc]
  refine ⟨?_, ?_, ?_⟩
  · -- The copy stood behind the tree that grows; it goes from there below its root.
    rw [trees_append (find?_snd_copy hgc) hcopy hcopied, trees_copy hgc, Tree.removeAll_append,
      Tree.removeAll_of_not_mem g.next_not_mem, htrees]
    simp only [Tree.removeAll, Tree.id_relabel, if_true, List.append_nil]
    rw [Tree.updateAll_append, Tree.updateAll_of_not_mem hold]
    simp only [Tree.updateAll, Tree.update, withChildren, if_true]
  · rw [root_append, (g.evolves_copy i).root, hroot]
  · rw [next_append, next_copy hgc]

/-- All children are copied and appended, each with the numbers that are free by then. -/
theorem Grown.foldl (hg : Grown f v done m g) (hcs : ∀ c ∈ cs, f.find? c.id = some c) :
    Grown f v (done ++ (relabelAll cs m).1) (relabelAll cs m).2
      ((cs.map Tree.id).foldl (fun g c => (g.copy c).1.append f.next (g.copy c).2) g) := by
  induction cs generalizing done m g with
  | nil =>
    rw [relabelAll, List.append_nil]
    exact hg
  | cons c cs ih =>
    obtain ⟨hc, hcs⟩ := List.forall_mem_cons.mp hcs
    have hrest := ih (hg.step hc) hcs
    rw [List.append_assoc] at hrest
    rw [relabelAll, List.map_cons, List.foldl_cons]
    exact hrest

/-- **A copy is a new node with the value of the original, to which copies of the children of the
original are appended one by one.** -/
theorem copy_eq_foldl (h : f.find? i = some t) : f.copy i =
    ((f.children i).foldl (fun g c => (g.copy c).1.append f.next (g.copy c).2)
      (f.create t.value).1, f.next) := by
  have hcreate : Grown f t.value [] (f.next + 1) (f.create t.value).1 := ⟨rfl, rfl, rfl⟩
  have hchildren : ∀ c ∈ t.children, f.find? c.id = some c := fun c hc =>
    find?_of_mem_preorder h (Tree.mem_preorder_of_mem_children hc)
  have hgrown := hcreate.foldl hchildren
  rw [List.nil_append] at hgrown
  have hcopy : Grown f t.value (relabelAll t.children (f.next + 1)).1
      (relabelAll t.children (f.next + 1)).2 (f.copy i).1 := by
    refine ⟨?_, (f.evolves_copy i).root, ?_⟩
    · rw [trees_copy h]
      cases t
      rfl
    · rw [next_copy h]
      cases t
      rfl
  rw [children_eq h]
  exact Prod.ext (hcopy.eq hgrown) (snd_copy h)

end Markup.Forest

namespace Document
open Markup

variable {d : Document} {i : NodeId} {t u : Tree} {p : NodeId → Prop} {c : Change}
  {changes : List Change}

/-! ## Edits -/

/-- The node that a change edits. Copies and moves to another parent are no edits. -/
def Change.edited? : Change → Option NodeId
  | .detach i | .clear i | .setText i _ | .setCdata i _ | .setAttribute i _ _ => some i
  | .copy _ | .append _ _ => none

/-- All changes of a list are edits of nodes with a property. -/
def EditsAt (p : NodeId → Prop) (changes : List Change) : Prop :=
  ∀ c ∈ changes, ∃ i, c.edited? = some i ∧ p i

/-- **An edit leaves alone every tree that does not hold its node.** -/
theorem exists_evolves_change (hc : c.edited? = some i) :
    ∃ G, Evolves d.forest.next G d (d.change c) ∧ ∀ w : Tree, i ∉ w.ids → G w = w := by
  cases c with
  | copy j | append parent child => cases hc
  | detach j =>
    obtain rfl := Option.some.inj hc
    exact ⟨_, ⟨rfl, d.forest.evolves_detach j⟩, fun w hw =>
      Tree.remove_of_not_mem fun h => hw (Tree.mem_ids_of_mem_children h)⟩
  | clear j =>
    obtain rfl := Option.some.inj hc
    exact ⟨_, ⟨rfl, d.forest.evolves_clear j⟩, fun w hw => Tree.update_of_not_mem hw⟩
  | setText j text | setCdata j text =>
    obtain rfl := Option.some.inj hc
    exact ⟨_, ⟨rfl, d.forest.evolves_replaceChildren j _⟩, fun w hw => Tree.update_of_not_mem hw⟩
  | setAttribute j name value =>
    obtain rfl := Option.some.inj hc
    exact ⟨_, ⟨rfl, d.forest.evolves_setValue j _⟩, fun w hw => Tree.update_of_not_mem hw⟩

/-- Edits leave alone every tree that holds none of their nodes. -/
theorem exists_evolves_changeAll (hc : EditsAt p changes) :
    ∃ G, Evolves d.forest.next G d (d.changeAll changes) ∧
      ∀ w : Tree, (∀ k ∈ w.ids, ¬ p k) → G w = w := by
  induction changes generalizing d with
  | nil => exact ⟨fun w => w, ⟨rfl, .refl (Nat.le_refl _)⟩, fun w _ => rfl⟩
  | cons c changes ih =>
    obtain ⟨⟨i, hi, hp⟩, hrest⟩ := List.forall_mem_cons.mp hc
    obtain ⟨G, hG, hGw⟩ := exists_evolves_change (d := d) hi
    obtain ⟨H, hH, hHw⟩ := ih (d := d.change c) hrest
    refine ⟨H ∘ G, hG.trans (hH.mono hG.forest.next_le), fun w hw => ?_⟩
    rw [Function.comp_apply, hGw w fun h => hw i h hp, hHw w hw]

theorem find?_changeAll (hc : EditsAt p changes) {j : NodeId} {w : Tree}
    (hw : d.forest.find? j = some w) (hp : ∀ k ∈ w.ids, ¬ p k) :
    (d.changeAll changes).forest.find? j = some w := by
  obtain ⟨G, hG, hGw⟩ := exists_evolves_changeAll (d := d) hc
  rw [hG.forest.find?_some (Forest.lt_next_of_find? hw) hw, hGw w hp]

/-- Edits of nodes outside the document's tree do not change what is written. -/
theorem write_changeAll (hc : EditsAt p changes) (hp : ∀ k ∈ d.forest.document.ids, ¬ p k) :
    (d.changeAll changes).write = d.write := by
  obtain ⟨G, hG, hGw⟩ := exists_evolves_changeAll (d := d) hc
  rw [write, write, hG.mode, hG.forest.document d.forest.document_lt_next, hGw _ hp]

/-! ## Copies -/

/-- In `e` the tree `u` is a copy of the tree `t` of `d`: it has the same values in the same shape
and order, no parent, and no node that `d` knows. The nodes that `d` knows are what they were. -/
structure IsCopy (d : Document) (t : Tree) (e : Document) (u : Tree) : Prop where
  bare : u.bare = t.bare
  find? : e.forest.find? u.id = some u
  parent? : e.parent? u.id = none
  fresh : ∀ k ∈ u.ids, ¬ d.Knows k
  old : ∀ k, d.Knows k → e.forest.value? k = d.forest.value? k ∧ e.parent? k = d.parent? k ∧
    e.children k = d.children k

theorem lt_next_of_knows {k : NodeId} (hk : d.Knows k) : k < d.forest.next := by
  obtain ⟨w, hw⟩ := hk
  exact Forest.lt_next_of_find? hw

/-- What a known tree holds is known. -/
theorem knows_of_mem {j k : NodeId} {w : Tree} (hw : d.forest.find? j = some w)
    (hk : k ∈ w.ids) : d.Knows k := by
  obtain ⟨u, hu⟩ := Tree.exists_find?_of_mem hk
  exact ⟨u, (Forest.find?_of_mem_ids hw hk).trans hu⟩

theorem find?_copy_of_knows {k : NodeId} (hk : d.Knows k) (i : NodeId) :
    (d.copy i).1.forest.find? k = d.forest.find? k := by
  rw [(d.evolves_copy i).forest.find? k (lt_next_of_knows hk), Option.map_id']

theorem parent?_copy_of_knows {k : NodeId} (hk : d.Knows k) (i : NodeId) :
    (d.copy i).1.parent? k = d.parent? k := by
  refine Option.ext fun p => ⟨(d.evolves_copy i).forest.parent? k (lt_next_of_knows hk) p, ?_⟩
  intro hp
  obtain ⟨w, hw, hkw⟩ := Forest.parent?_eq_some_iff.mp hp
  exact Forest.parent?_eq_some_iff.mpr ⟨w, (find?_copy_of_knows ⟨w, hw⟩ i).trans hw, hkw⟩

theorem document_copy (d : Document) (i : NodeId) :
    (d.copy i).1.forest.document = d.forest.document :=
  (d.evolves_copy i).forest.document d.forest.document_lt_next

theorem write_copy (d : Document) (i : NodeId) : (d.copy i).1.write = d.write := by
  rw [write, write, document_copy, (d.evolves_copy i).mode]

theorem isCopy_copy (h : d.forest.find? i = some t) :
    IsCopy d t (d.copy i).1 (t.relabel d.forest.next).1 where
  bare := t.bare_relabel d.forest.next
  find? := by
    rw [Tree.id_relabel]
    exact Forest.find?_snd_copy h
  parent? := by
    rw [Tree.id_relabel]
    exact Forest.parent?_snd_copy h
  fresh k hk hknows :=
    Nat.not_lt.mpr (Tree.mem_ids_relabel t d.forest.next k hk).1 (lt_next_of_knows hknows)
  old k hk := by
    refine ⟨?_, parent?_copy_of_knows hk i, ?_⟩
    · rw [Forest.value?, find?_copy_of_knows hk, Forest.value?]
    · rw [children, Forest.children, find?_copy_of_knows hk, children, Forest.children]

/-- **A copy is independent of its original.** It is made of a new node with the value of the
original, to which copies of the children are appended one by one, and is a detached tree of new
nodes that looks like the original. Edits of its nodes, and of nodes made since, leave all older
trees and what is written as they were; edits of nodes of the original, and of nodes made since,
leave the copy as it was. -/
theorem copy_independent (h : d.forest.find? i = some t) :
    let e := (d.copy i).1
    e.forest = (d.forest.children i).foldl
      (fun g c => (g.copy c).1.append d.forest.next (g.copy c).2) (d.forest.create t.value).1 ∧
    ∃ u, (d.copy i).2 = u.id ∧ IsCopy d t e u ∧
      (∀ changes, EditsAt (fun k => k ∈ u.ids ∨ e.forest.next ≤ k) changes →
        (∀ k, d.Knows k → (e.changeAll changes).forest.find? k = d.forest.find? k) ∧
          (e.changeAll changes).write = d.write) ∧
      ∀ changes, EditsAt (fun k => k ∈ t.ids ∨ e.forest.next ≤ k) changes →
        (e.changeAll changes).forest.find? u.id = some u ∧
          (e.changeAll changes).parent? u.id = none := by
  intro e
  have hcopy : IsCopy d t e _ := isCopy_copy h
  have hgrow : d.forest.next ≤ e.forest.next := (d.evolves_copy i).forest.next_le
  have hmade : e.forest = (d.forest.copy i).1 := rfl
  refine ⟨hmade.trans (congrArg Prod.fst (Forest.copy_eq_foldl h)), _, ?_, hcopy,
    fun changes hedits => ?_, fun changes hedits => ?_⟩
  · rw [Tree.id_relabel]
    exact snd_copy h
  · -- An old tree holds neither nodes of the copy nor later ones.
    have hapart : ∀ {j w}, d.forest.find? j = some w →
        ∀ k ∈ w.ids, ¬ (k ∈ (t.relabel d.forest.next).1.ids ∨ e.forest.next ≤ k) := by
      rintro j w hw k hk (hcopied | hlater)
      · exact hcopy.fresh k hcopied (knows_of_mem hw hk)
      · exact Nat.not_lt.mpr hlater (Nat.lt_of_lt_of_le (Forest.lt_next hw hk) hgrow)
    refine ⟨fun k hk => ?_, (write_changeAll hedits ?_).trans (write_copy d i)⟩
    · obtain ⟨w, hw⟩ := hk
      rw [hw]
      exact find?_changeAll hedits ((find?_copy_of_knows ⟨w, hw⟩ i).trans hw) (hapart hw)
    · rw [document_copy]
      exact hapart d.forest.find?_root
  · -- The copy holds neither nodes of the original nor later ones.
    have hapart : ∀ k ∈ (t.relabel d.forest.next).1.ids, ¬ (k ∈ t.ids ∨ e.forest.next ≤ k) := by
      rintro k hk (horiginal | hlater)
      · exact hcopy.fresh k hk (knows_of_mem h horiginal)
      · exact Nat.not_lt.mpr hlater (Forest.lt_next hcopy.find? hk)
    obtain ⟨G, hG, -⟩ := exists_evolves_changeAll (d := e) hedits
    exact ⟨find?_changeAll hedits hcopy.find? hapart,
      hG.forest.parent?_eq_none (Forest.lt_next_of_find? hcopy.find?) hcopy.parent?⟩

/-- An element with two children is copied. Then the copy of its first child gets a text and that
text is taken out again; or the element itself loses its children. -/
theorem copy_independent_twins :
    let e := (twins.copy 1).1
    e.forest = [2, 3].foldl (fun g c => (g.copy c).1.append 4 (g.copy c).2)
      (twins.forest.create (.element ⟨.plain "a", []⟩)).1 ∧
    (e.changeAll [.setText 5 "x", .detach 7]).write = twins.write ∧
      (e.changeAll [.detach 2, .clear 1]).forest.find? 4 = e.forest.find? 4 := by
  intro e
  obtain ⟨hmade, u, hu, hcopy, hcopied, horiginal⟩ := copy_independent (d := twins) (i := 1) rfl
  have hfour : u.id = 4 := hu.symm.trans (by decide +kernel)
  have hids : u.ids = [4, 5, 6] := by
    have hmap : (e.forest.find? 4).map Tree.ids = some [4, 5, 6] := by decide +kernel
    have hfind := hcopy.find?
    rw [hfour] at hfind
    rw [hfind] at hmap
    exact Option.some.inj hmap
  have hnext : e.forest.next = 7 := by decide +kernel
  refine ⟨hmade, (hcopied _ ?_).2, ?_⟩
  · simp [EditsAt, Change.edited?, hids, hnext, e]
  · rw [← hfour, hcopy.find?]
    refine (horiginal _ ?_).1
    simp [EditsAt, Change.edited?]

end Document

end Stencil

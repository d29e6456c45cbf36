import Stencil.Document
import Stencil.Proofs.Markup.Evolution
import Stencil.Proofs.Markup.Rewriting

/-!
# Editing the nodes of a document

Both dialects write into a copy of a tree node by node: attributes are set and contents replaced.
Such an operation on the node `i` amounts to an edit of that node (`Edits`). A pass over all nodes
of a tree rewrites the tree and leaves apart from it everything as it was
(`exists_evolves_rewrite`); what the tree becomes depends on its numbers only through the edits.
-/

namespace Stencil

namespace Markup

/-- The edit with leaves that have no number but `n`. -/
def Edit.numbered (n : NodeId) (e : Edit) : Edit :=
  fun v => ((e v).1, (e v).2.map (Tree.renumber fun _ => n))

theorem Edit.like_numbered (n : NodeId) (e : Edit) : e.Like (e.numbered n) := by
  intro v
  rw [Edit.numbered, Option.map_map]
  refine ⟨rfl, ?_⟩
  congr 1
  funext t
  exact (Tree.bare_renumber _ t).symm

theorem Edit.fresh_numbered (n : NodeId) (e : Edit) : (e.numbered n).Fresh n := by
  intro v t ht k hk
  rw [Edit.numbered, Option.mem_def, Option.map_eq_some_iff] at ht
  obtain ⟨u, -, rfl⟩ := ht
  rw [Tree.ids_renumber, List.mem_map] at hk
  obtain ⟨_, -, rfl⟩ := hk
  exact Nat.le_refl _

/-- The edit that replaces the children by one new node. -/
def Edit.leaf (content : Value) : Edit := fun v => (v, some (.node 0 content []))

/-- The edit that changes the value. -/
def Edit.ofMap (g : Value → Value) : Edit := fun v => (g v, none)

end Markup

namespace Document
open Markup
open Markup.Tree (update edited)

variable {n m i : NodeId} {d d' d'' : Document} {e e' : Edit} {t : Tree} {G H : Tree → Tree}

/-- `d'` comes from `d` by steps that turn the tree at each node below `n` into its image. -/
structure Evolves (n : NodeId) (G : Tree → Tree) (d d' : Document) : Prop where
  mode : d'.mode = d.mode
  forest : d.forest.Evolves n G d'.forest

theorem Evolves.trans (h : Evolves n G d d') (h' : Evolves n H d' d'') :
    Evolves n (H ∘ G) d d'' :=
  ⟨h'.mode.trans h.mode, h.forest.trans h'.forest⟩

theorem Evolves.mono (hmn : m ≤ n) (h : Evolves n G d d') : Evolves m G d d' :=
  ⟨h.mode, h.forest.mono hmn⟩

theorem Evolves.congr (h : Evolves n G d d')
    (hG : ∀ i < n, ∀ t, d.forest.find? i = some t → G t = H t) : Evolves n H d d' :=
  ⟨h.mode, h.forest.congr hG⟩

/-- What has been done to the node `i` amounts to an edit of it. -/
def Edits (n i : NodeId) (e : Edit) (d d' : Document) : Prop :=
  ∃ E : Edit, e.Like E ∧ E.Fresh n ∧ Evolves n (update i (edited E)) d d'

namespace Edits

theorem keep (hn : n ≤ d.forest.next) : Edits n i Edit.keep d d := by
  refine ⟨Edit.keep, .refl _, Edit.fresh_keep n, rfl, (Forest.Evolves.refl hn).congr ?_⟩
  intro j _ t ht
  exact (Tree.update_keep i (Forest.nodup_of_find? ht)).symm

theorem andThen (h : Edits n i e d d') (h' : Edits n i e' d' d'') :
    Edits n i (e.andThen e') d d'' := by
  obtain ⟨E, hE, hf, hd⟩ := h
  obtain ⟨E', hE', hf', hd'⟩ := h'
  refine ⟨E.andThen E', hE.andThen hE', hf.andThen hf', (hd.trans hd').congr ?_⟩
  intro j _ t _
  rw [Function.comp_apply, Tree.update_update (Tree.id_edited E)]
  congr 1
  funext u
  exact Tree.edited_edited E E' u

theorem mode (h : Edits n i e d d') : d'.mode = d.mode := by
  obtain ⟨E, -, -, hd⟩ := h
  exact hd.mode

theorem le_next (h : Edits n i e d d') : n ≤ d'.forest.next := by
  obtain ⟨E, -, -, hd⟩ := h
  exact Nat.le_trans hd.forest.le_next hd.forest.next_le

theorem mono (hmn : m ≤ n) (h : Edits n i e d d') : Edits m i e d d' := by
  obtain ⟨E, hE, hf, hd⟩ := h
  exact ⟨E, hE, hf.mono hmn, hd.mono hmn⟩

/-- Only what becomes of the value that the node has matters. -/
theorem congr (h : Edits n i e d d')
    (he : ∀ t, d.forest.find? i = some t → e t.value = e' t.value) : Edits n i e' d d' := by
  obtain ⟨E, hE, hf, hd⟩ := h
  cases ht : d.forest.find? i with
  | none =>
    -- No tree holds the node, so any edit describes what has been done to it.
    refine ⟨e'.numbered n, e'.like_numbered n, e'.fresh_numbered n, hd.congr ?_⟩
    intro j _ u hu
    have hi : i ∉ u.ids := fun hi =>
      Forest.find?_eq_none_iff.mp ht (Tree.ids_subset (Forest.find?_eq_some_iff.mp hu).1 hi)
    rw [Tree.update_of_not_mem hi, Tree.update_of_not_mem hi]
  | some t =>
    have hv : e t.value = e' t.value := he t ht
    -- `e` and `e'` agree on the one value that the node has; elsewhere only `e'` is wanted.
    refine ⟨fun v => if v = t.value then E v else e'.numbered n v, ?_, ?_, hd.congr ?_⟩
    · intro v
      dsimp only
      split
      · next h => exact h ▸ hv ▸ hE t.value
      · exact e'.like_numbered n v
    · intro v
      dsimp only
      split
      · exact hf v
      · exact e'.fresh_numbered n v
    · intro j _ u hu
      refine Tree.update_congr (Forest.nodup_of_find? hu) ?_
      intro w hw
      have hw' := Forest.find?_of_mem_preorder hu (Tree.mem_of_find? hw).1
      rw [(Tree.mem_of_find? hw).2, ht] at hw'
      obtain rfl := Option.some.inj hw'
      obtain ⟨k, v, cs⟩ := t
      simp only [Tree.edited, Tree.value_node, if_pos]

end Edits

/-! ## The operations -/

theorem edits_setAttribute (d : Document) (i : NodeId) (name value : String) :
    Edits d.forest.next i (.ofMap (valueWithAttribute name value)) d
      (d.setAttribute i name value) := by
  refine ⟨_, .refl _, ?_, rfl, (d.forest.evolves_setValue i _).congr fun j _ t _ => ?_⟩
  · intro v t ht
    simp [Edit.ofMap] at ht
  · congr 1

theorem edits_replaceChildren (d : Document) (i : NodeId) (content : Value) :
    Edits d.forest.next i (.leaf content) d (d.replaceChildren i content) := by
  refine ⟨(Edit.leaf content).numbered d.forest.next, Edit.like_numbered _ _,
    Edit.fresh_numbered _ _, rfl, (d.forest.evolves_replaceChildren i content).congr ?_⟩
  intro j _ t _
  congr 1

/-- The edit that puts a content into an element, unless the element holds nothing. -/
def fillEdit (mode : Mode) (content : Value) : Edit := fun v =>
  if isVoidValue mode v then Edit.keep v else Edit.leaf content v

theorem isVoid_of_find? (h : d.forest.find? i = some t) : d.isVoid i = isVoidValue d.mode t.value := by
  rw [isVoid, Forest.value?, h]
  rfl

/-- The nodes of a tree in document order: its root and what is below. -/
theorem cons_descendants (ht : d.forest.find? i = some t) :
    i :: d.descendants i = t.ids := by
  rw [Tree.ids_eq_cons, Forest.id_of_find? ht, descendants, treesBelow, ht]
  rfl

theorem value?_of_element? {e : Element} (h : d.element? i = some e) :
    d.forest.value? i = some (.element e) := by
  obtain ⟨v, hv, he⟩ := Option.bind_eq_some_iff.mp h
  cases v with
  | element e' => exact (Option.some.inj he) ▸ hv
  | document | fragment | doctype | comment | text | instruction => cases he

theorem edits_fill (d : Document) (i : NodeId) (content : Value) :
    Edits d.forest.next i (fillEdit d.mode content) d
      (if d.isVoid i then d else d.replaceChildren i content) := by
  split
  · next hv =>
    -- The document sees that the element holds nothing, the edit sees it in the value.
    refine (Edits.keep (Nat.le_refl _)).congr ?_
    intro t ht
    rw [isVoid_of_find? ht] at hv
    rw [fillEdit, if_pos hv]
  · next hv =>
    refine (d.edits_replaceChildren i content).congr ?_
    intro t ht
    rw [isVoid_of_find? ht] at hv
    rw [fillEdit, if_neg hv]

theorem evolves_foldl_detach (d : Document) (l : List NodeId) :
    Evolves d.forest.next (fun t => l.foldl (fun t i => t.remove i) t) d (l.foldl detach d) := by
  have hforest : (l.foldl detach d).forest = l.foldl Forest.detach d.forest ∧
      (l.foldl detach d).mode = d.mode := by
    induction l generalizing d with
    | nil => exact ⟨rfl, rfl⟩
    | cons i l ih => exact ih (d.detach i)
  exact ⟨hforest.2, hforest.1 ▸ d.forest.evolves_foldl_detach l⟩

/-! ## A pass over a tree -/

/-- A pass over a list of nodes is a list of edits. -/
theorem exists_evolves_foldl {op : Document → NodeId → Document} {e : NodeId → Edit} {mode : Mode}
    (hop : ∀ d i, d.mode = mode → Edits d.forest.next i (e i) d (op d i)) {l : List NodeId}
    (hl : l.Nodup) (hm : d.mode = mode) (hn : n ≤ d.forest.next) :
    ∃ E : NodeId → Edit, (∀ i, (e i).Like (E i)) ∧ (∀ i, (E i).Fresh n) ∧
      Evolves n (fun t => l.foldl (fun u i => u.update i (edited (E i))) t) d (l.foldl op d) := by
  induction l generalizing d with
  | nil =>
    exact ⟨fun i => (e i).numbered n, fun i => (e i).like_numbered n,
      fun i => (e i).fresh_numbered n, rfl, .refl hn⟩
  | cons i l ih =>
    obtain ⟨hi, hl⟩ := List.nodup_cons.mp hl
    have hstep := hop d i hm
    obtain ⟨Ei, hlike, hfresh, hd⟩ := hstep
    obtain ⟨E, hE, hf, hd'⟩ := ih hl (hd.mode.trans hm) (Nat.le_trans hn hd.forest.next_le)
    -- The leaves get their numbers step by step, so each node has an edit of its own. No node comes
    -- twice, so the later steps do not ask for another edit of `i`.
    refine ⟨fun j => if j = i then Ei else E j, ?_, ?_, ?_⟩
    · intro j
      dsimp only
      split
      · next h => exact h ▸ hlike
      · exact hE j
    · intro j
      dsimp only
      split
      · exact hfresh.mono hn
      · exact hf j
    · refine ((hd.mono hn).trans hd').congr ?_
      intro k _ t _
      dsimp only [Function.comp_apply, List.foldl_cons]
      rw [if_pos rfl]
      refine List.foldl_ext _ _ _ ?_
      intro u j hj
      rw [if_neg fun h : j = i => hi (h ▸ hj)]

/-- **A pass over the nodes of a tree rewrites it and changes nothing apart from it.** -/
theorem exists_evolves_rewrite {op : Document → NodeId → Document} {e : NodeId → Edit}
    (hop : ∀ d' i, d'.mode = d.mode → Edits d'.forest.next i (e i) d' (op d' i))
    {top : NodeId} (ht : d.forest.find? top = some t) :
    ∃ G, Evolves d.forest.next G d (t.ids.foldl op d) ∧ (G t).bare = (t.rewrite e).bare ∧
      ∀ u : Tree, (∀ i ∈ t.ids, i ∉ u.ids) → G u = u := by
  have hd := Forest.nodup_of_find? ht
  obtain ⟨E, hlike, hfresh, hev⟩ := exists_evolves_foldl hop hd rfl (Nat.le_refl _)
  refine ⟨_, hev, ?_, fun u hu => Tree.foldl_update_of_not_mem hu⟩
  rw [Tree.foldl_update_ids hfresh hd fun i hi => Forest.lt_next ht hi]
  have h := Tree.bare_rewrite (t := t) (φ := fun i => i) fun i _ => hlike i
  rwa [Tree.renumber_self] at h

end Document

end Stencil

import Stencil.Proofs.Component.Frame
import Stencil.Proofs.Component.Order

/-!
# Roots that have left the document

A root inside a site of another root leaves the document with the site when that root is stamped
(`exists_site_of_detached`). Its turn still comes, and its tree is searched, emptied and filled as
that of any other root. But the tree lies apart from the document, and has no new nodes in it, while
the trees of copies have no others. So neither the document nor the copies made so far are touched
(`document_stamp_of_detached`, `keeps_of_new`), and what is stamped later goes the same way with or
without it (`Shown.stampAll`).
-/

namespace Stencil.Component
open Markup Document
open Script (Keeps)

variable {n p q i k : NodeId} {d e e' : Document} {t u : Tree} {m : Marker}
  {l l' : List (NodeId × Marker)} {G : Tree → Tree}

/-! ## Runs -/

theorem stampAll_append (registry : Registry) (d : Document) (l l' : List (NodeId × Marker)) :
    stampAll registry d (l ++ l') = stampAll registry (stampAll registry d l) l' :=
  List.foldl_append

theorem Reached.stampAll (registry : Registry) (h : Reached d e (l ++ l')) :
    Reached d (stampAll registry e l) l' := by
  induction l generalizing e with
  | nil => exact h
  | cons x l ih => exact ih (h.step registry)

/-- The root at hand may be passed over. -/
theorem Reached.tail {x : NodeId × Marker} (h : Reached d e (x :: l)) : Reached d e l :=
  ⟨h.next_le, fun y hy => h.pending y (List.mem_cons_of_mem _ hy),
    (List.pairwise_cons.mp h.ordered).2⟩

theorem Reached.root_stamp (registry : Registry) {x : NodeId × Marker} (h : Reached d e (x :: l)) :
    (stamp registry e x.1 x.2).forest.root = e.forest.root := by
  obtain ⟨u, hu, -⟩ := (h.pending x List.mem_cons_self).exists_old
  obtain ⟨_, -, -, hev⟩ := exists_evolves_graft registry x.2 hu
  exact hev.forest.root

/-- Whatever roots have been stamped, old nodes have not come below others. -/
theorem Reached.exists_evolves (registry : Registry) (h : Reached d e (l ++ l'))
    (hev : Evolves d.forest.next G d e) :
    ∃ H, Evolves d.forest.next H d (Component.stampAll registry e l) := by
  induction l generalizing e G with
  | nil => exact ⟨G, hev⟩
  | cons x l ih =>
    obtain ⟨u, hu, -⟩ := (h.pending x List.mem_cons_self).exists_old
    obtain ⟨_, -, -, hstep⟩ := exists_evolves_graft registry x.2 hu
    exact ih (h.step registry) (hev.trans (hstep.mono h.next_le))

/-! ## The document -/

/-- The tree of a root that has left the document lies apart from it. -/
theorem disjoint_document (hmem : (q, m) ∈ roots d) (hpending : Pending d e q)
    (hroot : e.forest.root = d.forest.root) (hout : q ∉ e.forest.document.ids)
    (hu : e.forest.find? q = some u) : ∀ k ∈ u.ids, k ∉ e.forest.document.ids := by
  obtain ⟨t, v, ht, hv, hsub⟩ := hpending
  obtain rfl := Option.some.inj (hu.symm.trans hv)
  have hfind := e.forest.find?_document
  rcases Tree.nested_or_disjoint e.forest.distinct (Forest.find?_eq_some_iff.mp hu).1
    (Forest.find?_eq_some_iff.mp hfind).1 with h | h | h
  · exact absurd (Forest.id_of_find? hu ▸ List.mem_map_of_mem h) hout
  · -- then the document was below the root before, or is the root
    obtain ⟨t', hin, ht', -⟩ := exists_of_mem_roots hmem
    obtain rfl := Option.some.inj (ht.symm.trans ht')
    have hid : e.forest.document.id ∈ t.ids := hsub (List.mem_map_of_mem h)
    rw [Forest.id_document, hroot, Tree.ids_eq_cons, Forest.id_of_find? ht, List.mem_cons] at hid
    have hq : d.forest.root = q := hid.resolve_right (root_not_mem_of_mem_document hin)
    refine absurd ?_ hout
    rw [← hq, ← hroot, ← Forest.id_document]
    exact Tree.id_mem_ids _
  · exact h

/-- **Stamping a root that has left the document does not change the document.** -/
theorem document_stamp_of_detached (registry : Registry) (hmem : (q, m) ∈ roots d)
    (hpending : Pending d e q) (hroot : e.forest.root = d.forest.root)
    (hout : q ∉ e.forest.document.ids) :
    (stamp registry e q m).forest.document = e.forest.document := by
  obtain ⟨u, hu, -⟩ := hpending.exists_old
  obtain ⟨G, hev, hconf⟩ := exists_evolves_confined registry m hu
  rw [hev.forest.document e.forest.document_lt_next]
  exact hconf.apart _ (disjoint_document hmem hpending hroot hout hu)

/-- The document after a root has been stamped, apart from the numbers of new nodes. -/
theorem document_stamp_blur (registry : Registry) (m : Marker) (hn : n ≤ e.forest.next)
    (hu : e.forest.find? q = some u) (hold : ∀ k ∈ u.ids, k < n) (hroot : e.forest.root < n) :
    blur n (stamp registry e q m).forest.document =
      image registry n e q m (blur n e.forest.document) := by
  have hfind := find?_stamp_blur registry m hn hu hold hroot
  obtain ⟨_, -, -, hev⟩ := exists_evolves_graft registry m hu
  rw [← hev.forest.root, Forest.find?_root, hev.forest.root, Forest.find?_root] at hfind
  exact Option.some.inj hfind

/-- Two documents that show the same, apart from the numbers of new nodes. -/
structure Shown (n : NodeId) (e e' : Document) : Prop where
  mode : e'.mode = e.mode
  document : blur n e'.forest.document = blur n e.forest.document

namespace Shown

theorem symm (h : Shown n e e') : Shown n e' e := ⟨h.mode.symm, h.document.symm⟩

theorem mem_of_lt (h : Shown n e e') (hi : i < n) (hmem : i ∈ e.forest.document.ids) :
    i ∈ e'.forest.document.ids := by
  have hblur : min n i ∈ (blur n e.forest.document).ids := by
    rw [blur, Tree.ids_renumber]
    exact List.mem_map_of_mem hmem
  rw [← h.document, blur, Tree.ids_renumber, List.mem_map] at hblur
  obtain ⟨k, hk, hki⟩ := hblur
  rw [Nat.min_eq_right (Nat.le_of_lt hi), min_eq_iff hi] at hki
  exact hki ▸ hk

/-- Trees of old nodes that are shown are not only alike. -/
theorem find?_of_lt (h : Shown n e e') (hmem : q ∈ e.forest.document.ids)
    (hu : e.forest.find? q = some u) (hold : ∀ k ∈ u.ids, k < n) : e'.forest.find? q = some u := by
  have hq : q < n := Forest.id_of_find? hu ▸ hold u.id u.id_mem_ids
  have hmem' := h.mem_of_lt hq hmem
  rw [Forest.find?_of_mem_ids e.forest.find?_document hmem] at hu
  rw [Forest.find?_of_mem_ids e'.forest.find?_document hmem']
  have hfind := congrArg (Tree.find? q) h.document
  rw [blur, blur, Tree.find?_renumber (min_eq_iff hq), Tree.find?_renumber (min_eq_iff hq), hu,
    Option.map_some, Option.map_eq_some_iff] at hfind
  obtain ⟨w, hw, hblur⟩ := hfind
  rw [← blur, ← blur, blur_of_lt hold] at hblur
  rw [hw, eq_of_blur_eq hblur hold]

/-- A root shows the same in both when it is stamped in both, be it in the document or not. -/
theorem stamp (registry : Registry) (h : Shown d.forest.next e e') (hmem : (q, m) ∈ roots d)
    (hroot : e.forest.root = d.forest.root) (hroot' : e'.forest.root = d.forest.root)
    (hreached : Reached d e ((q, m) :: l)) (hreached' : Reached d e' ((q, m) :: l)) :
    Shown d.forest.next (stamp registry e q m) (stamp registry e' q m) := by
  have hpending : Pending d e q := hreached.pending (q, m) List.mem_cons_self
  have hpending' : Pending d e' q := hreached'.pending (q, m) List.mem_cons_self
  obtain ⟨u, hu, hold⟩ := hpending.exists_old
  obtain ⟨u', hu', -⟩ := hpending'.exists_old
  obtain ⟨_, -, -, hev⟩ := exists_evolves_graft registry m hu
  obtain ⟨_, -, -, hev'⟩ := exists_evolves_graft registry m hu'
  refine ⟨by rw [hev'.mode, hev.mode, h.mode], ?_⟩
  have hq : q < d.forest.next := Forest.id_of_find? hu ▸ hold u.id u.id_mem_ids
  by_cases hin : q ∈ e.forest.document.ids
  · -- the root has the same tree in both documents, which decides what is grafted onto it
    have hsame := h.find?_of_lt hin hu hold
    have hlt : d.forest.root < d.forest.next := Forest.lt_next_of_find? d.forest.find?_root
    rw [document_stamp_blur registry m hreached.next_le hu hold (hroot ▸ hlt),
      document_stamp_blur registry m hreached'.next_le hsame hold (hroot' ▸ hlt), h.document,
      image_congr registry m h.mode hu hsame]
  · have hin' : q ∉ e'.forest.document.ids := fun hq' => hin (h.symm.mem_of_lt hq hq')
    rw [document_stamp_of_detached registry hmem hpending hroot hin,
      document_stamp_of_detached registry hmem hpending' hroot' hin', h.document]

theorem stampAll (registry : Registry) (h : Shown d.forest.next e e') (hl : l ⊆ roots d)
    (hroot : e.forest.root = d.forest.root) (hroot' : e'.forest.root = d.forest.root)
    (hreached : Reached d e l) (hreached' : Reached d e' l) :
    Shown d.forest.next (stampAll registry e l) (stampAll registry e' l) := by
  induction l generalizing e e' with
  | nil => exact h
  | cons x l ih =>
    have hstep := h.stamp registry (hl List.mem_cons_self) hroot hroot' hreached hreached'
    exact ih hstep (fun y hy => hl (List.mem_cons_of_mem _ hy))
      ((hreached.root_stamp registry).trans hroot) ((hreached'.root_stamp registry).trans hroot')
      (hreached.step registry) (hreached'.step registry)

end Shown

/-! ## New nodes -/

/-- **Stamping a root leaves every new node alone**, with all below it and its place. -/
theorem keeps_of_new (registry : Registry) (m : Marker) (hev : Evolves d.forest.next G d e)
    (hpending : Pending d e q) (hk : d.forest.next ≤ k) (ht : e.forest.find? k = some t) :
    (stamp registry e q m).forest.find? k = some t ∧ Keeps e (stamp registry e q m) k := by
  obtain ⟨u, hu, hold⟩ := hpending.exists_old
  have hnew := hev.forest.le_of_mem ht hk
  refine ⟨find?_stamp_of_disjoint registry m hu ht ?_, keeps_stamp registry m hu ht ?_⟩
  · exact fun j hj hjt => Nat.not_lt.mpr (hnew j hjt) (hold j hj)
  · rw [mem_descendants_iff hu]
    exact fun hkq => Nat.not_lt.mpr hk (hold k (Tree.mem_ids_of_mem_children hkq))

/-! ## How a root leaves the document -/

/-- What leaves the document when nodes are detached was in the tree of one of them. -/
theorem exists_of_foldl_detach {f : Forest} {sites : List NodeId} (hk : k ∈ f.document.ids)
    (h : k ∉ (sites.foldl Forest.detach f).document.ids) :
    ∃ s ∈ sites, ∃ v, f.find? s = some v ∧ k ∈ v.ids := by
  induction sites generalizing f with
  | nil => exact absurd hk h
  | cons s sites ih =>
    by_cases hstays : k ∈ (f.detach s).document.ids
    · obtain ⟨s', hs', v, hv, hkv⟩ := ih hstays h
      rw [Forest.find?_detach, Option.map_eq_some_iff] at hv
      obtain ⟨w, hw, rfl⟩ := hv
      exact ⟨s', List.mem_cons_of_mem _ hs', w, hw, Tree.mem_ids_remove hkv⟩
    · rw [(Forest.evolves_detach f s).document f.document_lt_next] at hstays
      obtain ⟨v, hv, hvs, hkv⟩ := Tree.exists_of_not_mem_ids_remove hk hstays
      exact ⟨s, List.mem_cons_self, v, hvs ▸ Forest.find?_of_mem_preorder f.find?_document hv, hkv⟩

/-- What leaves the document when a root is stamped was in the tree of one of its sites. -/
theorem exists_site_of_stamp (registry : Registry) (hu : e.forest.find? p = some u)
    (hk : k ∈ e.forest.document.ids) (h : k ∉ (stamp registry e p m).forest.document.ids) :
    ∃ s ∈ sitesAt e p m, ∃ v, e.forest.find? s = some v ∧ k ∈ v.ids := by
  obtain ⟨clones, -, -, hev⟩ := exists_evolves_graft registry m hu
  rw [hev.forest.document e.forest.document_lt_next, graft] at h
  refine exists_of_foldl_detach hk fun hmem => h ?_
  rw [(Forest.evolves_foldl_detach e.forest _).document e.forest.document_lt_next] at hmem
  exact Tree.ids_subset_update_append p clones _ hmem

/-- **A root that has left the document did so with a site of a root that encloses it.** -/
theorem exists_site_of_detached (registry : Registry) {pre post : List (NodeId × Marker)}
    (h : Reached d e (pre ++ (q, m) :: post)) (hin : q ∈ e.forest.document.ids)
    (hout : q ∉ (stampAll registry e pre).forest.document.ids) :
    ∃ before p mp between s, pre = before ++ (p, mp) :: between ∧ q ∈ d.descendants p ∧
      s ∈ sitesAt (stampAll registry e before) p mp ∧
      (q = s ∨ q ∈ (stampAll registry e before).descendants s) := by
  induction pre generalizing e with
  | nil => exact absurd hin hout
  | cons x pre ih =>
    obtain ⟨p, mp⟩ := x
    by_cases hstays : q ∈ (stamp registry e p mp).forest.document.ids
    · obtain ⟨before, p', mp', between, s, rfl, hq, hs, hqs⟩ := ih (h.step registry) hstays hout
      exact ⟨(p, mp) :: before, p', mp', between, s, rfl, hq, hs, hqs⟩
    · obtain ⟨t, u, ht, hu, hsub⟩ := h.pending (p, mp) List.mem_cons_self
      obtain ⟨s, hs, v, hv, hqv⟩ := exists_site_of_stamp registry hu hin hstays
      refine ⟨[], p, mp, pre, s, rfl, ?_, hs, ?_⟩
      · have hsu : s ∈ u.ids := Tree.mem_ids_of_mem_children (sitesAt_subset hu mp hs)
        have hvu : v ∈ u.preorder :=
          (Tree.mem_of_find? ((Forest.find?_of_mem_ids hu hsu).symm.trans hv)).1
        have hqt : q ∈ t.ids := hsub (Tree.ids_subset_of_mem_preorder hvu hqv)
        -- a root that comes later is not the same
        have hne : q ≠ p := by
          rintro rfl
          have hlast : (q, m) ∈ pre ++ (q, m) :: post :=
            List.mem_append_right _ List.mem_cons_self
          exact (List.pairwise_cons.mp h.ordered).1 (q, m) hlast t ht hqt
        rw [Tree.ids_eq_cons, List.mem_cons, Forest.id_of_find? ht] at hqt
        exact (mem_descendants_iff ht).mpr (hqt.resolve_left hne)
      · rw [stampAll, List.foldl_nil]
        rw [Tree.ids_eq_cons, List.mem_cons, Forest.id_of_find? hv] at hqv
        exact hqv.imp_right (mem_descendants_iff hv).mpr

/-! ## Passing over a root -/

/-- The document when the turn comes to the first of the roots that are left. -/
theorem reached_turn (registry : Registry) (hroots : roots d = l ++ l') :
    Reached d (stampAll registry d l) l' ∧
      ∃ G, Evolves d.forest.next G d (stampAll registry d l) := by
  have hreached : Reached d d (l ++ l') := hroots ▸ reached_roots (.refl _) (pairwise_roots d)
  exact ⟨hreached.stampAll registry, hreached.exists_evolves registry ⟨rfl, .refl (Nat.le_refl _)⟩⟩

/-- Without the turn of a root that has left the document the same is written. -/
theorem write_stampAll_of_detached (registry : Registry) {pre post : List (NodeId × Marker)}
    (hroots : roots d = pre ++ (q, m) :: post)
    (hout : q ∉ (stampAll registry d pre).forest.document.ids) :
    (stampAll registry d (pre ++ post)).write = (process registry d).write := by
  obtain ⟨hturn, G, hev⟩ := reached_turn registry hroots
  have hpending : Pending d (stampAll registry d pre) q :=
    hturn.pending (q, m) List.mem_cons_self
  have hmem : (q, m) ∈ roots d := hroots ▸ List.mem_append_right _ List.mem_cons_self
  have hpost : post ⊆ roots d := fun x hx =>
    hroots ▸ List.mem_append_right _ (List.mem_cons_of_mem _ hx)
  obtain ⟨u, hu, -⟩ := hpending.exists_old
  obtain ⟨_, -, -, hstep⟩ := exists_evolves_graft registry m hu
  have hdocument := document_stamp_of_detached registry hmem hpending hev.forest.root hout
  have hshown : Shown d.forest.next (stampAll registry d pre)
      (stamp registry (stampAll registry d pre) q m) := ⟨hstep.mode, by rw [hdocument]⟩
  have hend := hshown.stampAll registry hpost hev.forest.root
    ((hturn.root_stamp registry).trans hev.forest.root) hturn.tail (hturn.step registry)
  rw [process_eq_stampAll registry hroots, stampAll_append]
  exact (write_of_blur_eq hend.mode hend.document).symm

/-- **A root that has left the document is inert.** If the document no longer has a root in it when
its turn comes, the root left with a site of a root that encloses it. Without its turn the same is
written. Its turn changes nothing about the nodes that earlier turns have made, which are those
above the numbers of the original document: neither what is below such a node, nor its value, its
parent or its place among its siblings. -/
theorem stamp_inert (registry : Registry) (d : Document) {pre post : List (NodeId × Marker)}
    (hroots : roots d = pre ++ (q, m) :: post)
    (hout : q ∉ (stampAll registry d pre).forest.document.ids) :
    (∃ before p mp between s, pre = before ++ (p, mp) :: between ∧ q ∈ d.descendants p ∧
      s ∈ sitesAt (stampAll registry d before) p mp ∧
      (q = s ∨ q ∈ (stampAll registry d before).descendants s)) ∧
    (stampAll registry d (pre ++ post)).write = (process registry d).write ∧
    ∀ k t, d.forest.next ≤ k → (stampAll registry d pre).forest.find? k = some t →
      (stamp registry (stampAll registry d pre) q m).forest.find? k = some t ∧
      Keeps (stampAll registry d pre) (stamp registry (stampAll registry d pre) q m) k := by
  refine ⟨?_, write_stampAll_of_detached registry hroots hout, fun k t hk ht => ?_⟩
  · have hmem : (q, m) ∈ roots d := hroots ▸ List.mem_append_right _ List.mem_cons_self
    obtain ⟨t, hin, ht, -⟩ := exists_of_mem_roots hmem
    exact exists_site_of_detached registry
      (hroots ▸ reached_roots (.refl _) (pairwise_roots d))
      (Forest.id_of_find? ht ▸ List.mem_map_of_mem hin) hout
  · obtain ⟨hturn, G, hev⟩ := reached_turn registry hroots
    exact keeps_of_new registry m hev (hturn.pending (q, m) List.mem_cons_self) hk ht

/-- The inner list has left with the row around it when its turn comes. Its copies stay. -/
theorem stamp_inert_nestedLists :
    let registry := (Registry.empty.set "rows" [[("cell", .string "a")], []]).set "cells" [[]]
    let turn := stampAll registry nestedLists [(1, ⟨"rows", ""⟩)]
    3 ∉ turn.forest.document.ids ∧ turn.write = (process registry nestedLists).write ∧
      ∃ t, turn.forest.find? 9 = some t ∧ isMarked t.value ∧
        (stamp registry turn 3 ⟨"cells", ""⟩).forest.find? 9 = some t := by
  intro registry turn
  have hroots : roots nestedLists = [(1, ⟨"rows", ""⟩)] ++ (3, ⟨"cells", ""⟩) :: [] := by
    decide +kernel
  have hout : 3 ∉ turn.forest.document.ids := by decide +kernel
  obtain ⟨-, hwrite, hnew⟩ := stamp_inert registry nestedLists hroots hout
  have hcopy : (turn.forest.find? 9).map (fun t => isMarked t.value) = some true := by
    decide +kernel
  obtain ⟨t, ht, hmarked⟩ := Option.map_eq_some_iff.mp hcopy
  exact ⟨hout, hwrite, t, ht, hmarked, (hnew 9 t (by decide) ht).1⟩

end Stencil.Component

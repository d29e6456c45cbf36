import Mathlib.Data.List.Pairwise
import Stencil.Proofs.Component.Stamping

/-!
# The order of stamping

Roots are stamped in document order, but only that a root comes after the roots above it matters.
A root that has not been stamped yet, and none of the roots above which it stands, has a tree
without new nodes (`Pending`); stamping grafts onto it what this tree alone decides. Two roots of
which none stands above the other have trees that lie apart, so neither decides differently after
the other, and grafts at different nodes commute. The numbers of the new nodes are not the same in
another order, so documents are compared with these made one (`Alike`); what is written has no
numbers in it.
-/

namespace Stencil.Component
open Markup Document
open Markup.Tree (idsAll preorderAll renumber renumberAll update withChildren)

variable {n p q i k : NodeId} {d e e' e'' : Document} {t u w : Tree} {m m' : Marker}
  {sites others : List NodeId} {clones more : List Tree} {l l' : List (NodeId × Marker)}

/-! ## Grafts -/

theorem remove_foldl_remove (sites : List NodeId) (i : NodeId) (w : Tree) :
    (sites.foldl (fun w s => w.remove s) w).remove i =
      sites.foldl (fun w s => w.remove s) (w.remove i) := by
  induction sites generalizing w with
  | nil => rfl
  | cons s sites ih => rw [List.foldl_cons, ih, Tree.remove_comm, List.foldl_cons]

theorem foldl_remove_comm (sites others : List NodeId) (w : Tree) :
    sites.foldl (fun w s => w.remove s) (others.foldl (fun w s => w.remove s) w) =
      others.foldl (fun w s => w.remove s) (sites.foldl (fun w s => w.remove s) w) := by
  induction sites generalizing w with
  | nil => rfl
  | cons s sites ih => rw [List.foldl_cons, remove_foldl_remove, ih, List.foldl_cons]

theorem foldl_remove_update (hsites : ∀ s ∈ sites, s ∉ idsAll clones) (q : NodeId) (w : Tree) :
    sites.foldl (fun w s => w.remove s) (update q (withChildren (· ++ clones)) w) =
      update q (withChildren (· ++ clones)) (sites.foldl (fun w s => w.remove s) w) := by
  induction sites generalizing w with
  | nil => rfl
  | cons s sites ih =>
    rw [List.foldl_cons, Tree.remove_update_append (hsites s List.mem_cons_self),
      ih fun s' hs' => hsites s' (List.mem_cons_of_mem _ hs'), List.foldl_cons]

/-- **Grafts at different nodes commute.** -/
theorem graft_comm (hpq : p ≠ q) (hp : p ∉ idsAll more) (hq : q ∉ idsAll clones)
    (hsites : ∀ s ∈ sites, s ∉ idsAll more) (hothers : ∀ s ∈ others, s ∉ idsAll clones) (w : Tree) :
    graft p sites clones (graft q others more w) =
      graft q others more (graft p sites clones w) := by
  rw [graft, graft, graft, graft, foldl_remove_update hsites, foldl_remove_update hothers,
    Tree.update_append_comm hpq hp hq, foldl_remove_comm]

/-- What is not at the node loses its sites and gains nothing. -/
theorem ids_graft_subset (hq : q ∉ w.ids) : (graft q sites clones w).ids ⊆ w.ids := by
  intro k hk
  have hq' : q ∉ (sites.foldl (fun w s => w.remove s) w).ids :=
    fun h => hq (Tree.mem_ids_foldl_remove h)
  rw [graft, Tree.update_of_not_mem hq'] at hk
  exact Tree.mem_ids_foldl_remove hk

/-! ## New numbers made one -/

/-- The tree with all numbers from `n` on made one. -/
def blur (n : NodeId) (t : Tree) : Tree := t.renumber (min n)

theorem min_eq_iff {n i : Nat} (h : i < n) (k : Nat) : min n k = i ↔ k = i := by omega

theorem lt_of_min_lt {n k : Nat} (h : min n k < n) : k < n := by omega

theorem blur_of_lt (h : ∀ k ∈ t.ids, k < n) : blur n t = t := by
  have hsame : blur n t = t.renumber fun k => k :=
    Tree.renumber_congr fun k hk => Nat.min_eq_right (Nat.le_of_lt (h k hk))
  rw [hsame, Tree.renumber_self]

/-- A tree that looks like one of old nodes is that tree. -/
theorem eq_of_blur_eq (h : blur n w = u) (hu : ∀ k ∈ u.ids, k < n) : w = u := by
  rw [← h]
  refine (blur_of_lt fun k hk => ?_).symm
  have hmem : min n k ∈ u.ids := by
    rw [← h, blur, Tree.ids_renumber]
    exact List.mem_map_of_mem hk
  exact lt_of_min_lt (hu _ hmem)

/-- Of new trees nothing is seen but what they are apart from numbers. -/
theorem renumberAll_min (hnew : ∀ k ∈ idsAll clones, n ≤ k) :
    renumberAll (min n) clones = (clones.map Tree.bare).map (renumber fun _ => n) := by
  have hone : renumberAll (min n) clones = renumberAll (fun _ => n) clones :=
    Tree.renumberAll_congr fun k hk => Nat.min_eq_left (hnew k hk)
  rw [hone, Tree.renumberAll_eq_map, List.map_map]
  refine List.map_congr_left fun t _ => ?_
  rw [Function.comp_apply, Tree.bare, Tree.renumber_renumber]
  rfl

theorem blur_foldl_remove (hsites : ∀ s ∈ sites, s < n) (w : Tree) :
    blur n (sites.foldl (fun w s => w.remove s) w) =
      sites.foldl (fun w s => w.remove s) (blur n w) := by
  induction sites generalizing w with
  | nil => rfl
  | cons s sites ih =>
    rw [List.foldl_cons, ih fun s' hs' => hsites s' (List.mem_cons_of_mem _ hs'), blur,
      Tree.renumber_remove (min_eq_iff (hsites s List.mem_cons_self)), List.foldl_cons, blur]

theorem blur_graft (hq : q < n) (hsites : ∀ s ∈ sites, s < n)
    (hnew : ∀ k ∈ idsAll clones, n ≤ k) (w : Tree) :
    blur n (graft q sites clones w) =
      graft q sites ((clones.map Tree.bare).map (renumber fun _ => n)) (blur n w) := by
  rw [graft, blur, Tree.renumber_update_append (min_eq_iff hq), renumberAll_min hnew, ← blur,
    blur_foldl_remove hsites, graft]

/-- The one number that new nodes have. -/
theorem eq_of_mem_idsAll_renumber {copies : List Tree}
    (h : k ∈ idsAll (copies.map (renumber fun _ => n))) : k = n := by
  rw [← Tree.renumberAll_eq_map, Tree.idsAll_renumberAll] at h
  obtain ⟨-, -, rfl⟩ := List.mem_map.mp h
  rfl

/-! ## What stamping shows -/

/-- What stamping a root does to the trees of old nodes. -/
def image (registry : Registry) (n : NodeId) (e : Document) (q : NodeId) (m : Marker) :
    Tree → Tree :=
  graft q (sitesAt e q m) ((copiesAt registry e q m).map (renumber fun _ => n))

theorem find?_stamp_blur (registry : Registry) (m : Marker) (hn : n ≤ e.forest.next)
    (hu : e.forest.find? q = some u) (hold : ∀ k ∈ u.ids, k < n) (hi : i < n) :
    ((stamp registry e q m).forest.find? i).map (blur n) =
      ((e.forest.find? i).map (blur n)).map (image registry n e q m) := by
  obtain ⟨clones, hbares, hnew, hev⟩ := exists_evolves_graft registry m hu
  have hq : q < n := Forest.id_of_find? hu ▸ hold u.id u.id_mem_ids
  have hsites : ∀ s ∈ sitesAt e q m, s < n := fun s hs =>
    hold s (Tree.mem_ids_of_mem_children (sitesAt_subset hu m hs))
  rw [hev.forest.find? i (Nat.lt_of_lt_of_le hi hn), Option.map_map, Option.map_map]
  congr 1
  funext w
  rw [Function.comp_apply, blur_graft hq hsites fun k hk => Nat.le_trans hn (hnew k hk), hbares]
  rfl

/-- The tree of the root decides what stamping it does. -/
theorem image_congr (registry : Registry) (m : Marker) (hmode : e'.mode = e.mode)
    (hu : e.forest.find? q = some u) (hu' : e'.forest.find? q = some u) :
    image registry n e' q m = image registry n e q m := by
  have hsites : stampSites? e' q m.singular = stampSites? e q m.singular :=
    stampSites?_congr hu hu' m.singular
  have hcopies : copiesAt registry e' q m = copiesAt registry e q m := by
    rw [copiesAt, copiesAt, hsites]
    cases hs : stampSites? e q m.singular with
    | none => rfl
    | some found =>
      obtain ⟨x, sites⟩ := found
      cases sites with
      | nil => rfl
      | cons first more =>
        have hfirst : first ∈ u.ids :=
          Tree.mem_ids_of_mem_children (stampSites?_subset hu hs List.mem_cons_self)
        obtain ⟨site, hsite⟩ := Tree.exists_find?_of_mem hfirst
        have hf := (Forest.find?_of_mem_ids hu hfirst).trans hsite
        have hf' := (Forest.find?_of_mem_ids hu' hfirst).trans hsite
        exact List.filterMap_congr fun record _ => boundCopy_congr hmode hf hf' _ record
  rw [image, image, sitesAt, sitesAt, hsites, hcopies]

/-- Two documents that do not differ but in what lies below no old node and in new numbers. -/
structure Alike (n : NodeId) (e e' : Document) : Prop where
  mode : e'.mode = e.mode
  root : e'.forest.document.id = e.forest.document.id
  find? : ∀ i < n, (e'.forest.find? i).map (blur n) = (e.forest.find? i).map (blur n)

namespace Alike

theorem refl (n : NodeId) (e : Document) : Alike n e e := ⟨rfl, rfl, fun _ _ => rfl⟩

theorem symm (h : Alike n e e') : Alike n e' e :=
  ⟨h.mode.symm, h.root.symm, fun i hi => (h.find? i hi).symm⟩

theorem trans (h : Alike n e e') (h' : Alike n e' e'') : Alike n e e'' :=
  ⟨h'.mode.trans h.mode, h'.root.trans h.root, fun i hi => (h'.find? i hi).trans (h.find? i hi)⟩

/-- Trees of old nodes are not only alike. -/
theorem find?_of_lt (h : Alike n e e') (hu : e.forest.find? q = some u)
    (hold : ∀ k ∈ u.ids, k < n) : e'.forest.find? q = some u := by
  have hq : q < n := Forest.id_of_find? hu ▸ hold u.id u.id_mem_ids
  have hfind := h.find? q hq
  rw [hu, Option.map_some, blur_of_lt hold, Option.map_eq_some_iff] at hfind
  obtain ⟨w, hw, hblur⟩ := hfind
  rw [hw, eq_of_blur_eq hblur hold]

theorem stamp (registry : Registry) (m : Marker) (h : Alike n e e') (hn : n ≤ e.forest.next)
    (hn' : n ≤ e'.forest.next) (hu : e.forest.find? q = some u) (hold : ∀ k ∈ u.ids, k < n) :
    Alike n (stamp registry e q m) (stamp registry e' q m) := by
  have hu' := h.find?_of_lt hu hold
  obtain ⟨_, -, -, hev⟩ := exists_evolves_graft registry m hu
  obtain ⟨_, -, -, hev'⟩ := exists_evolves_graft registry m hu'
  refine ⟨?_, ?_, fun i hi => ?_⟩
  · rw [hev'.mode, hev.mode, h.mode]
  · rw [hev'.forest.id_document, hev.forest.id_document, h.root]
  · rw [find?_stamp_blur registry m hn hu hold hi, find?_stamp_blur registry m hn' hu' hold hi,
      h.find? i hi, image_congr registry m h.mode hu hu']

end Alike

/-- A tree apart from that of a root is found again when the root has been stamped. -/
theorem find?_stamp_of_disjoint (registry : Registry) (m : Marker)
    (hu : e.forest.find? p = some u) (hw : e.forest.find? q = some w)
    (hdisj : ∀ k ∈ u.ids, k ∉ w.ids) : (stamp registry e p m).forest.find? q = some w := by
  obtain ⟨G, hev, hconf⟩ := exists_evolves_confined registry m hu
  rw [hev.forest.find?_some (Forest.lt_next_of_find? hw) hw, hconf.apart w hdisj]

/-- **Two roots whose trees lie apart can be stamped in any order.** -/
theorem alike_stamp_comm (registry : Registry) (m m' : Marker) (hn : n ≤ e.forest.next)
    (hu : e.forest.find? p = some u) (hw : e.forest.find? q = some w)
    (hold : ∀ k ∈ u.ids, k < n) (hold' : ∀ k ∈ w.ids, k < n) (hdisj : ∀ k ∈ u.ids, k ∉ w.ids) :
    Alike n (stamp registry (stamp registry e p m) q m')
      (stamp registry (stamp registry e q m') p m) := by
  have hw' := find?_stamp_of_disjoint registry m hu hw hdisj
  have hu' := find?_stamp_of_disjoint registry m' hw hu fun k hk hku => hdisj k hku hk
  obtain ⟨_, -, -, hp⟩ := exists_evolves_graft registry m hu
  obtain ⟨_, -, -, hq⟩ := exists_evolves_graft registry m' hw
  obtain ⟨_, -, -, hpq⟩ := exists_evolves_graft registry m' hw'
  obtain ⟨_, -, -, hqp⟩ := exists_evolves_graft registry m hu'
  refine ⟨?_, ?_, fun i hi => ?_⟩
  · rw [hqp.mode, hq.mode, hpq.mode, hp.mode]
  · rw [hqp.forest.id_document, hq.forest.id_document, hpq.forest.id_document, hp.forest.id_document]
  rw [find?_stamp_blur registry m (Nat.le_trans hn hq.forest.next_le) hu' hold hi,
    find?_stamp_blur registry m' (Nat.le_trans hn hp.forest.next_le) hw' hold' hi,
    find?_stamp_blur registry m hn hu hold hi, find?_stamp_blur registry m' hn hw hold' hi,
    image_congr registry m hq.mode hu hu', image_congr registry m' hp.mode hw hw']
  simp only [Option.map_map]
  congr 1
  funext v
  -- Roots and sites are old, and the copies have the one new number.
  have hpn : p < n := Forest.id_of_find? hu ▸ hold u.id u.id_mem_ids
  have hqn : q < n := Forest.id_of_find? hw ▸ hold' w.id w.id_mem_ids
  have hpq : p ≠ q := by
    rintro rfl
    rw [hu] at hw
    obtain rfl := Option.some.inj hw
    exact hdisj u.id u.id_mem_ids u.id_mem_ids
  have hnew : ∀ {copies : List Tree} {k : NodeId}, k < n →
      k ∉ idsAll (copies.map (renumber fun _ => n)) :=
    fun hk hmem => Nat.ne_of_lt hk (eq_of_mem_idsAll_renumber hmem)
  exact graft_comm hpq (hnew hpn) (hnew hqn)
    (fun s hs => hnew (hold s (Tree.mem_ids_of_mem_children (sitesAt_subset hu m hs))))
    (fun s hs => hnew (hold' s (Tree.mem_ids_of_mem_children (sitesAt_subset hw m' hs)))) (blur n v)

/-! ## Roots that are still to be stamped -/

/-- The tree of a node has nothing but what it had in the original document. -/
def Pending (d e : Document) (q : NodeId) : Prop :=
  ∃ t u, d.forest.find? q = some t ∧ e.forest.find? q = some u ∧ u.ids ⊆ t.ids

/-- A node is not in the original tree of another one. -/
def Outside (d : Document) (p q : NodeId) : Prop := ∀ t, d.forest.find? q = some t → p ∉ t.ids

/-- A document on the way from the original one, with the roots that are still to be stamped, each
behind those above it. -/
structure Reached (d e : Document) (l : List (NodeId × Marker)) : Prop where
  next_le : d.forest.next ≤ e.forest.next
  pending : ∀ x ∈ l, Pending d e x.1
  ordered : l.Pairwise fun a b => Outside d a.1 b.1

theorem Pending.exists_old (h : Pending d e q) :
    ∃ u, e.forest.find? q = some u ∧ ∀ k ∈ u.ids, k < d.forest.next := by
  obtain ⟨t, u, ht, hu, hsub⟩ := h
  exact ⟨u, hu, fun k hk => Forest.lt_next ht (hsub hk)⟩

/-- Stamping a root leaves the trees that it is not in without new nodes. -/
theorem Pending.stamp (registry : Registry) (m : Marker) (hp : Pending d e p) (hq : Pending d e q)
    (hout : Outside d p q) : Pending d (stamp registry e p m) q := by
  obtain ⟨-, v, -, hv, -⟩ := hp
  obtain ⟨t, u, ht, hu, hsub⟩ := hq
  obtain ⟨clones, -, -, hev⟩ := exists_evolves_graft registry m hv
  refine ⟨t, _, ht, hev.forest.find?_some (Forest.lt_next_of_find? hu) hu, ?_⟩
  exact List.Subset.trans (ids_graft_subset fun h => hout t ht (hsub h)) hsub

theorem disjoint_of_outside (hpq : Outside d p q) (hqp : Outside d q p)
    (ht : d.forest.find? p = some t) (hu : d.forest.find? q = some u) :
    ∀ k ∈ t.ids, k ∉ u.ids := by
  rcases Tree.nested_or_disjoint d.forest.distinct (Forest.find?_eq_some_iff.mp ht).1
    (Forest.find?_eq_some_iff.mp hu).1 with h | h | h
  · exact absurd (Forest.id_of_find? ht ▸ List.mem_map_of_mem h) (hpq u hu)
  · exact absurd (Forest.id_of_find? hu ▸ List.mem_map_of_mem h) (hqp t ht)
  · exact h

namespace Reached

variable {x : NodeId × Marker} {pre post : List (NodeId × Marker)}

theorem step (registry : Registry) (h : Reached d e (x :: l)) :
    Reached d (stamp registry e x.1 x.2) l := by
  obtain ⟨hfirst, hordered⟩ := List.pairwise_cons.mp h.ordered
  have hx := h.pending x List.mem_cons_self
  refine ⟨?_, fun y hy => ?_, hordered⟩
  · obtain ⟨u, hu, -⟩ := hx.exists_old
    obtain ⟨_, -, -, hev⟩ := exists_evolves_graft registry x.2 hu
    exact Nat.le_trans h.next_le hev.forest.next_le
  · exact hx.stamp registry x.2 (h.pending y (List.mem_cons_of_mem _ hy)) (hfirst y hy)

/-- A root that stands in none of the trees before it can come first. -/
theorem front (h : Reached d e (pre ++ x :: post)) (hx : ∀ y ∈ pre, Outside d x.1 y.1) :
    Reached d e (x :: (pre ++ post)) := by
  have hperm : (pre ++ x :: post).Perm (x :: (pre ++ post)) := List.perm_middle
  refine ⟨h.next_le, fun y hy => h.pending y (hperm.mem_iff.mpr hy), ?_⟩
  obtain ⟨hpre, hrest, hcross⟩ := List.pairwise_append.mp h.ordered
  obtain ⟨hpost, hordered⟩ := List.pairwise_cons.mp hrest
  refine List.pairwise_cons.mpr ⟨fun y hy => (List.mem_append.mp hy).elim (hx y) (hpost y), ?_⟩
  exact List.pairwise_append.mpr
    ⟨hpre, hordered, fun y hy z hz => hcross y hy z (List.mem_cons_of_mem _ hz)⟩

end Reached

/-! ## All roots -/

theorem Alike.stampAll (registry : Registry) (h : Alike d.forest.next e e')
    (hn : d.forest.next ≤ e'.forest.next) (hl : Reached d e l) :
    Alike d.forest.next (stampAll registry e l) (stampAll registry e' l) := by
  induction l generalizing e e' with
  | nil => exact h
  | cons x l ih =>
    obtain ⟨u, hu, hold⟩ := (hl.pending x List.mem_cons_self).exists_old
    obtain ⟨_, -, -, hev⟩ := exists_evolves_graft registry x.2 (h.find?_of_lt hu hold)
    exact ih (h.stamp registry x.2 hl.next_le hn hu hold) (Nat.le_trans hn hev.forest.next_le)
      (hl.step registry)

theorem root_stampAll (registry : Registry) (h : Reached d e l) :
    (stampAll registry e l).forest.document.id = e.forest.document.id := by
  induction l generalizing e with
  | nil => rfl
  | cons x l ih =>
    obtain ⟨u, hu, -⟩ := (h.pending x List.mem_cons_self).exists_old
    obtain ⟨_, -, -, hev⟩ := exists_evolves_graft registry x.2 hu
    exact (ih (h.step registry)).trans hev.forest.id_document

/-- **A root may be stamped before roots that it does not stand below.** -/
theorem alike_stampAll_front (registry : Registry) {x : NodeId × Marker}
    {pre post : List (NodeId × Marker)} (h : Reached d e (pre ++ x :: post))
    (hx : ∀ y ∈ pre, Outside d x.1 y.1) :
    Alike d.forest.next (stampAll registry e (x :: (pre ++ post)))
      (stampAll registry e (pre ++ x :: post)) := by
  induction pre generalizing e with
  | nil => exact .refl _ _
  | cons y pre ih =>
    have hyx : Outside d y.1 x.1 :=
      (List.pairwise_cons.mp h.ordered).1 x (List.mem_append_right _ List.mem_cons_self)
    have hxy : Outside d x.1 y.1 := hx y List.mem_cons_self
    have hfront := h.front hx
    obtain ⟨tx, ux, htx, hux, hsubx⟩ := hfront.pending x List.mem_cons_self
    obtain ⟨ty, uy, hty, huy, hsuby⟩ := h.pending y List.mem_cons_self
    have hdisj := disjoint_of_outside hxy hyx htx hty
    -- `x` and `y` change places, and then `x` goes on past the others
    have hswap := alike_stamp_comm registry x.2 y.2 h.next_le hux huy
      (fun k hk => Forest.lt_next htx (hsubx hk)) (fun k hk => Forest.lt_next hty (hsuby hk))
      fun k hkx hky => hdisj k (hsubx hkx) (hsuby hky)
    have hstep := h.step registry
    have hx' : ∀ z ∈ pre, Outside d x.1 z.1 := fun z hz => hx z (List.mem_cons_of_mem _ hz)
    have hnext := ((hstep.front hx').step registry).next_le
    exact (hswap.stampAll registry hnext ((hfront.step registry).step registry)).trans
      (ih hstep hx')

/-- **Any order that keeps the roots behind those above them gives the same.** -/
theorem alike_of_perm (registry : Registry) (hperm : l.Perm l') (h : Reached d e l)
    (h' : Reached d e l') :
    Alike d.forest.next (stampAll registry e l) (stampAll registry e l') := by
  induction l generalizing e l' with
  | nil =>
    obtain rfl := List.nil_perm.mp hperm
    exact .refl _ _
  | cons x l ih =>
    obtain ⟨pre, post, rfl⟩ := List.append_of_mem (hperm.subset List.mem_cons_self)
    have hrest : l.Perm (pre ++ post) := (List.perm_cons x).mp (hperm.trans List.perm_middle)
    have hx : ∀ y ∈ pre, Outside d x.1 y.1 := fun y hy =>
      (List.pairwise_cons.mp h.ordered).1 y (hrest.mem_iff.mpr (List.mem_append_left _ hy))
    exact (ih hrest (h.step registry) ((h'.front hx).step registry)).trans
      (alike_stampAll_front registry h' hx)

/-! ## What is written -/

theorem html_writeAll_renumberAll (φ : NodeId → NodeId) (around : Html.Surroundings)
    (ts : List Tree) : Html.writeAll around (renumberAll φ ts) = Html.writeAll around ts := by
  induction ts using Tree.listInduction generalizing around with
  | nil => rfl
  | cons i v cs ts ihc iht =>
    rw [renumberAll, renumber, Html.writeAll, Html.writeAll, iht]
    cases v <;> simp only [Html.write, ihc]

theorem xml_writeAll_renumberAll (φ : NodeId → NodeId) (ts : List Tree) :
    Xml.writeAll (renumberAll φ ts) = Xml.writeAll ts := by
  induction ts using Tree.listInduction with
  | nil => rfl
  | cons i v cs ts ihc iht =>
    have hempty : (renumberAll φ cs).isEmpty = cs.isEmpty := by cases cs <;> rfl
    rw [renumberAll, renumber, Xml.writeAll, Xml.writeAll, iht]
    cases v <;> simp only [Xml.write, ihc, hempty]

theorem html_write_renumber (φ : NodeId → NodeId) (around : Html.Surroundings) (t : Tree) :
    Html.write around (t.renumber φ) = Html.write around t := by
  have h := html_writeAll_renumberAll φ around [t]
  simpa [renumberAll, Html.writeAll] using h

theorem xml_write_renumber (φ : NodeId → NodeId) (t : Tree) :
    Xml.write (t.renumber φ) = Xml.write t := by
  have h := xml_writeAll_renumberAll φ [t]
  simpa [renumberAll, Xml.writeAll] using h

/-- What is written has no numbers in it. -/
theorem write_of_blur_eq (hmode : e'.mode = e.mode)
    (h : blur n e'.forest.document = blur n e.forest.document) : e'.write = e.write := by
  rw [Document.write, Document.write, hmode]
  split
  · rw [← html_write_renumber (min n), ← blur, h, blur, html_write_renumber]
  · rw [← xml_write_renumber (min n), ← blur, h, blur, xml_write_renumber]

/-- Documents that are alike are written alike. -/
theorem Alike.write (h : Alike n e e') (hn : e.forest.document.id < n) : e'.write = e.write := by
  have hfind := h.find? _ hn
  rw [e.forest.find?_document, ← h.root, e'.forest.find?_document] at hfind
  exact write_of_blur_eq h.mode (Option.some.inj hfind)

theorem outside_of_not_mem_descendants (hne : p ≠ q) (h : p ∉ d.descendants q) :
    Outside d p q := by
  intro t ht hmem
  rw [← cons_descendants ht, List.mem_cons] at hmem
  exact hmem.elim hne h

/-- In document order a root comes behind those above it. -/
theorem pairwise_roots (d : Document) : (roots d).Pairwise fun a b => Outside d a.1 b.1 := by
  have hd : (idsAll [d.forest.document]).Nodup := by
    simpa using Forest.nodup_of_find? d.forest.find?_document
  have hpre := Tree.pairwise_preorderAll hd
  rw [Tree.preorderAll_cons, Tree.preorderAll_nil, List.append_nil] at hpre
  have hout : d.forest.document.preorder.Pairwise fun t u => Outside d t.id u.id := by
    refine hpre.imp_of_mem fun _ hu htu v hv => ?_
    rw [find?_of_mem_document hu] at hv
    exact Option.some.inj hv ▸ htu
  rw [roots_eq]
  refine hout.filterMap rootOf? fun t u htu x hx y hy => ?_
  rw [← id_of_rootOf? hx, ← id_of_rootOf? hy]
  exact htu

theorem reached_roots (hperm : l.Perm (roots d)) (h : l.Pairwise fun a b => Outside d a.1 b.1) :
    Reached d d l := by
  refine ⟨Nat.le_refl _, fun x hx => ?_, h⟩
  obtain ⟨t, -, ht, -⟩ := exists_of_mem_roots (hperm.mem_iff.mp hx)
  exact ⟨t, t, ht, ht, List.Subset.refl _⟩

/-- **The order of unrelated roots does not matter.** Stamping the roots of a document in any order
in which each comes after the roots above it writes what stamping them in document order writes. -/
theorem write_stampAll_of_perm (registry : Registry) (d : Document) {l : List (NodeId × Marker)}
    (hperm : l.Perm (roots d)) (hafter : l.Pairwise fun a b => a.1 ∉ d.descendants b.1) :
    (stampAll registry d l).write = (process registry d).write := by
  have hnodup : (l.map Prod.fst).Nodup := (hperm.map Prod.fst).nodup_iff.mpr (nodup_roots d)
  have hordered : l.Pairwise fun a b => Outside d a.1 b.1 :=
    ((List.pairwise_map.mp hnodup).and hafter).imp fun h =>
      outside_of_not_mem_descendants h.1 h.2
  have halike := alike_of_perm registry hperm (reached_roots hperm hordered)
    (reached_roots (.refl _) (pairwise_roots d))
  refine (halike.write ?_).symm
  rw [root_stampAll registry (reached_roots hperm hordered)]
  exact d.forest.document_lt_next

/-- Two lists side by side. -/
def twoLists : Document :=
  let element (marker : String) (children : List Tree) : Tree :=
    .node 0 (.element ⟨.html "div", [⟨.plain marker, ""⟩]⟩) children
  ⟨.html, .ofTrees [element "data-v-component-rows" [element "data-v-row" []],
    element "data-v-component-cells" [element "data-v-cell" []]]⟩

/-- The second list can be stamped before the first one. -/
theorem write_stampAll_twoLists :
    let registry := Registry.empty.set "rows" [[("row", .string "a")], []]
    (stampAll registry twoLists [(3, ⟨"cells", ""⟩), (1, ⟨"rows", ""⟩)]).write =
      (process registry twoLists).write := by
  intro registry
  have hperm : [(3, ⟨"cells", ""⟩), (1, ⟨"rows", ""⟩)].Perm (roots twoLists) := by decide +kernel
  have hafter : [((3 : NodeId), (⟨"cells", ""⟩ : Marker)), (1, ⟨"rows", ""⟩)].Pairwise
      fun a b => a.1 ∉ twoLists.descendants b.1 := by decide +kernel
  exact write_stampAll_of_perm registry twoLists hperm hafter

end Stencil.Component

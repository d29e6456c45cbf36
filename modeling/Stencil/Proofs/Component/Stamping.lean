import Mathlib
import Stencil.Proofs.Component.Root

/-!
# What stamping does

Stamping a root takes its sites out of its tree and appends one bound copy of the first site for
each record (`exists_evolves_stamp`); nothing outside the root's tree changes, and children of
another node that lie outside it stay where they are (`Confined`).

A root without root above it is met as it was in the original document, because the roots stamped
before it lie apart from it. The copies that it gains are out of reach for the roots stamped later:
these are older than the copies, and none of them stands above.
-/

namespace Stencil.Component
open Markup Document
open Markup.Tree (idsAll preorderAll removeAll updateAll update withChildren)

variable {n r q i : NodeId} {d d' : Document} {t u w : Tree} {G H : Tree → Tree} {m : Marker}

/-! ## Sites -/

/-- Sites depend on the tree of the root alone. -/
theorem tagged_congr (h : d'.forest.find? r = d.forest.find? r) (name : String) :
    tagged d' r name = tagged d r name := by
  rw [tagged, tagged, treesBelow, treesBelow, h]

theorem findSome?_congr {α β : Type} {f g : α → Option β} {l : List α}
    (h : ∀ a ∈ l, f a = g a) : l.findSome? f = l.findSome? g := by
  induction l with
  | nil => rfl
  | cons a l ih =>
    rw [List.findSome?_cons, List.findSome?_cons, h a List.mem_cons_self,
      ih fun b hb => h b (List.mem_cons_of_mem _ hb)]

theorem wrapperSingular?_congr (h : d.forest.find? r = some t) (h' : d'.forest.find? r = some t) :
    wrapperSingular? d' r = wrapperSingular? d r := by
  rw [wrapperSingular?, wrapperSingular?, treesBelow, treesBelow, h, h']
  refine findSome?_congr fun u hu => ?_
  obtain ⟨k, v, cs⟩ := t
  -- The elements that are tried stand in the tree, and so does what is below them.
  have hut : u ∈ (Markup.Tree.node k v cs).preorder := List.mem_cons_of_mem _ hu
  have hfind : d'.forest.find? u.id = d.forest.find? u.id := by
    rw [Forest.find?_of_mem_preorder h hut, Forest.find?_of_mem_preorder h' hut]
  simp only [tagged_congr hfind]

theorem stampSites?_congr (h : d.forest.find? r = some t) (h' : d'.forest.find? r = some t)
    (singular : String) : stampSites? d' r singular = stampSites? d r singular := by
  have hfind : d'.forest.find? r = d.forest.find? r := h'.trans h.symm
  rw [stampSites?, stampSites?, wrapperSingular?_congr h h']
  simp only [tagged_congr hfind]

theorem tagged_subset (h : d.forest.find? r = some t) (name : String) :
    tagged d r name ⊆ idsAll t.children := by
  rw [tagged, treesBelow, h]
  intro i hi
  obtain ⟨u, hu, rfl⟩ := List.mem_map.mp hi
  exact List.mem_map_of_mem (List.mem_of_mem_filter hu)

/-- Sites are below the root. -/
theorem stampSites?_subset {singular x : String} {sites : List NodeId}
    (h : d.forest.find? r = some t) (hs : stampSites? d r singular = some (x, sites)) :
    sites ⊆ idsAll t.children := by
  rw [stampSites?] at hs
  split at hs
  · next site more htag =>
    obtain ⟨rfl, rfl⟩ := Prod.mk.inj (Option.some.inj hs)
    exact htag ▸ tagged_subset h _
  · obtain ⟨fallback, -, hs⟩ := Option.bind_eq_some_iff.mp hs
    split at hs
    · next site more htag =>
      obtain ⟨rfl, rfl⟩ := Prod.mk.inj (Option.some.inj hs)
      exact htag ▸ tagged_subset h _
    · cases hs

/-! ## Records -/

/-- The records that a name and a kind choose: those of the name if it is not empty and registered,
else those of the kind, and none if that is not registered either. -/
inductive Chosen (registry : Registry) (name kind : String) : List Record → Prop
  | named {records : List Record} (hname : name ≠ "") (h : registry.get? name = some records) :
      Chosen registry name kind records
  | ofKind {records : List Record} (hname : name = "" ∨ registry.get? name = none)
      (h : registry.get? kind = some records) : Chosen registry name kind records
  | none (hname : name = "" ∨ registry.get? name = none) (h : registry.get? kind = none) :
      Chosen registry name kind []

theorem chosen_of_kind {registry : Registry} {name kind : String}
    (h : name = "" ∨ registry.get? name = none) :
    Chosen registry name kind ((registry.get? kind).getD []) := by
  cases hkind : registry.get? kind with
  | none => exact .none h hkind
  | some records => exact .ofKind h hkind

theorem chosen_records (registry : Registry) (m : Marker) :
    Chosen registry m.name m.kind (records registry m) := by
  rw [records]
  by_cases hempty : m.name = ""
  · simp only [String.isEmpty_iff.mpr hempty, if_true, Option.none_or]
    exact chosen_of_kind (.inl hempty)
  · simp only [String.isEmpty_iff, hempty, if_false]
    cases hname : registry.get? m.name with
    | none => exact chosen_of_kind (.inr hname)
    | some records => exact .named hempty hname

/-! ## One root -/

/-- The tree that a record makes of a copy of the tree at a site. -/
def boundCopy (fieldStem : String) (d : Document) (site : NodeId) (record : Record) : Option Tree :=
  ((bindRecord fieldStem record (d.copy site).1 (d.copy site).2).forest.find? (d.copy site).2).map
    Tree.bare

theorem boundCopy_eq (fieldStem : String) (h : d.forest.find? i = some t) (record : Record) :
    boundCopy fieldStem d i record =
      some (t.bare.rewrite fun _ => recordEdit d.mode fieldStem record).bare := by
  obtain ⟨clone, hbare, -, hfind, -⟩ :=
    (works_bindRecord d.mode fieldStem record).exists_evolves_copy h
  rw [boundCopy, hfind, Option.map_some, hbare]

/-- **Stamping takes the sites out and appends one bound copy for each record.** -/
theorem exists_evolves_stamp (registry : Registry) {x : String} {first : NodeId}
    {more : List NodeId} (h : d.forest.find? r = some t)
    (hs : stampSites? d r m.singular = some (x, first :: more)) :
    ∃ clones : List Tree,
      clones.map (fun c => some c.bare) =
        (records registry m).map (boundCopy ("data-v-" ++ x ++ "-") d first) ∧
      (∀ k ∈ idsAll clones, d.forest.next ≤ k) ∧
      Evolves d.forest.next (fun w => update r (withChildren (· ++ clones))
        ((first :: more).foldl (fun w s => w.remove s) w)) d (stamp registry d r m) := by
  have hfirst : first ∈ idsAll t.children := stampSites?_subset h hs List.mem_cons_self
  have hfirstIds : first ∈ t.ids := Tree.mem_ids_of_mem_children hfirst
  obtain ⟨site, hsite⟩ := Tree.exists_find?_of_mem hfirstIds
  rw [← Forest.find?_of_mem_ids h hfirstIds] at hsite
  have hdetach := (d.copy first).1.evolves_foldl_detach (first :: more)
  -- The sites are older than the copied stamp, so detaching them does not reach into it.
  have hkeep : (first :: more).foldl (fun w s => w.remove s) (site.relabel d.forest.next).1 =
      (site.relabel d.forest.next).1 := by
    refine Tree.foldl_remove_of_not_mem ?_
    intro s hsite' hmem
    have hold := Forest.lt_next h (Tree.mem_ids_of_mem_children (stampSites?_subset h hs hsite'))
    exact Nat.not_lt.mpr (Tree.mem_ids_relabel site d.forest.next s hmem).1 hold
  obtain ⟨clones, hbares, hnew, hev⟩ := exists_evolves_fill
    (fun record => works_bindRecord d.mode ("data-v-" ++ x ++ "-") record) hsite h hdetach hkeep
    (records registry m)
  refine ⟨clones, ?_, hnew, ?_⟩
  · refine (map_some_bare hbares).trans (List.map_congr_left ?_)
    intro record _
    rw [boundCopy_eq _ hsite]
  · have hstampDef : stamp registry d r m = (records registry m).foldl
        (fun e record => e.appendCopy (bindRecord ("data-v-" ++ x ++ "-") record) r
          d.forest.next) ((first :: more).foldl Document.detach (d.copy first).1) := by
      rw [stamp, hs, ← snd_copy hsite]
      rfl
    rw [hstampDef]
    exact hev

/-- The sites that stamping a root takes out. -/
def sitesAt (d : Document) (q : NodeId) (m : Marker) : List NodeId :=
  ((stampSites? d q m.singular).map Prod.snd).getD []

/-- What stamping a root appends, apart from numbers. -/
def copiesAt (registry : Registry) (d : Document) (q : NodeId) (m : Marker) : List Tree :=
  match stampSites? d q m.singular with
  | some (x, first :: _) =>
    (records registry m).filterMap (boundCopy ("data-v-" ++ x ++ "-") d first)
  | _ => []

theorem sitesAt_subset (h : d.forest.find? q = some u) (m : Marker) :
    sitesAt d q m ⊆ idsAll u.children := by
  rw [sitesAt]
  cases hs : stampSites? d q m.singular with
  | none => exact List.nil_subset _
  | some found => exact stampSites?_subset h hs

/-- Sites are taken out of a tree, and clones become the last children of a node. -/
def graft (q : NodeId) (sites : List NodeId) (clones : List Tree) (w : Tree) : Tree :=
  update q (withChildren (· ++ clones)) (sites.foldl (fun w s => w.remove s) w)

theorem graft_nil (hw : w.ids.Nodup) : graft q [] [] w = w := by
  refine Tree.update_eq_self hw fun v _ => ?_
  cases v
  simp [withChildren]

/-- **Stamping a root grafts the bound copies onto it in place of its sites.** -/
theorem exists_evolves_graft (registry : Registry) (m : Marker) (h : d.forest.find? q = some u) :
    ∃ clones, clones.map Tree.bare = copiesAt registry d q m ∧
      (∀ k ∈ idsAll clones, d.forest.next ≤ k) ∧
      Evolves d.forest.next (graft q (sitesAt d q m) clones) d (stamp registry d q m) := by
  have hnone : Evolves d.forest.next (graft q [] []) d d := by
    refine .congr ⟨rfl, .refl (Nat.le_refl _)⟩ fun i _ w hw => ?_
    exact (graft_nil (Forest.nodup_of_find? hw)).symm
  rw [sitesAt, copiesAt]
  cases hs : stampSites? d q m.singular with
  | none =>
    refine ⟨[], rfl, by simp, ?_⟩
    rwa [stamp, hs]
  | some found =>
    obtain ⟨x, sites⟩ := found
    -- Sites are never an empty list, but nothing here depends on that.
    cases sites with
    | nil =>
      refine ⟨[], rfl, by simp, ?_⟩
      rwa [stamp, hs]
    | cons first more =>
      obtain ⟨clones, hbares, hnew, hev⟩ := exists_evolves_stamp registry h hs
      refine ⟨clones, ?_, hnew, hev⟩
      have hall := congrArg (List.filterMap (fun t => t)) hbares
      simpa [List.filterMap_map] using hall

/-! ## Where changes stay -/

/-- A change that stays inside a tree: trees apart from it are left alone, and so are, at the end of
the children of another node, trees apart from it. -/
structure Confined (u : Tree) (G : Tree → Tree) : Prop where
  apart : ∀ w : Tree, (∀ k ∈ u.ids, k ∉ w.ids) → G w = w
  tail : ∀ i v (kept rest : List Tree), i ≠ u.id → (∀ k ∈ u.ids, k ∉ idsAll rest) →
    ∃ kept', G (.node i v (kept ++ rest)) = .node i v (kept' ++ rest)

theorem Confined.refl (u : Tree) : Confined u fun w => w :=
  ⟨fun _ _ => rfl, fun _ _ kept _ _ _ => ⟨kept, rfl⟩⟩

theorem Confined.trans (hG : Confined u G) (hH : Confined u H) : Confined u (fun w => H (G w)) where
  apart w hw := by rw [hG.apart w hw, hH.apart w hw]
  tail i v kept rest hi hrest := by
    obtain ⟨kept', hG⟩ := hG.tail i v kept rest hi hrest
    obtain ⟨kept'', hH⟩ := hH.tail i v kept' rest hi hrest
    exact ⟨kept'', by rw [hG, hH]⟩

theorem confined_remove (hi : i ∈ idsAll u.children) : Confined u (Tree.remove i) where
  apart w hw := by
    refine Tree.remove_of_not_mem ?_
    intro hmem
    exact hw i (Tree.mem_ids_of_mem_children hi) (Tree.mem_ids_of_mem_children hmem)
  tail j v kept rest _ hrest := by
    refine ⟨removeAll i kept, ?_⟩
    have hi' : i ∉ idsAll rest := hrest i (Tree.mem_ids_of_mem_children hi)
    rw [Tree.remove, Tree.removeAll_append, Tree.removeAll_of_not_mem hi']

theorem confined_foldl_remove {l : List NodeId} (hl : l ⊆ idsAll u.children) :
    Confined u fun w => l.foldl (fun w s => w.remove s) w := by
  induction l with
  | nil => exact .refl u
  | cons s l ih =>
    exact (confined_remove (hl List.mem_cons_self)).trans
      (ih fun k hk => hl (List.mem_cons_of_mem _ hk))

theorem confined_update (g : Tree → Tree) (u : Tree) : Confined u (update u.id g) where
  apart w hw := Tree.update_of_not_mem (hw u.id u.id_mem_ids)
  tail j v kept rest hj hrest := by
    refine ⟨updateAll u.id g kept, ?_⟩
    rw [Tree.update, if_neg hj, Tree.updateAll_append,
      Tree.updateAll_of_not_mem (hrest u.id u.id_mem_ids)]

/-- Whatever a root's sites are, stamping it stays inside its tree. -/
theorem exists_evolves_confined (registry : Registry) (m : Marker) (h : d.forest.find? q = some u) :
    ∃ G, Evolves d.forest.next G d (stamp registry d q m) ∧ Confined u G := by
  obtain rfl := Forest.id_of_find? h
  obtain ⟨clones, -, -, hev⟩ := exists_evolves_graft registry m h
  exact ⟨_, hev, (confined_foldl_remove (sitesAt_subset h m)).trans (confined_update _ u)⟩

/-! ## All roots -/

/-- Stamp the roots of a list. -/
def stampAll (registry : Registry) (d : Document) (l : List (NodeId × Marker)) : Document :=
  l.foldl (fun d x => stamp registry d x.1 x.2) d

/-- The run falls into the roots before one of them, this one, and those after it. -/
theorem process_eq_stampAll (registry : Registry) {pre post : List (NodeId × Marker)}
    (hroots : roots d = pre ++ (r, m) :: post) : process registry d =
      stampAll registry (stamp registry (stampAll registry d pre) r m) post := by
  rw [process, hroots, List.foldl_append, List.foldl_cons]
  rfl

/-- Stamping roots that lie apart from a tree leaves the tree alone. -/
theorem exists_evolves_stampAll (registry : Registry) (ht : d.forest.find? r = some t)
    {l : List (NodeId × Marker)}
    (hl : ∀ x ∈ l, ∃ u, d.forest.find? x.1 = some u ∧ ∀ k ∈ u.ids, k ∉ t.ids)
    (hG : Evolves d.forest.next G d d') (hGt : G t = t) :
    ∃ H, Evolves d.forest.next H d (stampAll registry d' l) ∧ H t = t := by
  induction l generalizing d' G with
  | nil => exact ⟨G, hG, hGt⟩
  | cons x l ih =>
    obtain ⟨u, hu, hdisj⟩ := hl x List.mem_cons_self
    have hxn := Forest.lt_next_of_find? hu
    obtain ⟨H, hH, hconf⟩ :=
      exists_evolves_confined registry x.2 (hG.forest.find?_some hxn hu)
    -- The tree of the root `x` may have grown, but only by nodes that `t` cannot hold.
    have hHt : H t = t := by
      refine hconf.apart t ?_
      intro k hk hkt
      have hku : k ∈ u.ids := hG.forest.mem_of_mem_image hxn hu hk (Forest.lt_next ht hkt)
      exact hdisj k hku hkt
    refine ih (fun y hy => hl y (List.mem_cons_of_mem _ hy))
      (hG.trans (hH.mono hG.forest.next_le)) ?_
    rw [Function.comp_apply, hGt, hHt]

/-- A tree that holds neither the node `r` nor has its root among some children of `r` lies apart from
these children. -/
theorem not_mem_idsAll_of_children {clones : List Tree} (ht : d.forest.find? r = some t)
    (hclones : clones ⊆ t.children) (hu : d.forest.find? q = some u) (hr : r ∉ u.ids)
    (hq : q ∉ idsAll clones) : ∀ k ∈ u.ids, k ∉ idsAll clones := by
  intro k hku hk
  obtain ⟨c, hc, hkc⟩ := Tree.mem_idsAll_iff.mp hk
  have hct := hclones hc
  have hcf := Forest.find?_of_mem_preorder ht (Tree.mem_preorder_of_mem_children hct)
  have hqc : q ∉ c.ids := fun h => hq (Tree.mem_idsAll_iff.mpr ⟨c, hc, h⟩)
  rcases Tree.nested_or_disjoint d.forest.distinct (Forest.find?_eq_some_iff.mp hu).1
    (Forest.find?_eq_some_iff.mp hcf).1 with h | h | h
  · exact hqc (Forest.id_of_find? hu ▸ List.mem_map_of_mem h)
  · -- the parent of `c` is `r`, so a tree around `c` holds `r`
    have hmem : c.id ∈ idsAll u.children := by
      obtain ⟨j, v, cs⟩ := u
      rw [Tree.preorder_node, List.mem_cons] at h
      refine List.mem_map_of_mem (h.resolve_left ?_)
      rintro rfl
      exact hqc (Forest.id_of_find? hu ▸ Tree.id_mem_ids _)
    obtain ⟨p, hp, hparent⟩ := Forest.exists_parent_of_mem hu hmem
    have hrp := Forest.parent?_eq_some_iff.mpr ⟨t, ht, List.mem_map_of_mem hct⟩
    rw [hrp] at hparent
    exact hr (Option.some.inj hparent ▸ hp)
  · exact h k hku hkc

/-- **New children of a node stay its last children, and what has left the document stays out of it,
whatever roots are stamped that are not above the node.** -/
theorem stampAll_keeps (registry : Registry) {l : List (NodeId × Marker)} {v : Value}
    {kept clones : List Tree} (hrn : r < d.forest.next)
    (hl : ∀ x ∈ l, ∃ u, d.forest.find? x.1 = some u ∧ r ∉ u.ids)
    (hG : Evolves d.forest.next G d d')
    (ht : d'.forest.find? r = some (.node r v (kept ++ clones)))
    (hnew : ∀ k ∈ idsAll clones, d.forest.next ≤ k) :
    (∃ kept', (stampAll registry d' l).forest.find? r = some (.node r v (kept' ++ clones))) ∧
      ∀ s < d.forest.next, s ∉ d'.forest.document.ids →
        s ∉ (stampAll registry d' l).forest.document.ids := by
  induction l generalizing d' G kept with
  | nil => exact ⟨⟨kept, ht⟩, fun _ _ hs => hs⟩
  | cons x l ih =>
    obtain ⟨u, hu, hru⟩ := hl x List.mem_cons_self
    have hxn := Forest.lt_next_of_find? hu
    have hu' := hG.forest.find?_some hxn hu
    obtain ⟨H, hH, hconf⟩ := exists_evolves_confined registry x.2 hu'
    -- `r` is not below `x` and does not come below it, since `r` is old.
    have hru' : r ∉ (G u).ids := by
      intro h
      exact hru (hG.forest.mem_of_mem_image hxn hu h hrn)
    have hne : r ≠ (G u).id := fun h => hru' (h ▸ (G u).id_mem_ids)
    -- So the new children of `r` lie apart from the tree that is stamped.
    have hapart := not_mem_idsAll_of_children ht (List.subset_append_right kept clones) hu' hru'
      fun h => Nat.not_lt.mpr (hnew _ h) hxn
    obtain ⟨kept', hkept⟩ := hconf.tail r v kept clones hne hapart
    have ht' := hH.forest.find?_some (Nat.lt_of_lt_of_le hrn hG.forest.next_le) ht
    rw [hkept] at ht'
    obtain ⟨hfind, hout⟩ := ih (fun y hy => hl y (List.mem_cons_of_mem _ hy))
      (hG.trans (hH.mono hG.forest.next_le)) ht'
    refine ⟨hfind, fun s hs hsd => hout s hs ?_⟩
    exact hH.forest.not_mem_document d'.forest.document_lt_next
      (Nat.lt_of_lt_of_le hs hG.forest.next_le) hsd

/-- When the turn comes to a root without root above it, its tree is what it was. -/
theorem exists_evolves_turn (registry : Registry) {pre post : List (NodeId × Marker)}
    (hroots : roots d = pre ++ (r, m) :: post) (houter : ∀ q, IsRoot d q → r ∉ d.descendants q)
    (ht : d.forest.find? r = some t) :
    ∃ G, Evolves d.forest.next G d (stampAll registry d pre) ∧ G t = t :=
  exists_evolves_stampAll registry ht (fun _ hx => disjoint_of_roots_eq hroots houter ht hx)
    ⟨rfl, .refl (Nat.le_refl _)⟩ rfl

/-- A root that comes later neither is this root nor stands above it. -/
theorem not_mem_of_later {pre post : List (NodeId × Marker)}
    (hroots : roots d = pre ++ (r, m) :: post) (houter : ∀ q, IsRoot d q → r ∉ d.descendants q)
    {x : NodeId × Marker} (hx : x ∈ post) : ∃ u, d.forest.find? x.1 = some u ∧ r ∉ u.ids := by
  have hxroots : (x.1, x.2) ∈ roots d := by
    rw [hroots]
    exact List.mem_append_right _ (List.mem_cons_of_mem _ hx)
  obtain ⟨u, -, hu, hroot⟩ := exists_of_mem_roots hxroots
  refine ⟨u, hu, ?_⟩
  intro hr
  have hne : r ≠ x.1 := by
    intro he
    have hnodup := nodup_roots d
    rw [hroots, List.map_append, List.map_cons, List.nodup_append, List.nodup_cons] at hnodup
    exact hnodup.2.1.1 (List.mem_map.mpr ⟨x, hx, he.symm⟩)
  obtain ⟨w, hw, hwr⟩ := List.mem_map.mp hr
  have hmem := mem_descendants hu hw (hwr.symm ▸ hne)
  exact houter x.1 hroot (hwr ▸ hmem)

/-- The tree of a root and the document right after the root has been stamped. -/
theorem stamp_root (registry : Registry) {x : String} {first : NodeId} {more : List NodeId}
    (ht : d.forest.find? r = some t) (hroot : d.root ∉ idsAll t.children)
    (hs : stampSites? d r m.singular = some (x, first :: more)) :
    ∃ G v kept clones, Evolves d.forest.next G d (stamp registry d r m) ∧
      (stamp registry d r m).forest.find? r = some (.node r v (kept ++ clones)) ∧
      (∀ k ∈ idsAll clones, d.forest.next ≤ k) ∧
      (∀ s ∈ first :: more, s ∉ (stamp registry d r m).forest.document.ids) ∧
      clones.map (fun c => some c.bare) =
        (records registry m).map (boundCopy ("data-v-" ++ x ++ "-") d first) := by
  obtain ⟨clones, hbares, hnew, hev⟩ := exists_evolves_stamp registry ht hs
  have hfind := hev.forest.find?_some (Forest.lt_next_of_find? ht) ht
  have hid : ((first :: more).foldl (fun w s => w.remove s) t).id = r := by
    rw [Tree.id_foldl_remove, Forest.id_of_find? ht]
  cases hw : (first :: more).foldl (fun w s => w.remove s) t with
  | node j v kept =>
    rw [hw, Tree.id_node] at hid
    subst hid
    rw [hw, Tree.update, if_pos rfl] at hfind
    refine ⟨_, v, kept, clones, hev, hfind, hnew, ?_, hbares⟩
    intro s hsite hmem
    have hsub : s ∈ idsAll t.children := stampSites?_subset ht hs hsite
    rw [hev.forest.document d.forest.document_lt_next] at hmem
    have hold := Tree.mem_ids_update (P := fun k => k ∈ idsAll clones) (fun w k hk => by
      cases w
      simpa [withChildren, or_assoc] using hk) hmem
    rcases hold with hold | hold
    · -- A site still in the document would be the root of it, which is not below a component.
      have hdocument : s = d.root :=
        (Tree.eq_id_of_mem_ids_foldl_remove hsite hold).trans d.forest.id_document
      exact hroot (hdocument ▸ hsub)
    · exact Nat.not_lt.mpr (hnew s hold) (Forest.lt_next ht (Tree.mem_ids_of_mem_children hsub))

theorem boundCopy_congr (hmode : d'.mode = d.mode) (h : d.forest.find? i = some t)
    (h' : d'.forest.find? i = some t) (fieldStem : String) (record : Record) :
    boundCopy fieldStem d' i record = boundCopy fieldStem d i record := by
  rw [boundCopy_eq fieldStem h, boundCopy_eq fieldStem h', hmode]

/-- What is shown below a root once all roots are stamped. -/
theorem process_of_sites (registry : Registry) {x : String} {first : NodeId} {more : List NodeId}
    {pre post : List (NodeId × Marker)} (hroots : roots d = pre ++ (r, m) :: post)
    (houter : ∀ q, IsRoot d q → r ∉ d.descendants q) (ht : d.forest.find? r = some t)
    (hs : stampSites? d r m.singular = some (x, first :: more)) :
    (∀ s ∈ first :: more, s ∉ (process registry d).forest.document.ids) ∧
      ∃ t' kept clones, (process registry d).forest.find? r = some t' ∧
        t'.children = kept ++ clones ∧
        clones.map (fun c => some c.bare) =
          (records registry m).map (boundCopy ("data-v-" ++ x ++ "-") d first) := by
  obtain ⟨G, hG, hGt⟩ := exists_evolves_turn registry hroots houter ht
  have hrn := Forest.lt_next_of_find? ht
  have ht' := hG.forest.find?_some hrn ht
  rw [hGt] at ht'
  have hroot : d.root ∉ idsAll t.children := by
    obtain ⟨u, hudocument, hu, -⟩ :=
      exists_of_mem_roots (hroots ▸ List.mem_append_right _ List.mem_cons_self)
    obtain rfl := Option.some.inj (ht.symm.trans hu)
    exact root_not_mem_of_mem_document hudocument
  have hsame : (stampAll registry d pre).root = d.root := hG.forest.root
  obtain ⟨H, v, kept, clones, hH, hfind, hnew, hout, hbares⟩ :=
    stamp_root registry ht' (hsame ▸ hroot) ((stampSites?_congr ht ht' m.singular).trans hs)
  obtain ⟨⟨kept', hkept⟩, hlater⟩ := stampAll_keeps registry hrn
    (fun _ hx => not_mem_of_later hroots houter hx)
    (hG.trans (hH.mono hG.forest.next_le)) hfind
    fun k hk => Nat.le_trans hG.forest.next_le (hnew k hk)
  have hsites := stampSites?_subset ht hs
  rw [process_eq_stampAll registry hroots]
  refine ⟨fun s hsite => hlater s ?_ (hout s hsite), _, kept', clones, hkept, rfl, ?_⟩
  · exact Forest.lt_next ht (Tree.mem_ids_of_mem_children (hsites hsite))
  · have hfirst : first ∈ t.ids := Tree.mem_ids_of_mem_children (hsites List.mem_cons_self)
    obtain ⟨site, hsite⟩ := Tree.exists_find?_of_mem hfirst
    have hf := (Forest.find?_of_mem_ids ht hfirst).trans hsite
    have hf' := (Forest.find?_of_mem_ids ht' hfirst).trans hsite
    rw [hbares]
    exact List.map_congr_left fun record _ => boundCopy_congr hG.mode hf hf' _ record

/-- A root without sites is left alone when its turn comes. -/
theorem stamp_of_no_sites (registry : Registry) {pre post : List (NodeId × Marker)}
    (hroots : roots d = pre ++ (r, m) :: post) (houter : ∀ q, IsRoot d q → r ∉ d.descendants q)
    (ht : d.forest.find? r = some t)
    (hs : ∀ x first more, stampSites? d r m.singular ≠ some (x, first :: more)) :
    stamp registry (stampAll registry d pre) r m = stampAll registry d pre := by
  obtain ⟨G, hG, hGt⟩ := exists_evolves_turn registry hroots houter ht
  have ht' := hG.forest.find?_some (Forest.lt_next_of_find? ht) ht
  rw [hGt] at ht'
  rw [stamp, stampSites?_congr ht ht']
  split
  · next h => exact absurd h (hs _ _ _)
  · rfl

/-- **A component shows one bound copy of its stamp for each of its records.** For a root with no
root above it, none of its sites is in the processed document, and its last children are the copies
that its records make of the first site, in their order; the records are those that the value of the
marker chooses, or else the kind. A root without sites is left alone. -/
theorem process_root (registry : Registry) (d : Document) {r : NodeId} (hr : r ∈ d.elements)
    (hroot : IsRoot d r) (houter : ∀ q, IsRoot d q → r ∉ d.descendants q) :
    ∃ e m a chosen, d.element? r = some e ∧ Marker.ofElement? e = some m ∧ IsMarkerOf e a ∧
      Chosen registry (Text.trimmed a.value) m.kind chosen ∧
      match stampSites? d r m.singular with
      | some (singular, first :: more) =>
        (∀ s ∈ first :: more, s ∉ (process registry d).forest.document.ids) ∧
        ∃ t kept clones, (process registry d).forest.find? r = some t ∧
          t.children = kept ++ clones ∧
          clones.map (fun c => some c.bare) =
            chosen.map (boundCopy ("data-v-" ++ singular ++ "-") d first)
      | _ => (r, m) ∈ roots d ∧ ∀ pre post, roots d = pre ++ (r, m) :: post →
        stamp registry (stampAll registry d pre) r m = stampAll registry d pre := by
  obtain ⟨e, he, hmark⟩ := hroot
  obtain ⟨m, hm⟩ := exists_marker hmark
  obtain ⟨t, htf, rfl⟩ := List.mem_map.mp hr
  obtain ⟨htd, -⟩ := List.mem_filter.mp htf
  have ht := find?_of_mem_document htd
  have hmem : (t.id, m) ∈ roots d := mem_roots htd ((element?_of_find? ht).symm.trans he) hm
  obtain ⟨a, rest, ha, -, hmarker⟩ := exists_isMarkerOf hm
  have hname : m.name = Text.trimmed a.value := by rw [hmarker]
  refine ⟨e, m, a, records registry m, he, hm, ha, hname ▸ chosen_records registry m, ?_⟩
  split
  · next hs =>
    obtain ⟨pre, post, hroots⟩ := List.append_of_mem hmem
    exact process_of_sites registry hroots houter ht hs
  · next hs =>
    exact ⟨hmem, fun pre post hroots => stamp_of_no_sites registry hroots houter ht hs⟩

/-- A list of rows whose marker gives the name of the records to show. -/
def namedList : Document :=
  let element (name : String) (attributes : List Attribute) (children : List Tree) : Tree :=
    .node 0 (.element ⟨.html name, attributes⟩) children
  ⟨.html, .ofTrees [element "ul" [⟨.plain "data-v-component-rows", " picked "⟩]
    [element "li" [⟨.plain "data-v-row", ""⟩] [element "b" [⟨.plain "data-v-row-name", ""⟩] []]]]⟩

/-- The row of the list, with this text in it. -/
def namedRow (text : String) : Tree :=
  .node 0 (.element ⟨.html "li", [⟨.plain "data-v-row", ""⟩]⟩)
    [.node 0 (.element ⟨.html "b", [⟨.plain "data-v-row-name", ""⟩]⟩) [.node 0 (.text text) []]]

theorem boundCopy_namedList (text : String) :
    boundCopy "data-v-row-" namedList 2 [("name", .string text)] = some (namedRow text) := by
  cbv

/-- The records of the name count although the kind has records too: the list shows a row for each
of them, and the row of the template is gone. -/
theorem process_namedList :
    let registry := (Registry.empty.set "rows" [[("name", .string "kind")]]).set "picked"
      [[("name", .string "a")], [("name", .string "b")]]
    1 ∈ namedList.elements ∧ IsRoot namedList 1 ∧
      (∀ q, IsRoot namedList q → 1 ∉ namedList.descendants q) ∧
      2 ∉ (process registry namedList).forest.document.ids ∧
      ∃ t kept clones, (process registry namedList).forest.find? 1 = some t ∧
        t.children = kept ++ clones ∧ clones.map Tree.bare = [namedRow "a", namedRow "b"] := by
  intro registry
  have helement : namedList.element? 1 =
      some ⟨.html "ul", [⟨.plain "data-v-component-rows", " picked "⟩]⟩ := by decide
  have hmem : 1 ∈ namedList.elements := by decide
  have hroot : IsRoot namedList 1 := ⟨_, helement, _, .head _, by decide⟩
  -- Only the numbers below four are in use, and none of them is a root above the list.
  have houter : ∀ q, IsRoot namedList q → 1 ∉ namedList.descendants q := by
    rintro q ⟨e, he, -⟩ hq
    have hdoc : ∀ q < 4, 1 ∈ namedList.descendants q → namedList.element? q = none := by decide
    rw [hdoc q (lt_next_of_mem_descendants hq) hq] at he
    cases he
  obtain ⟨e, m, a, chosen, he, hm, ⟨before, after, hattributes, -, -⟩, hchosen, h⟩ :=
    process_root registry namedList hmem hroot houter
  obtain rfl := Option.some.inj (helement.symm.trans he)
  have hm' : Marker.ofElement? ⟨.html "ul", [⟨.plain "data-v-component-rows", " picked "⟩]⟩ =
      some ⟨"rows", "picked"⟩ := by decide
  obtain rfl := Option.some.inj (hm'.symm.trans hm)
  obtain ⟨rfl, rfl, rfl⟩ : before = [] ∧ ⟨.plain "data-v-component-rows", " picked "⟩ = a ∧
      after = [] := by
    cases before with
    | nil => simpa using hattributes
    | cons b before => simp at hattributes
  have htrimmed : Text.trimmed " picked " = "picked" := by decide
  have hget : registry.get? "picked" = some [[("name", .string "a")], [("name", .string "b")]] := by
    rfl
  obtain rfl : chosen = [[("name", .string "a")], [("name", .string "b")]] := by
    rw [htrimmed] at hchosen
    cases hchosen with
    | named hname hrecords => exact Option.some.inj (hrecords.symm.trans hget)
    | ofKind hname => simp [hget] at hname
    | none hname => simp [hget] at hname
  have hs : stampSites? namedList 1 (Marker.singular ⟨"rows", "picked"⟩) = some ("row", [2]) := by
    decide
  rw [hs] at h
  obtain ⟨hgone, t, kept, clones, hfind, hchildren, hbares⟩ := h
  refine ⟨hmem, hroot, houter, hgone 2 (.head _), t, kept, clones, hfind, hchildren, ?_⟩
  have hstem : "data-v-" ++ "row" ++ "-" = "data-v-row-" := by decide
  rw [hstem, List.map_cons, List.map_cons, boundCopy_namedList, boundCopy_namedList] at hbares
  refine List.map_injective_iff.mpr (fun _ _ => Option.some.inj) ?_
  rw [List.map_map]
  exact hbares

end Stencil.Component

import Stencil.Proofs.Component.Binding
import Stencil.Proofs.Css.Renumbering
import Stencil.Script.Expansion

/-!
# What expanding a loop does

A rule is matched while the copy of the site is still detached, so what it does depends on the copy
alone, and on that only apart from its numbers (`works_applyRule`). Hence every item makes of the
site the tree that it would make of it in a document that holds nothing else (`itemTree`), and the
container ends up with these trees, in the order of the items.
-/

namespace Stencil.Script
open Markup Document
open Markup.Tree (idsAll update withChildren)

variable {d : Document} {t u : Tree} {i c site : NodeId} {mode : Mode}

/-! ## Rules -/

/-- What an action does to a node. -/
def actionEdit (mode : Mode) (action : Action) (value : String) : Edit :=
  match action with
  | .content => fillEdit mode (.text value)
  | .setAttribute name => .ofMap (valueWithAttribute name value)

theorem edits_applyAction (action : Action) (value : String) (d : Document) (i : NodeId) :
    Edits d.forest.next i (actionEdit d.mode action value) d (applyAction action value d i) := by
  cases action with
  | content => exact d.edits_fill i (.text value)
  | setAttribute name => exact d.edits_setAttribute i name value

/-- An action on one node, if the node is a match. -/
theorem edits_applyAction_if (action : Action) (value : String) (hmode : d.mode = mode) (i : NodeId)
    (isMatch : Bool) :
    Edits d.forest.next i (if isMatch then actionEdit mode action value else Edit.keep) d
      (if isMatch then applyAction action value d i else d) := by
  cases isMatch with
  | false => exact .keep (Nat.le_refl _)
  | true => exact hmode ▸ edits_applyAction action value d i

/-- What a rule with this selector does to a tree that stands alone. -/
def ruleEdits (mode : Mode) (selector : Selector) (action : Action) (value : String) (t : Tree) :
    NodeId → Edit :=
  fun i => if Css.matchesIn selector t i then actionEdit mode action value else Edit.keep

/-- What a rule makes of a tree that stands alone. -/
def ruleImage (p : Plan) (aliases : Aliases) (mode : Mode) (value : Json.Value) (r : Rule)
    (t : Tree) : Tree :=
  match p.selectorOf aliases r with
  | .error _ => t
  | .ok selector =>
    let u := (t.relabel 0).1
    (u.rewrite (ruleEdits mode selector r.action (evaluate r.expression p.item value) u)).bare

/-- **A rule rewrites a detached tree, by what matches in that tree.** -/
theorem works_applyRule (p : Plan) (aliases : Aliases) (mode : Mode) (value : Json.Value)
    (r : Rule) :
    Works mode (ruleImage p aliases mode value r)
      fun d top => applyRule p aliases p.item value top d r := by
  intro d top t hm ht hroot
  dsimp only
  rw [applyRule]
  cases hsel : p.selectorOf aliases r with
  | error e =>
    refine ⟨fun t => t, ⟨rfl, .refl (Nat.le_refl _)⟩, ?_, fun _ _ => rfl⟩
    rw [ruleImage, hsel]
  | ok selector =>
    have htrees := Forest.mem_trees_of_parent?_eq_none ht hroot
    let text := evaluate r.expression p.item value
    -- A detached tree is one of the trees of the forest, and matching looks no further.
    have htargets : (top :: d.descendants top).filter (selector.matchesAt d.forest) =
        t.ids.filter (Css.matchesIn selector t) := by
      rw [cons_descendants ht]
      exact List.filter_congr fun i hi => Css.matchesAt_of_mem_trees selector htrees hi
    have hop : ∀ d' i, d'.mode = d.mode →
        Edits d'.forest.next i (ruleEdits mode selector r.action text t i) d'
          (if Css.matchesIn selector t i then applyAction r.action text d' i else d') :=
      fun d' i hd' => edits_applyAction_if r.action text (hd'.trans hm) i _
    obtain ⟨G, hG, hbare, hframe⟩ := exists_evolves_rewrite hop ht
    refine ⟨G, ?_, hbare.trans ?_, fun v hv => hframe v fun i hi hiv => (hv i hiv).2 hi⟩
    · dsimp only
      rw [htargets, List.foldl_filter]
      exact hG
    · -- the tree and the one in `ruleImage` are renumberings of each other
      have hnodup := Forest.nodup_of_find? ht
      obtain ⟨φ, hφ, hrenumber⟩ := Tree.exists_injective_renumber
        (t.bare.nodup_ids_relabel 0) hnodup (by rw [Tree.bare_relabel, Tree.bare_bare])
      rw [ruleImage, hsel]
      dsimp only
      generalize (t.bare.relabel 0).1 = s at hrenumber ⊢
      subst hrenumber
      refine Tree.bare_rewrite ?_
      intro i _
      rw [ruleEdits, ruleEdits, Css.matchesIn_renumber hφ]
      exact .refl _

/-- What the rules of a body make of a tree that stands alone. -/
def bodyImage (p : Plan) (aliases : Aliases) (mode : Mode) (value : Json.Value) (t : Tree) : Tree :=
  p.body.foldl (fun t r => ruleImage p aliases mode value r t) t

theorem works_body (p : Plan) (aliases : Aliases) (mode : Mode) (value : Json.Value) :
    Works mode (bodyImage p aliases mode value)
      fun d top => p.body.foldl (applyRule p aliases p.item value top) d :=
  .foldl (fun r => works_applyRule p aliases mode value r) p.body

/-! ## Items -/

/-- The tree that the rules make for one item of a copy of a tree, in a document that holds nothing
else. -/
def itemTree (p : Plan) (aliases : Aliases) (mode : Mode) (t : Tree) (value : Json.Value) :
    Option Tree :=
  let alone : Document := ⟨mode, .ofTrees [t.bare]⟩
  let (d, copy) := alone.copy 1
  ((p.body.foldl (applyRule p aliases p.item value copy) d).forest.find? copy).map Tree.bare

theorem itemTree_eq (p : Plan) (aliases : Aliases) (mode : Mode) (t : Tree) (value : Json.Value) :
    itemTree p aliases mode t value = some (bodyImage p aliases mode value t.bare) := by
  have hfind : (Document.mk mode (.ofTrees [t.bare])).forest.find? 1 =
      some (t.bare.relabel 1).1 := by
    cases t
    rfl
  obtain ⟨clone, hbare, -, hclone, -⟩ := (works_body p aliases mode value).exists_evolves_copy hfind
  rw [itemTree]
  dsimp only
  rw [hclone, Option.map_some, hbare, Tree.bare_relabel, Tree.bare_bare]

/-- The list that the items of a loop come from: it is found in the first record of the bound
component, under the name that the clause gives. -/
def IsListOf (p : Plan) (registry : Registry) (items : List Json.Value) : Prop :=
  ∃ clause binding record more, p.clause? = some clause ∧ p.binding? = some binding ∧
    registry.get? binding.component = some (record :: more) ∧
    Keyed.get? record clause.list = some (.array items)

theorem itemsOf_eq_of_isListOf {p : Plan} {registry : Registry} {items : List Json.Value}
    (h : IsListOf p registry items) : itemsOf p registry = items := by
  obtain ⟨clause, binding, record, more, hc, hb, hr, hl⟩ := h
  simp [itemsOf, hc, hb, hr, hl, Json.Value.items?]

theorem itemsOf_eq_nil {p : Plan} {registry : Registry} (h : ∀ items, ¬ IsListOf p registry items) :
    itemsOf p registry = [] := by
  rw [itemsOf, Option.getD_eq_iff]
  refine .inr ⟨?_, rfl⟩
  rw [Option.eq_none_iff_forall_ne_some]
  intro items hitems
  -- Every lookup that leads to the items has succeeded.
  refine h items ?_
  simp only [bind, Option.bind_eq_some_iff] at hitems
  obtain ⟨clause, hc, binding, hb, records, hr, record, hhead, value, hl, hvalue⟩ := hitems
  obtain ⟨more, rfl⟩ : ∃ more, records = record :: more := by
    cases records with
    | nil => cases hhead
    | cons r more => exact ⟨more, by rw [Option.some.inj hhead]⟩
  cases value with
  | array xs =>
    obtain rfl := Option.some.inj hvalue
    exact ⟨clause, binding, record, more, hc, hb, hr, hl⟩
  | _ => cases hvalue

/-! ## The rest of the document -/

/-- The children of the parent of a node. -/
def siblings (d : Document) (i : NodeId) : List NodeId :=
  (d.parent? i).elim [] d.forest.children

/-- What a change leaves to a node: its value, its parent, and its place among its siblings. -/
structure Keeps (d d' : Document) (i : NodeId) : Prop where
  value : d'.forest.value? i = d.forest.value? i
  parent : d'.parent? i = d.parent? i
  siblings : siblings d' i = siblings d i

/-- A change that keeps the value of a node and the children of its parent keeps the node. -/
theorem keeps_of_children {d' : Document} {G : Tree → Tree} (h : Evolves d.forest.next G d d')
    (ht : d.forest.find? i = some t) (hvalue : (G t).value = t.value)
    (hchildren : ∀ q w, d.forest.find? q = some w → i ∈ w.children.map Tree.id →
      (G w).children.map Tree.id = w.children.map Tree.id) : Keeps d d' i := by
  have hin := Forest.lt_next_of_find? ht
  have hvalue' : d'.forest.value? i = d.forest.value? i := by
    rw [Forest.value?, Forest.value?, h.forest.find? i hin, ht, Option.map_some, Option.map_some,
      Option.map_some, hvalue]
  cases hp : d.forest.parent? i with
  | none =>
    have hp' := h.forest.parent?_eq_none hin hp
    have hparent : d'.parent? i = d.parent? i := hp'.trans hp.symm
    refine ⟨hvalue', hparent, ?_⟩
    rw [siblings, siblings, hparent, parent?, hp]
    rfl
  | some q =>
    obtain ⟨w, hw, hiw⟩ := Forest.parent?_eq_some_iff.mp hp
    have hw' := h.forest.find?_some (Forest.lt_next_of_find? hw) hw
    have hsame := hchildren q w hw hiw
    have hp' : d'.forest.parent? i = some q :=
      Forest.parent?_eq_some_iff.mpr ⟨_, hw', hsame ▸ hiw⟩
    refine ⟨hvalue', hp'.trans hp.symm, ?_⟩
    rw [siblings, siblings, parent?, parent?, hp, hp']
    simp only [Option.elim_some, Forest.children, hw, hw', hsame]

/-- **New children of a node change nothing but what is below the node.** -/
theorem keeps_of_evolves {d' : Document} {clones : List Tree}
    (h : Evolves d.forest.next (update c (withChildren fun _ => clones)) d d')
    (ht : d.forest.find? i = some t) (hi : i ∉ d.descendants c) : Keeps d d' i := by
  refine keeps_of_children h ht (Tree.value_update_withChildren _ c t) fun q w hw hiw => ?_
  obtain rfl := Forest.id_of_find? hw
  -- The parent is not the container, or the node would be below it. So it keeps its children.
  have hqc : w.id ≠ c := by
    rintro rfl
    refine hi ?_
    rw [descendants, treesBelow, hw]
    exact Tree.mem_idsAll_of_mem_map_id hiw
  exact Tree.map_id_children_update (Tree.id_withChildren fun _ : List Tree => clones) hqc

/-- The document after the loop: the container holds one worked copy of the site for each item. -/
theorem exists_evolves_expand (p : Plan) (aliases : Aliases) (registry : Registry)
    {selector : Selector} (hsel : p.anchorSelector aliases = .ok selector)
    (hsite : d.selectFirst? d.root selector = some site) (hc : d.parent? site = some c)
    (ht : d.forest.find? site = some t) :
    ∃ clones : List Tree,
      clones.map (fun s => some s.bare) = (itemsOf p registry).map (itemTree p aliases d.mode t) ∧
      Evolves d.forest.next (update c (withChildren fun _ => clones)) d
        (expand p aliases registry d) := by
  obtain ⟨u, hu, -⟩ := Forest.parent?_eq_some_iff.mp hc
  have hclear : Evolves (d.copy site).1.forest.next (update c (withChildren fun _ => []))
      (d.copy site).1 ((d.copy site).1.clear c) := ⟨rfl, Forest.evolves_clear _ c⟩
  -- The container is older than the copied site, so emptying it does not reach into the copy.
  have hkeep : (t.relabel d.forest.next).1.update c (withChildren fun _ => []) =
      (t.relabel d.forest.next).1 := by
    refine Tree.update_of_not_mem ?_
    intro h
    exact Nat.not_lt.mpr (Tree.mem_ids_relabel t _ c h).1 (Forest.lt_next_of_find? hu)
  obtain ⟨clones, hbares, -, hev⟩ := exists_evolves_fill
    (fun value => works_body p aliases d.mode value) ht hu hclear hkeep (itemsOf p registry)
  refine ⟨clones, ?_, ?_⟩
  · refine (map_some_bare hbares).trans (List.map_congr_left ?_)
    intro value _
    rw [itemTree_eq]
  · have hexpand : expand p aliases registry d = (itemsOf p registry).foldl
        (fun e value => e.appendCopy
          (fun e top => p.body.foldl (applyRule p aliases p.item value top) e) c d.forest.next)
        ((d.copy site).1.clear c) := by
      rw [expand, hsel, ← snd_copy ht]
      dsimp only
      rw [hsite]
      dsimp only
      rw [hc]
      rfl
    rw [hexpand]
    refine hev.congr ?_
    intro i _ w _
    -- The container is emptied first, so it ends up with the copies alone.
    have hboth : withChildren (· ++ clones) ∘ withChildren (fun _ : List Tree => []) =
        withChildren fun _ => clones := by
      funext v
      cases v
      rfl
    rw [Function.comp_apply, Tree.update_update (Tree.id_withChildren _), hboth]

/-- The first element of a document that a selector matches. -/
def IsFirstMatch (d : Document) (selector : Selector) (site : NodeId) : Prop :=
  ∃ before after, d.descendants d.root = before ++ site :: after ∧
    (∀ i ∈ before, ¬ selector.matchesAt d.forest i) ∧ selector.matchesAt d.forest site

theorem isFirstMatch_of_selectFirst? {selector : Selector}
    (h : d.selectFirst? d.root selector = some site) : IsFirstMatch d selector site := by
  obtain ⟨hmatch, before, after, hcut, hbefore⟩ := List.find?_eq_some_iff_append.mp h
  exact ⟨before, after, hcut, fun i hi => by simpa using hbefore i hi, hmatch⟩

/-- The site of a loop has a parent. -/
theorem exists_parent_of_selectFirst? {selector : Selector}
    (h : d.selectFirst? d.root selector = some site) :
    ∃ c t, d.parent? site = some c ∧ d.forest.find? site = some t := by
  have hmem := List.mem_of_find?_eq_some h
  rw [descendants, treesBelow, root, Forest.find?_root] at hmem
  obtain ⟨c, -, hc⟩ := Forest.exists_parent_of_mem d.forest.find?_document hmem
  have hids : site ∈ d.forest.document.ids := Tree.mem_ids_of_mem_children hmem
  obtain ⟨t, ht⟩ := Tree.exists_find?_of_mem hids
  exact ⟨c, t, hc, (Forest.find?_of_mem_ids d.forest.find?_document hids).trans ht⟩

/-- **Expanding a loop maps its items.** Where the anchor is no selector, or matches nothing,
nothing changes. Otherwise the children of the parent of the first match are what the items make of
that match, each on its own, in their order, and all that is not below that parent stays in
place. -/
theorem expand_eq_map (p : Plan) (aliases : Aliases) (registry : Registry) (d : Document) :
    match Selector.ofText (aliases.resolve p.anchor) with
    | .error _ => expand p aliases registry d = d
    | .ok selector =>
      ((∀ i ∈ d.descendants d.root, ¬ selector.matchesAt d.forest i) ∧
        expand p aliases registry d = d) ∨
      ∃ site c t u items, IsFirstMatch d selector site ∧
        d.parent? site = some c ∧ d.forest.find? site = some t ∧
        (IsListOf p registry items ∨ items = [] ∧ ∀ xs, ¬ IsListOf p registry xs) ∧
        (expand p aliases registry d).forest.find? c = some u ∧
        u.children.map (fun s => some s.bare) = items.map (itemTree p aliases d.mode t) ∧
        ∀ i, (d.forest.find? i).isSome → i ∉ d.descendants c →
          Keeps d (expand p aliases registry d) i := by
  rw [show Selector.ofText (aliases.resolve p.anchor) = p.anchorSelector aliases from rfl]
  cases hsel : p.anchorSelector aliases with
  | error e => rw [expand, hsel]
  | ok selector =>
    dsimp only
    cases hsite : d.selectFirst? d.root selector with
    | none =>
      refine .inl ⟨List.find?_eq_none.mp hsite, ?_⟩
      rw [expand, hsel]
      dsimp only
      rw [hsite]
    | some site =>
      obtain ⟨c, t, hc, ht⟩ := exists_parent_of_selectFirst? hsite
      obtain ⟨clones, hclones, hev⟩ := exists_evolves_expand p aliases registry hsel hsite hc ht
      obtain ⟨u, hu, -⟩ := Forest.parent?_eq_some_iff.mp hc
      have hu' := hev.forest.find?_some (Forest.lt_next_of_find? hu) hu
      rw [← Forest.id_of_find? hu, Tree.update_id] at hu'
      refine .inr ⟨site, c, t, _, itemsOf p registry, isFirstMatch_of_selectFirst? hsite, hc, ht,
        ?_, Forest.id_of_find? hu ▸ hu', ?_, ?_⟩
      · by_cases h : ∃ xs, IsListOf p registry xs
        · obtain ⟨xs, hxs⟩ := h
          exact .inl (itemsOf_eq_of_isListOf hxs ▸ hxs)
        · exact .inr ⟨itemsOf_eq_nil (not_exists.mp h), not_exists.mp h⟩
      · rw [Tree.children_withChildren, hclones]
      · intro i hi hic
        obtain ⟨w, hw⟩ := Option.isSome_iff_exists.mp hi
        exact keeps_of_evolves hev hw hic

/-- An entry of a list with this content. -/
def bookEntry (content : List Tree) : Tree := .node 0 (.element ⟨.html "li", []⟩) content

/-- A list with one entry, a rule before it and one behind it. -/
def shelf : Document :=
  let element (name : String) (children : List Tree) : Tree :=
    .node 0 (.element ⟨.html name, []⟩) children
  ⟨.html, .ofTrees [element "ul" [element "hr" [], bookEntry [], element "hr" []]]⟩

/-- A loop over the books of a shop, around the entries of a list. -/
def shelfPlan : Plan where
  anchor := "li"
  clause? := some ⟨"books", none, "book"⟩
  binding? := some ⟨"shop", "shop"⟩
  body := [⟨"li", .content, "$book['title']"⟩]
  terminated := true

/-- Every book makes an entry with its title. -/
theorem itemTree_shelfPlan (t : Tree) (ht : t.bare = bookEntry []) (value : Json.Value) :
    itemTree shelfPlan [] .html t value =
      some (bookEntry [.node 0 (.text (evaluate "$book['title']" "book" value)) []]) := by
  let selector : Selector := ⟨"li", [⟨[.type "li"], []⟩]⟩
  have hbody : bodyImage shelfPlan [] .html value (bookEntry []) =
      ruleImage shelfPlan [] .html value ⟨"li", .content, "$book['title']"⟩ (bookEntry []) := rfl
  have hsel : shelfPlan.selectorOf [] ⟨"li", .content, "$book['title']"⟩ = .ok selector := by rfl
  have hrelabel : ((bookEntry []).relabel 0).1 = bookEntry [] := rfl
  have hedit (text : String) : ruleEdits .html selector .content text (bookEntry []) 0 =
      fillEdit .html (.text text) := if_pos (by decide +kernel)
  have hvoid : isVoidValue .html (.element ⟨.html "li", []⟩) = false := by decide
  rw [itemTree_eq, ht, hbody, ruleImage, hsel]
  dsimp only
  rw [hrelabel, bookEntry, Tree.rewrite, ← bookEntry, hedit, fillEdit, hvoid]
  rfl

/-- A list of three children has two entries afterwards, one for each book, and stays in place. -/
theorem expand_shelf :
    let registry := Registry.empty.set "shop"
      [[("books", .array [.object [("title", .string "A")], .object [("title", .string "B")]])]]
    (shelf.forest.children 1).length = 3 ∧ 1 ∉ shelf.descendants 1 ∧
      ∃ u, (expand shelfPlan [] registry shelf).forest.find? 1 = some u ∧
        u.children.map Tree.bare =
          [bookEntry [.node 0 (.text "A") []], bookEntry [.node 0 (.text "B") []]] ∧
        Keeps shelf (expand shelfPlan [] registry shelf) 1 := by
  intro registry
  have hself : 1 ∉ shelf.descendants 1 := by decide
  have hitems : IsListOf shelfPlan registry
      [.object [("title", .string "A")], .object [("title", .string "B")]] :=
    ⟨_, _, _, [], rfl, rfl, rfl, rfl⟩
  let selector : Selector := ⟨"li", [⟨[.type "li"], []⟩]⟩
  have hsel : Selector.ofText (Aliases.resolve [] shelfPlan.anchor) = .ok selector := by rfl
  have hdescendants : shelf.descendants shelf.root = [1, 2, 3, 4] := by decide
  have hmatches : ∀ i ∈ [1, 2, 3, 4], selector.matchesAt shelf.forest i = true ↔ i = 3 := by
    decide +kernel
  have h := expand_eq_map shelfPlan [] registry shelf
  rw [hsel] at h
  obtain ⟨hnone, -⟩ | ⟨site, c, t, u, items, ⟨before, after, hcut, -, hsite⟩, hc, ht, hlist, hu,
    hchildren, hkeeps⟩ := h
  · exact absurd ((hmatches 3 (by decide)).mpr rfl) (hnone 3 (by decide))
  have hmem : site ∈ [1, 2, 3, 4] := hdescendants ▸ hcut ▸ List.mem_append_right _ (.head _)
  obtain rfl := (hmatches site hmem).mp hsite
  have hparent : shelf.parent? 3 = some 1 := by decide
  obtain rfl := Option.some.inj (hparent.symm.trans hc)
  have hbare : t.bare = bookEntry [] := by
    have hfind : (shelf.forest.find? 3).map Tree.bare = some (bookEntry []) := rfl
    rw [ht] at hfind
    exact Option.some.inj hfind
  obtain rfl : items = [.object [("title", .string "A")], .object [("title", .string "B")]] := by
    rcases hlist with hlist | ⟨-, hnone⟩
    · rw [← itemsOf_eq_of_isListOf hlist, itemsOf_eq_of_isListOf hitems]
    · exact absurd hitems (hnone _)
  refine ⟨by decide, hself, u, hu, ?_, hkeeps 1 (by decide) hself⟩
  refine List.map_injective_iff.mpr (fun _ _ => Option.some.inj) ?_
  rw [List.map_map]
  have ha : evaluate "$book['title']" "book" (.object [("title", .string "A")]) = "A" := by
    decide +kernel
  have hb : evaluate "$book['title']" "book" (.object [("title", .string "B")]) = "B" := by
    decide +kernel
  refine hchildren.trans ?_
  rw [show shelf.mode = .html from rfl, List.map_cons, List.map_cons, List.map_nil,
    itemTree_shelfPlan t hbare, itemTree_shelfPlan t hbare, ha, hb]
  rfl

end Stencil.Script

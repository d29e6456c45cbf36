import Stencil.Css.Matching
import Stencil.Proofs.Markup.Shape
import Stencil.Selector

/-!
# Matching does not look at numbers

Selectors compare nodes only with each other, so an injective renumbering of a tree changes nothing
about what matches in it (`anyHolds_renumber`). Matching in a detached tree depends on that tree
alone (`matchesAt_of_mem_trees`).
-/

namespace Stencil.Css
open Markup
open Markup.Tree (renumber renumberAll)

variable {φ : NodeId → NodeId}

namespace Place

/-- The place with other numbers. -/
def renumber (φ : NodeId → NodeId) : Place → Place
  | alone t => alone (t.renumber φ)
  | child p before t after =>
    child (renumber φ p) (before.map (Tree.renumber φ)) (t.renumber φ)
      (after.map (Tree.renumber φ))

@[simp] theorem tree_renumber (p : Place) : (p.renumber φ).tree = p.tree.renumber φ := by
  cases p <;> rfl

@[simp] theorem element?_renumber (p : Place) : (p.renumber φ).element? = p.element? := by
  rw [element?, element?, tree_renumber, Tree.element?, Tree.value_renumber, Tree.element?]

theorem isElement_comp_renumber : isElement ∘ renumber φ = isElement := by
  funext p
  rw [Function.comp_apply, isElement, isElement, element?_renumber]

@[simp] theorem isElement_renumber (p : Place) : (p.renumber φ).isElement = p.isElement :=
  congrFun isElement_comp_renumber p

theorem filter_isElement_renumber (l : List Place) :
    (l.map (renumber φ)).filter isElement = (l.filter isElement).map (renumber φ) := by
  rw [List.filter_map, isElement_comp_renumber]

theorem parent?_renumber (p : Place) : (p.renumber φ).parent? = p.parent?.map (renumber φ) := by
  cases p <;> rfl

theorem parentElement?_renumber (p : Place) :
    (p.renumber φ).parentElement? = p.parentElement?.map (renumber φ) := by
  rw [parentElement?, parentElement?, parent?_renumber]
  cases p.parent? with
  | none => rfl
  | some q => by_cases h : q.isElement <;> simp [Option.filter, h]

theorem ancestors_renumber (p : Place) :
    (p.renumber φ).ancestors = p.ancestors.map (renumber φ) := by
  induction p with
  | alone t => rfl
  | child p before t after ih =>
    rw [renumber, ancestors, ancestors, isElement_renumber, ih]
    split <;> rfl

theorem earlierFrom_renumber (p : Place) (before after : List Tree) :
    earlierFrom (p.renumber φ) (before.map (Tree.renumber φ)) (after.map (Tree.renumber φ)) =
      (earlierFrom p before after).map (renumber φ) := by
  induction before generalizing after with
  | nil => rfl
  | cons t ts ih =>
    rw [List.map_cons, earlierFrom, earlierFrom, List.map_cons, ← ih, List.map_cons]
    rfl

theorem laterFrom_renumber (p : Place) (before after : List Tree) :
    laterFrom (p.renumber φ) (before.map (Tree.renumber φ)) (after.map (Tree.renumber φ)) =
      (laterFrom p before after).map (renumber φ) := by
  induction after generalizing before with
  | nil => rw [List.map_nil, laterFrom, laterFrom, List.map_nil]
  | cons t ts ih =>
    rw [List.map_cons, laterFrom, laterFrom, List.map_cons, ← ih, List.map_cons]
    rfl

theorem earlier_renumber (p : Place) : (p.renumber φ).earlier = p.earlier.map (renumber φ) := by
  cases p with
  | alone t => rfl
  | child p before t after =>
    rw [renumber, earlier, earlier, ← filter_isElement_renumber, ← earlierFrom_renumber,
      List.map_cons]

theorem later_renumber (p : Place) : (p.renumber φ).later = p.later.map (renumber φ) := by
  cases p with
  | alone t => rfl
  | child p before t after =>
    rw [renumber, later, later, ← filter_isElement_renumber, ← laterFrom_renumber, List.map_cons]

theorem insideTrees_renumber (p : Place) (before ts : List Tree) :
    insideTrees (p.renumber φ) (before.map (Tree.renumber φ)) (renumberAll φ ts) =
      (insideTrees p before ts).map (renumber φ) := by
  induction ts using Tree.listInduction generalizing p before with
  | nil => rfl
  | cons i v cs ts ihc iht =>
    have hhere : child (p.renumber φ) (before.map (Tree.renumber φ))
        (.node (φ i) v (renumberAll φ cs)) (renumberAll φ ts) =
        (child p before (.node i v cs) ts).renumber φ := by
      rw [renumber, Tree.renumber, Tree.renumberAll_eq_map φ ts]
    have hinside := ihc (child p before (.node i v cs) ts) []
    have hrest := iht p (.node i v cs :: before)
    rw [List.map_nil] at hinside
    rw [List.map_cons, Tree.renumber] at hrest
    simp only [renumberAll, Tree.renumber, insideTrees, insideTree, hhere, hinside, hrest,
      List.map_append, List.map_cons]

theorem inside_renumber (p : Place) : (p.renumber φ).inside = p.inside.map (renumber φ) := by
  rw [inside, inside, tree_renumber]
  cases p.tree with
  | node i v cs =>
    have h := insideTrees_renumber (φ := φ) p [] cs
    rw [List.map_nil] at h
    rw [Tree.renumber, insideTree, insideTree, h]

end Place

/-! ## Conditions -/

theorem placeOnProgression_renumber (a b : Int) (fromEnd ofType : Bool) (p : Place) :
    placeOnProgression a b fromEnd ofType (p.renumber φ) =
      placeOnProgression a b fromEnd ofType p := by
  have hname : (fun q : Place => q.element?.map (·.name) == p.element?.map (·.name)) ∘
      Place.renumber φ = fun q => q.element?.map (·.name) == p.element?.map (·.name) := by
    funext q
    rw [Function.comp_apply, Place.element?_renumber]
  cases fromEnd <;> cases ofType <;>
    simp only [placeOnProgression, Place.later_renumber, Place.earlier_renumber,
      Place.element?_renumber, List.filter_map, List.length_map, hname, if_true, if_false,
      Bool.false_eq_true]

theorem isRoot_renumber (p : Place) : isRoot (p.renumber φ) = isRoot p := by
  rw [isRoot, isRoot, Place.parent?_renumber]
  cases p.parent? with
  | none => rfl
  | some q => rw [Option.map_some]; simp

theorem isEmptyPlace_renumber (p : Place) : isEmptyPlace (p.renumber φ) = isEmptyPlace p := by
  rw [isEmptyPlace, isEmptyPlace, Place.tree_renumber, Tree.children_renumber, List.any_map]
  congr 2
  funext t
  rw [Function.comp_apply, Tree.value_renumber]

theorem leftOf_renumber (c : Combinator) (p : Place) :
    c.leftOf (p.renumber φ) = (c.leftOf p).map (Place.renumber φ) := by
  cases c with
  | descendant => exact Place.ancestors_renumber p
  | child =>
    rw [Combinator.leftOf, Combinator.leftOf, Place.parentElement?_renumber]
    cases p.parentElement? <;> rfl
  | nextSibling =>
    rw [Combinator.leftOf, Combinator.leftOf, Place.earlier_renumber, List.map_take]
  | laterSibling => exact Place.earlier_renumber p

theorem relatives_renumber (p : Place) :
    relatives (p.renumber φ) = (relatives p).map (Place.renumber φ) := by
  rw [relatives, relatives, ← Place.filter_isElement_renumber, Place.inside_renumber,
    Place.later_renumber, List.map_append, List.flatMap_map, List.map_flatMap]
  congr 3
  funext q
  rw [Place.inside_renumber, List.map_cons]

/-! ## Matching -/

mutual

/-- An injective renumbering changes nothing about which conditions hold. -/
theorem holds_renumber (hφ : Function.Injective φ) (anchor : Option NodeId) (p : Place) :
    ∀ s : Simple, s.holds (anchor.map φ) (p.renumber φ) = s.holds anchor p
  | .type name => by simp [Simple.holds]
  | .anyType => by simp [Simple.holds]
  | .noSpace => by simp [Simple.holds]
  | .id name => by simp [Simple.holds]
  | .hasClass name => by simp [Simple.holds]
  | .attribute test => by simp [Simple.holds]
  | .nth a b fromEnd ofType => by
    rw [Simple.holds, Simple.holds, placeOnProgression_renumber]
  | .root => by rw [Simple.holds, Simple.holds, isRoot_renumber]
  | .empty => by rw [Simple.holds, Simple.holds, isEmptyPlace_renumber]
  | .scope => by rw [Simple.holds, Simple.holds, isRoot_renumber]
  | .not list => by rw [Simple.holds, Simple.holds, anyHolds_renumber hφ anchor p list]
  | .is list => by rw [Simple.holds, Simple.holds, anyHolds_renumber hφ anchor p list]
  | .has list => by
    rw [Simple.holds, Simple.holds, relatives_renumber, List.any_map]
    congr 1
    funext q
    rw [Function.comp_apply, Place.tree_renumber, Tree.id_renumber]
    exact anyHolds_renumber hφ (some p.tree.id) q list
  | .anchor => by
    rw [Simple.holds, Simple.holds, Place.tree_renumber, Tree.id_renumber]
    -- This is the one condition that compares numbers.
    cases anchor with
    | none => rfl
    | some i => simp [hφ.eq_iff]
  | .never => by rw [Simple.holds, Simple.holds]

theorem allHold_renumber (hφ : Function.Injective φ) (anchor : Option NodeId) (p : Place) :
    ∀ list : List Simple, allHold (anchor.map φ) (p.renumber φ) list = allHold anchor p list
  | [] => rfl
  | s :: rest => by
    rw [allHold, allHold, holds_renumber hφ anchor p s, allHold_renumber hφ anchor p rest]

theorem chainHolds_renumber (hφ : Function.Injective φ) (anchor : Option NodeId) (p : Place) :
    ∀ left : List (Combinator × List Simple),
      chainHolds (anchor.map φ) (p.renumber φ) left = chainHolds anchor p left
  | [] => rfl
  | (c, compound) :: rest => by
    rw [chainHolds, chainHolds, leftOf_renumber, List.any_map]
    congr 1
    funext q
    rw [Function.comp_apply, allHold_renumber hφ anchor q compound, chainHolds_renumber hφ anchor q rest]

theorem complexHolds_renumber (hφ : Function.Injective φ) (anchor : Option NodeId) (p : Place) :
    ∀ c : Complex, c.holds (anchor.map φ) (p.renumber φ) = c.holds anchor p
  | .mk compound left => by
    rw [Complex.holds, Complex.holds, allHold_renumber hφ anchor p compound,
      chainHolds_renumber hφ anchor p left]

theorem anyHolds_renumber (hφ : Function.Injective φ) (anchor : Option NodeId) (p : Place) :
    ∀ list : List Complex, anyHolds (anchor.map φ) (p.renumber φ) list = anyHolds anchor p list
  | [] => rfl
  | c :: rest => by
    rw [anyHolds, anyHolds, complexHolds_renumber hφ anchor p c, anyHolds_renumber hφ anchor p rest]

end

theorem matches_renumber (hφ : Function.Injective φ) (list : SelectorList) (p : Place) :
    list.matches (p.renumber φ) = list.matches p := by
  have h := anyHolds_renumber hφ none p list
  rw [Option.map_none] at h
  rw [SelectorList.matches, SelectorList.matches, Place.isElement_renumber, h]

/-! ## Detached trees -/

theorem map_tree_insideTrees (p : Place) (before ts : List Tree) :
    (Place.insideTrees p before ts).map Place.tree = Tree.preorderAll ts := by
  induction ts using Tree.listInduction generalizing p before with
  | nil => rfl
  | cons i v cs ts ihc iht =>
    rw [Place.insideTrees, List.map_append, List.map_cons, Place.insideTree, ihc, iht]
    rfl

/-- The places of a tree that stands alone, and of all trees inside it. -/
def placesIn (t : Tree) : List Place := .alone t :: (Place.alone t).inside

theorem map_tree_placesIn (t : Tree) : (placesIn t).map Place.tree = t.preorder := by
  obtain ⟨i, v, cs⟩ := t
  rw [placesIn, List.map_cons, Place.inside, Place.tree, Place.insideTree, map_tree_insideTrees]
  rfl

theorem placesIn_renumber (t : Tree) :
    placesIn (t.renumber φ) = (placesIn t).map (Place.renumber φ) := by
  rw [placesIn, placesIn, List.map_cons, ← Place.inside_renumber]
  rfl

theorem find?_placesIn_of_not_mem {t : Tree} {i : NodeId} (h : i ∉ t.ids) :
    (placesIn t).find? (·.tree.id == i) = none := by
  refine List.find?_eq_none.mpr fun p hp he => h ?_
  have hmem : p.tree ∈ t.preorder := map_tree_placesIn t ▸ List.mem_map_of_mem hp
  exact beq_iff_eq.mp he ▸ List.mem_map_of_mem hmem

/-- Where a node of one of the trees of a forest stands. -/
theorem find?_of_mem_trees {ts : List Tree} {t : Tree} {i : NodeId}
    (hd : (Tree.idsAll ts).Nodup) (ht : t ∈ ts) (hi : i ∈ t.ids) :
    ts.findSome? (fun t => (placesIn t).find? (·.tree.id == i)) =
      (placesIn t).find? (·.tree.id == i) := by
  induction ts with
  | nil => cases ht
  | cons u ts ih =>
    rw [Tree.idsAll_cons, List.nodup_append] at hd
    rw [List.findSome?_cons]
    rcases List.mem_cons.mp ht with rfl | ht
    · cases h : (placesIn t).find? (·.tree.id == i) with
      | some p => rfl
      | none =>
        obtain ⟨w, hw, hwi⟩ := List.mem_map.mp hi
        rw [← map_tree_placesIn] at hw
        obtain ⟨p, hp, rfl⟩ := List.mem_map.mp hw
        exact absurd (beq_iff_eq.mpr hwi) (List.find?_eq_none.mp h p hp)
    · have hu : i ∉ u.ids := fun hu =>
        hd.2.2 i hu i (Tree.mem_idsAll_iff.mpr ⟨t, ht, hi⟩) rfl
      rw [find?_placesIn_of_not_mem hu, ih hd.2.1 ht]

/-- Whether a node of a tree that stands alone is an element that the selector matches. -/
def matchesIn (s : Selector) (t : Tree) (i : NodeId) : Bool :=
  ((placesIn t).find? (·.tree.id == i)).any fun p => s.alternatives.matches p

/-- **What matches in a detached tree depends on the tree alone.** -/
theorem matchesAt_of_mem_trees {f : Forest} {t : Tree} {i : NodeId} (s : Selector)
    (ht : t ∈ f.trees) (hi : i ∈ t.ids) : s.matchesAt f i = matchesIn s t i := by
  rw [matchesIn, ← find?_of_mem_trees f.distinct ht hi]
  rfl

/-- **An injective renumbering of a tree changes nothing about what matches in it.** -/
theorem matchesIn_renumber (hφ : Function.Injective φ) (s : Selector) (t : Tree) (i : NodeId) :
    matchesIn s (t.renumber φ) (φ i) = matchesIn s t i := by
  have hid : (fun p : Place => p.tree.id == φ i) ∘ Place.renumber φ = fun p => p.tree.id == i := by
    funext p
    rw [Function.comp_apply, Place.tree_renumber, Tree.id_renumber, Bool.eq_iff_iff, beq_iff_eq,
      beq_iff_eq, hφ.eq_iff]
  rw [matchesIn, matchesIn, placesIn_renumber, List.find?_map, hid, Option.any_map]
  congr 1
  funext p
  exact matches_renumber hφ s.alternatives p

end Stencil.Css

import Stencil.Proofs.Attributes
import Stencil.Proofs.Filling
import Stencil.Proofs.Script.Expansion

/-!
# What one rule does

A rule is applied to the elements of a detached tree that its selector matches before any of them is
changed, the root of the tree among them. A text rule fills them, except for the void ones
(`Refilled`), so of matches that are nested in each other the outermost one stays. An attribute rule
sets its attribute on all of them and changes nothing else (`Attributed`). A rule without a usable
selector does nothing (`effect_applyRule`).
-/

namespace Stencil.Script
open Markup Document

variable {d d' : Document} {i top : NodeId} {p : Plan} {aliases : Aliases} {r : Rule}
  {selector : Selector} {item text name : String} {value : Json.Value}

/-- Only elements match. -/
theorem exists_element_of_matchesAt (h : selector.matchesAt d.forest i) :
    ∃ e, d.element? i = some e := by
  obtain ⟨place, hplace, hmatches⟩ := (Option.any_eq_true _ _).mp h
  obtain ⟨t, ht, hfound⟩ := List.exists_of_findSome?_eq_some hplace
  have hid : place.tree.id = i := by simpa using List.find?_some hfound
  -- The place is one in a tree of the forest, so what stands there is what the forest has there.
  have hin : place.tree ∈ t.preorder :=
    Css.map_tree_placesIn t ▸ List.mem_map_of_mem (List.mem_of_find?_eq_some hfound)
  have hfind : d.forest.find? i = some place.tree :=
    Forest.find?_eq_some_iff.mpr ⟨Tree.preorder_subset (Tree.mem_preorderAll_of_mem ht) hin, hid⟩
  have helement : place.isElement := ((Bool.and_eq_true _ _).mp hmatches).1
  obtain ⟨e, he⟩ := Option.isSome_iff_exists.mp helement
  refine ⟨e, ?_⟩
  rw [element?, Forest.value?, hfind]
  exact he

/-- What a text rule puts in the place of the children of a node: the text, if the node is a match
that is not void. -/
def ruleContent (selector : Selector) (text : String) (d : Document) (i : NodeId) : Option Value :=
  if selector.matchesAt d.forest i && !d.isVoid i then some (.text text) else none

/-- The matches of a selector in the tree at `top` have an attribute set, and nothing else has
changed. -/
structure Attributed (selector : Selector) (name text : String) (d d' : Document) (top : NodeId) :
    Prop where
  nodes : ∀ i, i ∈ d'.subtree top ↔ i ∈ d.subtree top
  children : ∀ i ∈ d.subtree top, d'.children i = d.children i
  others : ∀ i ∈ d.subtree top, selector.matchesAt d.forest i = false →
    d'.forest.value? i = d.forest.value? i
  targets : ∀ i ∈ d.subtree top, selector.matchesAt d.forest i →
    ∃ e e', d.element? i = some e ∧ d'.element? i = some e' ∧ e'.name = e.name ∧
      (e.localNames.Nodup → AttributeSet name text e e' ∧ e'.attribute? name = some text)

/-- What a rule does to the node `i`, whatever its value is. -/
def targetEdit (selector : Selector) (action : Action) (text : String) (d : Document)
    (i : NodeId) : Edit :=
  if selector.matchesAt d.forest i then actionEdit d.mode action text else Edit.keep

theorem applyRule_of_error {fault : SelectorFault} (h : p.selectorOf aliases r = .error fault) :
    applyRule p aliases item value top d r = d := by
  rw [applyRule, h]

/-- A rule goes through all nodes of the tree and leaves those alone that are no matches. -/
theorem applyRule_of_ok (h : p.selectorOf aliases r = .ok selector) :
    applyRule p aliases item value top d r = (d.subtree top).foldl
      (fun d' i => if selector.matchesAt d.forest i then
        applyAction r.action (evaluate r.expression item value) d' i else d') d := by
  rw [applyRule, h]
  exact List.foldl_filter

theorem snd_targetEdit_content {u : Tree} (hu : d.forest.find? i = some u) :
    (targetEdit selector .content text d i u.value).2 =
      (ruleContent selector text d i).map fun v => .node 0 v [] := by
  rw [targetEdit, ruleContent, isVoid_of_find? hu]
  cases selector.matchesAt d.forest i with
  | false => rfl
  | true =>
    rw [if_pos rfl, actionEdit, fillEdit]
    cases isVoidValue d.mode u.value <;> rfl

theorem fst_targetEdit_content (v : Value) :
    (targetEdit selector .content text d i v).1 = v := by
  rw [targetEdit]
  split
  · rw [actionEdit, fillEdit]
    split <;> rfl
  · rfl

theorem targetEdit_setAttribute (v : Value) :
    targetEdit selector (.setAttribute name) text d i v =
      (if selector.matchesAt d.forest i then valueWithAttribute name text v else v, none) := by
  rw [targetEdit]
  split <;> rfl

/-- **What a rule does to a detached tree.** Without a usable selector it does nothing. Otherwise
only the tree changes. A text rule fills the matches that are not void and changes no value; what was
below a filled match is gone. An attribute rule sets its attribute on the matches, and the shape and
the texts of the tree stay. -/
theorem effect_applyRule (p : Plan) (aliases : Aliases) (r : Rule) (item : String)
    (value : Json.Value) (htop : d.Knows top) (hroot : d.parent? top = none) :
    let d' := applyRule p aliases item value top d r
    let text := evaluate r.expression item value
    (∀ fault, p.selectorOf aliases r = .error fault → d' = d) ∧
      ∀ selector, p.selectorOf aliases r = .ok selector →
        Untouched d d' top ∧
        (r.action = .content → Refilled d d' top (ruleContent selector text d) ∧
          ∀ i ∈ d.subtree top, i ∈ d'.subtree top → d'.forest.value? i = d.forest.value? i) ∧
        ∀ name, r.action = .setAttribute name → Attributed selector name text d d' top := by
  intro d' text
  refine ⟨fun fault h => applyRule_of_error h, fun selector hsel => ?_⟩
  have hd' : d' = _ := applyRule_of_ok hsel
  rw [hd']
  have hop : ∀ d' i, d'.mode = d.mode → Edits d'.forest.next i
      (targetEdit selector r.action text d i) d'
      (if selector.matchesAt d.forest i then applyAction r.action text d' i else d') :=
    fun d' i hmode => edits_applyAction_if r.action text hmode i _
  cases haction : r.action with
  | content =>
    rw [haction] at hop
    obtain ⟨hother, hrefilled, hvalue⟩ :=
      refilled_foldl hop htop hroot fun i u hu => snd_targetEdit_content hu
    refine ⟨hother, fun _ => ⟨hrefilled, fun i hi hi' => (hvalue i hi hi').trans ?_⟩, nofun⟩
    simp only [fst_targetEdit_content, Option.map_id']
  | setAttribute name =>
    rw [haction] at hop
    have hcontent : ∀ i u, d.forest.find? i = some u →
        (targetEdit selector (.setAttribute name) text d i u.value).2 =
          (Function.const NodeId none i).map fun v => .node 0 v [] := by
      intro i u _
      rw [targetEdit_setAttribute]
      rfl
    obtain ⟨hother, hrefilled, hvalue⟩ := refilled_foldl hop htop hroot hcontent
    refine ⟨hother, nofun, fun name' hname => ?_⟩
    obtain rfl := Action.setAttribute.inj hname
    have hnodes := fun i => hrefilled.mem_subtree_iff_of_none (i := i) fun _ => rfl
    refine ⟨hnodes, fun i hi => hrefilled.kept i hi ((hnodes i).mpr hi) rfl, ?_, ?_⟩
    · intro i hi hmiss
      refine (hvalue i hi ((hnodes i).mpr hi)).trans ?_
      simp only [targetEdit_setAttribute, hmiss, Bool.false_eq_true, if_false, Option.map_id']
    · intro i hi hmatch
      obtain ⟨e, he⟩ := exists_element_of_matchesAt hmatch
      have hv := hvalue i hi ((hnodes i).mpr hi)
      rw [value?_of_element? he, Option.map_some, targetEdit_setAttribute, if_pos hmatch] at hv
      obtain ⟨e', he', hname, hset⟩ := exists_valueWithAttribute name text e
      rw [he'] at hv
      exact ⟨e, e', he, congrArg (·.bind Value.element?) hv, hname, fun hnodup =>
        ⟨hset hnodup, (hset hnodup).attribute?⟩⟩

/-- An entry with a bold word inside bold text and a rule behind it. -/
def entry : Document :=
  let element (name : String) (children : List Tree) : Tree :=
    .node 0 (.element ⟨.html name, []⟩) children
  ⟨.html, .ofTrees [element "li" [element "b" [element "b" []], element "hr" []]]⟩

/-- A text rule fills the outer one of two nested matches in a copy of the entry and leaves the void
match empty; an attribute rule for everything reaches the inner one as well. -/
theorem effect_applyRule_entry :
    let d := (entry.copy 1).1
    let value := Json.Value.object [("title", .string "T")]
    let text := evaluate "$book['title']" "book" value
    let filled := applyRule shelfPlan [] "book" value 5 d ⟨"b, hr", .content, "$book['title']"⟩
    let named :=
      applyRule shelfPlan [] "book" value 5 d ⟨"*", .setAttribute "title", "$book['title']"⟩
    d.Knows 5 ∧ d.parent? 5 = none ∧
      (7 ∉ filled.subtree 5 ∧ filled.children 8 = [] ∧
        ∃ k, ¬ d.Knows k ∧ filled.children 6 = [k] ∧
          filled.forest.find? k = some (.node k (.text text) [])) ∧
      ∃ e', named.element? 7 = some e' ∧ e'.attribute? "title" = some text := by
  intro d value text filled named
  have htop : d.Knows 5 := Option.isSome_iff_exists.mp (by decide +kernel)
  have hroot : d.parent? 5 = none := by decide +kernel
  refine ⟨htop, hroot, ?_, ?_⟩
  · let selector : Selector := ⟨"b, hr", [⟨[.type "b"], []⟩, ⟨[.type "hr"], []⟩]⟩
    obtain ⟨-, hcontent, -⟩ := (effect_applyRule shelfPlan []
      ⟨"b, hr", .content, "$book['title']"⟩ "book" value htop hroot).2 selector rfl
    have hrefilled := (hcontent rfl).1
    have houter : ruleContent selector text d 6 = some (.text text) := if_pos (by decide +kernel)
    have hvoid : ruleContent selector text d 8 = none := if_neg (by decide +kernel)
    refine ⟨?_, ?_, ?_⟩
    · rw [hrefilled.left 7 (by decide +kernel)]
      intro hnone
      have habove : d.Above 6 7 := mem_descendants_iff_above.mp (by decide +kernel)
      exact Option.some_ne_none _ (houter.symm.trans (hnone 6 (by decide +kernel) habove))
    · exact (hrefilled.kept 8 (by decide +kernel) (by decide +kernel) hvoid).trans
        (by decide +kernel)
    · exact hrefilled.filled 6 (by decide +kernel) (by decide +kernel) _ houter
  · obtain ⟨-, -, hattribute⟩ := (effect_applyRule shelfPlan []
      ⟨"*", .setAttribute "title", "$book['title']"⟩ "book" value htop hroot).2
      ⟨"*", [⟨[.anyType], []⟩]⟩ rfl
    obtain ⟨e, e', he, he', -, hset⟩ :=
      (hattribute "title" rfl).targets 7 (by decide +kernel) (by decide +kernel)
    have hplain : d.element? 7 = some ⟨.html "b", []⟩ := by decide +kernel
    obtain rfl := Option.some.inj (hplain.symm.trans he)
    exact ⟨e', he', (hset List.nodup_nil).2⟩

end Stencil.Script

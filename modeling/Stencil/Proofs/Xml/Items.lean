import Stencil.Proofs.Xml.Names

/-!
# A template is what its items spell

The reader takes one item after the other and keeps a path of open elements. Read as a whole, the
items of an accepted template form a nest: a leaf is one item, and an element is a start tag, the
items of its children and the end tag of the same name (`Spells`). The invariant of the reader is
that the items so far form such a nest except for the start tags of the open elements (`Built`), so
an accepted template is spelled by its items (`exists_spells_of_read`).
-/

namespace Stencil.Xml
open Markup Text

variable {cs content rest : List Char} {item : Item} {items more : List Item} {ts us : List Tree}
  {e : Element} {v : Value} {event : Event} {b b' : Building} {position : Nat}

/-! ## Items -/

/-- The items of a text that begins at the offset `position`. -/
def itemsFrom (position : Nat) : List Char → Except Fault (List Item)
  | [] => .ok []
  | c :: cs =>
    match h : Item.next position c cs with
    | .error fault => .error fault
    | .ok (item, rest) =>
      have := Item.length_lt_of_next h
      (itemsFrom (position + (byteLength (c :: cs) - byteLength rest)) rest).map (item :: ·)
termination_by cs => cs.length
decreasing_by assumption

/-- The items of a template. A byte order mark at its start is skipped. -/
def itemsOf (text : String) : Except Fault (List Item) :=
  let cs := match text.toList with
    | '\uFEFF' :: cs => cs
    | cs => cs
  itemsFrom 0 cs

theorem itemsFrom_cons {c : Char} (hnext : Item.next position c cs = .ok (item, rest)) :
    itemsFrom position (c :: cs) =
      (itemsFrom (position + (byteLength (c :: cs) - byteLength rest)) rest).map (item :: ·) := by
  rw [itemsFrom]
  split
  · next h => cases hnext.symm.trans h
  · next h =>
    obtain ⟨rfl, rfl⟩ := Prod.mk.inj (Except.ok.inj (hnext.symm.trans h))
    rfl

/-- What holds of every item that is cut off a text holds of all items of a template. -/
theorem forall_mem_of_itemsFrom {p : Item → Prop}
    (hp : ∀ position c cs item rest, Item.next position c cs = .ok (item, rest) → p item)
    (h : itemsFrom position cs = .ok items) : ∀ item ∈ items, p item := by
  fun_induction itemsFrom position cs generalizing items with
  | case1 =>
    obtain rfl := Except.ok.inj h
    exact nofun
  | case2 => cases h
  | case3 position c cs item rest hnext _ ih =>
    obtain ⟨others, hothers, rfl⟩ := exists_of_map_eq_ok h
    exact List.forall_mem_cons.mpr ⟨hp _ _ _ _ _ hnext, ih hothers⟩

/-! ## Nests of items -/

/-- The items that spell a list of trees: a leaf is one item, an element the items of its children
between its tags. -/
inductive Spells : List Item → List Tree → Prop
  | nil : Spells [] []
  | leaf {item : Item} {v : Value} {items : List Item} {ts : List Tree}
      (hevent : item.event = .ok (.leaf v)) (hrest : Spells items ts) :
      Spells (item :: items) (.node 0 v [] :: ts)
  | element {content name : List Char} {e : Element} {inner items : List Item}
      {below ts : List Tree} (hstart : element content = .ok e) (hinner : Spells inner below)
      (hname : String.ofList name = e.name.base) (hrest : Spells items ts) :
      Spells (.start content :: (inner ++ .finish name :: items))
        (.node 0 (.element e) below :: ts)

namespace Spells

theorem append (h : Spells items ts) (h' : Spells more us) : Spells (items ++ more) (ts ++ us) := by
  induction h with
  | nil => exact h'
  | leaf hevent _ ih => exact .leaf hevent ih
  | element hstart hinner hname _ _ ih =>
    rw [List.cons_append, List.append_assoc, List.cons_append, List.cons_append]
    exact .element hstart hinner hname ih

/-- Items that spell trees do not begin with an end tag. -/
theorem ne_finish (h : Spells (item :: items) ts) (name : List Char) : item ≠ .finish name := by
  rintro rfl
  cases h with
  | leaf hevent _ => cases hevent

theorem eq_nil_iff (h : Spells items ts) : ts = [] ↔ items = [] := by
  cases h <;> simp

theorem exists_event (h : Spells items ts) : ∀ item ∈ items, ∃ event, item.event = .ok event := by
  induction h with
  | nil => exact nofun
  | leaf hevent _ ih => exact List.forall_mem_cons.mpr ⟨⟨_, hevent⟩, ih⟩
  | @element content name e inner items below ts hstart _ _ _ ihinner ih =>
    have hopens : (Item.start content).event = .ok (.opens e) := by
      rw [Item.event, hstart]
      rfl
    simp only [List.forall_mem_cons, List.forall_mem_append]
    exact ⟨⟨_, hopens⟩, ihinner, ⟨_, rfl⟩, ih⟩

end Spells

/-! ## The reader -/

theorem eq_start_of_opens (h : item.event = .ok (.opens e)) :
    ∃ content, item = .start content ∧ element content = .ok e := by
  cases item with
  | start content =>
    obtain ⟨e', he, heq⟩ := exists_of_map_eq_ok h
    obtain rfl := Event.opens.inj heq
    exact ⟨content, rfl, he⟩
  | empty content =>
    obtain ⟨e', he, heq⟩ := exists_of_map_eq_ok h
    cases heq
  | text content =>
    rw [Item.event] at h
    split at h <;> cases h
  | finish | comment | «section» | instruction | doctype => cases h

theorem eq_finish_of_closes {name : String} (h : item.event = .ok (.closes name)) :
    ∃ cs, item = .finish cs ∧ String.ofList cs = name := by
  cases item with
  | finish cs => exact ⟨cs, rfl, Event.closes.inj (Except.ok.inj h)⟩
  | start content | empty content =>
    obtain ⟨e, -, heq⟩ := exists_of_map_eq_ok h
    cases heq
  | text content =>
    rw [Item.event] at h
    split at h <;> cases h
  | comment | «section» | instruction | doctype => cases h

/-- The items that lead to a building: those before an open element, its start tag, and those that
spell what is below it so far. -/
inductive Built : List Item → Building → Prop
  | outside {items : List Item} {before : List Tree} (h : Spells items before.reverse) :
      Built items ⟨[], before⟩
  | inside {items inner : List Item} {content : List Char} {o : OpenElement}
      {outer : List OpenElement} {before : List Tree} (houter : Built items ⟨outer, o.before⟩)
      (hstart : element content = .ok o.element) (hinner : Spells inner before.reverse) :
      Built (items ++ .start content :: inner) ⟨o :: outer, before⟩

namespace Built

/-- Items that spell trees add the trees to the innermost open element. -/
theorem append (h : Built items b) (hmore : Spells more us) :
    Built (items ++ more) ⟨b.path, us.reverse ++ b.before⟩ := by
  cases h with
  | outside h =>
    refine .outside ?_
    rw [List.reverse_append, List.reverse_reverse]
    exact h.append hmore
  | inside houter hstart hinner =>
    rw [List.append_assoc, List.cons_append]
    refine .inside houter hstart ?_
    rw [List.reverse_append, List.reverse_reverse]
    exact hinner.append hmore

/-- One item is one step. -/
theorem step (h : Built items b) (hevent : item.event = .ok event) (hstep : b.step event = .ok b') :
    Built (items ++ [item]) b' := by
  cases event with
  | leaf v =>
    obtain rfl := Except.ok.inj hstep
    exact h.append (.leaf hevent .nil)
  | opens e =>
    obtain rfl := Except.ok.inj hstep
    obtain ⟨content, rfl, hstart⟩ := eq_start_of_opens hevent
    exact .inside (o := ⟨e, b.before⟩) h hstart .nil
  | closes name =>
    obtain ⟨cs, rfl, rfl⟩ := eq_finish_of_closes hevent
    cases h with
    | outside => cases hstep
    | @inside items inner content o outer before houter hstart hinner =>
      rw [Building.step] at hstep
      dsimp only at hstep
      split at hstep
      · next hname =>
        obtain rfl := Except.ok.inj hstep
        -- The element is complete: it is one more tree of the element around it.
        have helement : Spells (.start content :: (inner ++ [.finish cs]))
            [.node 0 (.element o.element) before.reverse] :=
          .element hstart hinner hname.symm .nil
        rw [List.append_assoc]
        exact houter.append helement
      · cases hstep

theorem finish (h : Built items b) (hfinish : b.finish = .ok ts) : Spells items ts := by
  cases h with
  | outside h => exact Except.ok.inj hfinish ▸ h
  | inside => cases hfinish

end Built

/-- **The run of the reader**: what it returns is spelled by the items so far and those to come. -/
theorem exists_spells_of_readFrom (h : readFrom b position cs = .ok ts) (hb : Built more b) :
    ∃ items, itemsFrom position cs = .ok items ∧ Spells (more ++ items) ts := by
  fun_induction readFrom b position cs generalizing more ts with
  | case1 b position trees hfinish =>
    obtain rfl := Except.ok.inj h
    refine ⟨[], by rw [itemsFrom], ?_⟩
    rw [List.append_nil]
    exact hb.finish hfinish
  | case2 => cases h
  | case3 => cases h
  | case4 => cases h
  | case5 => cases h
  | case6 b position c cs item rest hnext _ behind event hevent b' hstep =>
    rename_i ih
    obtain ⟨items, hitems, hspells⟩ := ih h (hb.step hevent hstep)
    refine ⟨item :: items, ?_, ?_⟩
    · rw [itemsFrom_cons hnext, hitems]
      rfl
    · rwa [List.append_assoc] at hspells

/-- **An accepted template is spelled by its items.** -/
theorem exists_spells_of_read {source : String} {f : Forest} (h : read source = .ok f) :
    ∃ items ts, itemsOf source = .ok items ∧ Spells items ts ∧ f = .ofTrees ts := by
  obtain ⟨ts, hts, rfl⟩ := exists_of_map_eq_ok h
  obtain ⟨items, hitems, hspells⟩ := exists_spells_of_readFrom hts (.outside .nil : Built [] .empty)
  exact ⟨items, ts, hitems, hspells, rfl⟩

end Stencil.Xml

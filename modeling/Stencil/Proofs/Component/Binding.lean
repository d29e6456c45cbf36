import Stencil.Component.Binding
import Stencil.Proofs.Copies

/-!
# What binding a record does

Binding visits the elements of a tree in document order. On each of them it amounts to one edit
(`recordEdit`), which depends on the element alone; so binding a detached tree rewrites it by that
edit, whatever else the document holds (`works_bindRecord`).
-/

namespace Stencil.Component
open Markup Document

variable {n i : NodeId} {d d' : Document} {e : Edit} {mode : Mode}

/-- What the text of one field does to an element. -/
def fieldEdit (mode : Mode) (cdata : Bool) (tag : String) (bound : String × String) : Edit :=
  let fill := fillEdit mode (if cdata then .comment (cdataComment bound.2) else .text bound.2)
  match linkAttribute? tag bound.1 with
  | some target => (Edit.ofMap (valueWithAttribute target bound.2)).andThen fill
  | none => fill

/-- What a record does to a node: its fields are put in one after the other. -/
def recordEdit (mode : Mode) (fieldStem : String) (record : Record) : Edit := fun v =>
  match v.element? with
  | none => Edit.keep v
  | some e =>
    (boundFields fieldStem record e).foldl
      (fun acc b => acc.andThen
        (fieldEdit mode (e.hasAttribute cdataFilter) (Text.lowerLetters e.name.base) b))
      Edit.keep v

theorem edits_bindField (d : Document) (cdata : Bool) (tag : String) (i : NodeId)
    (bound : String × String) :
    Edits d.forest.next i (fieldEdit d.mode cdata tag bound) d (bindField cdata tag i d bound) := by
  obtain ⟨field, text⟩ := bound
  have hfill : ∀ d : Document, Edits d.forest.next i
      (fillEdit d.mode (if cdata then .comment (cdataComment text) else .text text)) d
      (if d.isVoid i then d else if cdata then d.setCdata i text else d.setText i text) := by
    intro d
    have h := d.edits_fill i (if cdata then .comment (cdataComment text) else .text text)
    cases cdata <;> exact h
  rw [bindField, fieldEdit]
  dsimp only
  cases linkAttribute? tag field with
  | none => exact hfill d
  | some target =>
    have hset := d.edits_setAttribute i target text
    have hnext := (hfill (d.setAttribute i target text)).mono hset.le_next
    rw [hset.mode] at hnext
    exact hset.andThen hnext

theorem edits_foldl_bindField {cdata : Bool} {tag : String} (bounds : List (String × String))
    (h : Edits n i e d d') :
    Edits n i (bounds.foldl (fun acc b => acc.andThen (fieldEdit d.mode cdata tag b)) e) d
      (bounds.foldl (bindField cdata tag i) d') := by
  induction bounds generalizing e d' with
  | nil => exact h
  | cons b bounds ih =>
    have hb := (edits_bindField d' cdata tag i b).mono h.le_next
    rw [h.mode] at hb
    exact ih (h.andThen hb)

theorem edits_bindElement (fieldStem : String) (record : Record) (d : Document) (i : NodeId) :
    Edits d.forest.next i (recordEdit d.mode fieldStem record) d
      (bindElement fieldStem record d i) := by
  have hvalue : ∀ t, d.forest.find? i = some t → d.element? i = t.value.element? := by
    intro t ht
    rw [element?, Forest.value?, ht, Option.map_some, Option.bind_some]
  rw [bindElement]
  cases he : d.element? i with
  | none =>
    refine (Edits.keep (Nat.le_refl _)).congr ?_
    intro t ht
    rw [recordEdit, ← hvalue t ht, he]
  | some e =>
    refine (edits_foldl_bindField _ (Edits.keep (Nat.le_refl _))).congr ?_
    intro t ht
    rw [recordEdit, ← hvalue t ht, he]

/-- **Binding a record to a detached tree rewrites it element by element.** -/
theorem works_bindRecord (mode : Mode) (fieldStem : String) (record : Record) :
    Works mode (fun t => (t.rewrite fun _ => recordEdit mode fieldStem record).bare)
      (bindRecord fieldStem record) := by
  intro d top t hm ht _
  let e : NodeId → Edit := fun _ => recordEdit mode fieldStem record
  -- The edit of an element does not depend on its number, so it is the same in every copy.
  have hop : ∀ d' i, d'.mode = d.mode → Edits d'.forest.next i (recordEdit mode fieldStem record)
      d' (bindElement fieldStem record d' i) := by
    intro d' i hd'
    have h := edits_bindElement fieldStem record d' i
    rwa [hd', hm] at h
  have hnumbers : (t.bare.rewrite e).bare = (t.rewrite e).bare :=
    Tree.bare_rewrite fun _ _ => .refl _
  obtain ⟨G, hG, hbare, hframe⟩ := exists_evolves_rewrite hop ht
  refine ⟨G, ?_, hbare.trans hnumbers.symm, fun u hu => hframe u fun i hi hiu => (hu i hiu).2 hi⟩
  rw [bindRecord, cons_descendants ht]
  exact hG

end Stencil.Component

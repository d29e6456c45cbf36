import Mathlib.Data.List.Nodup
import Stencil.Document

/-!
# Setting an attribute

Setting an attribute builds all attributes of the element anew: each loses its namespace, and of
those that are called alike afterwards one is kept. If no two are called alike none is lost: the
attribute has the new value, in its old place or behind all others, and the others have their places
and values (`exists_valueWithAttribute`). What was set before is then forgotten when the same
attribute is set again (`valueWithAttribute_valueWithAttribute`).
-/

namespace Stencil

namespace Markup

namespace Element

/-- What the attributes are called apart from their namespaces, in order. -/
def localNames (e : Element) : List String := e.attributes.map (·.name.base)

/-- The value of the first attribute that is called `name` in whatever namespace. -/
def local? (e : Element) (name : String) : Option String :=
  (e.attributes.find? (·.name.base == name)).map (·.value)

end Element

theorem foldl_put {soFar l : List Attribute} (h : ((soFar ++ l).map Attribute.name).Nodup) :
    l.foldl mergeAttributes.put soFar = soFar ++ l := by
  induction l generalizing soFar with
  | nil => rw [List.foldl_nil, List.append_nil]
  | cons a l ih =>
    have hnew : ¬ soFar.any (·.name == a.name) := by
      rw [List.any_eq_true]
      rintro ⟨b, hb, hba⟩
      rw [List.map_append, List.nodup_append] at h
      exact h.2.2 b.name (List.mem_map_of_mem hb) a.name (by simp) (beq_iff_eq.mp hba)
    rw [List.foldl_cons, mergeAttributes.put, if_neg hnew, ih, List.append_assoc,
      List.singleton_append]
    rwa [List.append_assoc, List.singleton_append]

/-- Attributes with different names are all kept. -/
theorem mergeAttributes_of_nodup {l : List Attribute} (h : (l.map Attribute.name).Nodup) :
    mergeAttributes l = l := by
  rw [mergeAttributes, foldl_put (by simpa using h), List.nil_append]

theorem map_name_put (soFar : List Attribute) (a : Attribute) :
    (mergeAttributes.put soFar a).map Attribute.name =
      if a.name ∈ soFar.map Attribute.name then soFar.map Attribute.name
      else soFar.map Attribute.name ++ [a.name] := by
  have hany : soFar.any (·.name == a.name) ↔ a.name ∈ soFar.map Attribute.name := by
    simp [List.any_eq_true]
  rw [mergeAttributes.put, ite_congr (propext hany) (fun _ => rfl) (fun _ => rfl)]
  split
  · rw [List.map_map]
    refine List.map_congr_left fun b _ => ?_
    by_cases hb : b.name = a.name <;> simp [hb]
  · rw [List.map_append, List.map_singleton]

theorem map_name_foldl_put {soFar : List Attribute} (l : List Attribute)
    (h : (soFar.map Attribute.name).Nodup) :
    ((l.foldl mergeAttributes.put soFar).map Attribute.name).Nodup ∧
      ((l.foldl mergeAttributes.put soFar).map Attribute.name).Sublist
        ((soFar ++ l).map Attribute.name) := by
  induction l generalizing soFar with
  | nil => simpa using h
  | cons a l ih =>
    have hput := map_name_put soFar a
    have hsub : ((mergeAttributes.put soFar a).map Attribute.name).Sublist
        ((soFar ++ [a]).map Attribute.name) := by
      rw [hput, List.map_append]
      split
      · exact List.sublist_append_left _ _
      · exact List.Sublist.refl _
    have hnodup : ((mergeAttributes.put soFar a).map Attribute.name).Nodup := by
      rw [hput]
      split
      · exact h
      · next hnew =>
        rw [← List.concat_eq_append]
        exact h.concat hnew
    obtain ⟨hall, hrest⟩ := ih hnodup
    refine ⟨hall, hrest.trans ?_⟩
    rw [List.append_cons, List.map_append, List.map_append]
    exact hsub.append_right _

/-- Running attributes together keeps one of each name. -/
theorem map_name_mergeAttributes (l : List Attribute) :
    ((mergeAttributes l).map Attribute.name).Nodup ∧
      ((mergeAttributes l).map Attribute.name).Sublist (l.map Attribute.name) :=
  map_name_foldl_put l List.nodup_nil

/-- If running attributes together loses none, they have different names. -/
theorem nodup_of_length_mergeAttributes {l : List Attribute}
    (h : (mergeAttributes l).length = l.length) :
    (l.map Attribute.name).Nodup := by
  obtain ⟨hnodup, hsub⟩ := map_name_mergeAttributes l
  have hlength : ((mergeAttributes l).map Attribute.name).length = (l.map Attribute.name).length := by
    rw [List.length_map, List.length_map, h]
  exact hsub.eq_of_length hlength ▸ hnodup

end Markup

namespace Document
open Markup

variable {name text other : String} {l : List Attribute} {e e' : Element}

/-- The attribute in no namespace. -/
def plainAttribute (a : Attribute) : Attribute := ⟨.plain a.name.base, a.value⟩

/-! ## Lists of attributes -/

theorem map_name_plain (l : List Attribute) :
    (l.map plainAttribute).map Attribute.name = (l.map (·.name.base)).map QName.plain := by
  rw [List.map_map, List.map_map]
  rfl

theorem map_base_plain (e : Element) :
    (e.attributes.map plainAttribute).map (·.name.base) = e.localNames := by
  rw [List.map_map]
  rfl

theorem withAttribute_of_not_mem (h : name ∉ l.map (·.name.base)) :
    withAttribute name text l = l ++ [⟨.plain name, text⟩] := by
  induction l with
  | nil => rfl
  | cons a l ih =>
    rw [List.map_cons, List.mem_cons, not_or] at h
    rw [withAttribute, if_neg (Ne.symm h.1), ih h.2, List.cons_append]

theorem map_base_withAttribute (name text : String) (l : List Attribute) :
    (withAttribute name text l).map (·.name.base) =
      if name ∈ l.map (·.name.base) then l.map (·.name.base)
      else l.map (·.name.base) ++ [name] := by
  induction l with
  | nil => rfl
  | cons a l ih =>
    rw [withAttribute]
    by_cases ha : a.name.base = name
    · subst ha
      rw [if_pos rfl, if_pos (by simp)]
      rfl
    · have hmem : name ∈ (a :: l).map (·.name.base) ↔ name ∈ l.map (·.name.base) := by
        simp [Ne.symm ha]
      rw [if_neg ha, List.map_cons, ih, ite_congr (propext hmem) (fun _ => rfl) (fun _ => rfl)]
      split <;> rfl

theorem find?_withAttribute (name text other : String) (l : List Attribute) :
    ((withAttribute name text l).find? (·.name.base == other)).map (·.value) =
      if other = name then some text else (l.find? (·.name.base == other)).map (·.value) := by
  induction l with
  | nil =>
    by_cases hname : other = name
    · simp [withAttribute, QName.plain, hname]
    · simp [withAttribute, QName.plain, hname, Ne.symm hname]
  | cons a l ih =>
    rw [withAttribute]
    by_cases ha : a.name.base = name
    · subst ha
      rw [if_pos rfl]
      by_cases hother : other = a.name.base
      · simp [hother]
      · simp [hother, Ne.symm hother]
    · rw [if_neg ha]
      by_cases hother : a.name.base = other
      · subst hother
        simp [ha]
      · rw [List.find?_cons_of_neg (by simpa using hother), ih,
          List.find?_cons_of_neg (by simpa using hother)]

theorem withAttribute_withAttribute (name text text' : String) (l : List Attribute) :
    withAttribute name text' (withAttribute name text l) = withAttribute name text' l := by
  induction l with
  | nil => simp [withAttribute, QName.plain]
  | cons a l ih =>
    rw [withAttribute]
    by_cases ha : a.name.base = name
    · rw [if_pos ha, withAttribute, if_pos ha, withAttribute, if_pos ha]
    · rw [if_neg ha, withAttribute, if_neg ha, ih, withAttribute, if_neg ha]

theorem map_plain_withAttribute (name text : String) (l : List Attribute) :
    (withAttribute name text l).map plainAttribute =
      withAttribute name text (l.map plainAttribute) := by
  induction l with
  | nil => rfl
  | cons a l ih =>
    rw [withAttribute, List.map_cons, withAttribute]
    by_cases ha : a.name.base = name
    · rw [if_pos ha, if_pos (by exact ha)]
      rfl
    · rw [if_neg ha, if_neg (by exact ha), List.map_cons, ih]

/-! ## Elements -/

/-- The element with an attribute set, if no two of its attributes are called alike. -/
def setLocal (name text : String) (e : Element) : Element :=
  { e with attributes := withAttribute name text (e.attributes.map plainAttribute) }

theorem localNames_setLocal (name text : String) (e : Element) :
    (setLocal name text e).localNames =
      if name ∈ e.localNames then e.localNames else e.localNames ++ [name] := by
  rw [Element.localNames, setLocal, map_base_withAttribute, map_base_plain]

theorem map_plain_setLocal (name text : String) (e : Element) :
    (setLocal name text e).attributes.map plainAttribute = (setLocal name text e).attributes := by
  rw [setLocal, map_plain_withAttribute, List.map_map]
  rfl

theorem nodup_localNames_setLocal (h : e.localNames.Nodup) :
    (setLocal name text e).localNames.Nodup := by
  rw [localNames_setLocal]
  split
  · exact h
  · next hnew =>
    rw [← List.concat_eq_append]
    exact h.concat hnew

/-- **If no two attributes are called alike, setting one loses none.** -/
theorem valueWithAttribute_of_nodup (h : e.localNames.Nodup) :
    valueWithAttribute name text (.element e) = .element (setLocal name text e) := by
  have hnames : (setLocal name text e).attributes.map Attribute.name =
      (setLocal name text e).localNames.map QName.plain := by
    rw [← map_plain_setLocal, map_name_plain, Element.localNames]
  have hinjective : Function.Injective QName.plain := fun _ _ heq => congrArg QName.base heq
  have hnodup : ((setLocal name text e).attributes.map Attribute.name).Nodup := by
    rw [hnames]
    exact (nodup_localNames_setLocal h).map hinjective
  show Value.element { e with attributes := mergeAttributes (setLocal name text e).attributes } = _
  rw [mergeAttributes_of_nodup hnodup]
  rfl

/-- Setting the same attribute again forgets what was set before. -/
theorem valueWithAttribute_valueWithAttribute (h : e.localNames.Nodup) (text' : String) :
    valueWithAttribute name text' (valueWithAttribute name text (.element e)) =
      valueWithAttribute name text' (.element e) := by
  rw [valueWithAttribute_of_nodup h, valueWithAttribute_of_nodup (nodup_localNames_setLocal h),
    valueWithAttribute_of_nodup h, setLocal, map_plain_setLocal, setLocal, setLocal,
    withAttribute_withAttribute]

/-- What setting an attribute does to an element: the attribute has the value, in its old place or
behind all others, the others have their places and values, and none has a namespace any more. -/
structure AttributeSet (name text : String) (e e' : Element) : Prop where
  tag : e'.name = e.name
  names : e'.localNames = if name ∈ e.localNames then e.localNames else e.localNames ++ [name]
  values : ∀ other, e'.local? other = if other = name then some text else e.local? other
  plain : ∀ other, e'.attribute? other = e'.local? other

theorem attributeSet_setLocal (name text : String) (e : Element) :
    AttributeSet name text e (setLocal name text e) where
  tag := rfl
  names := localNames_setLocal name text e
  values other := by
    rw [Element.local?, setLocal, find?_withAttribute, List.find?_map, Option.map_map]
    rfl
  plain other := by
    have hsame : (fun a : Attribute => a.name == QName.plain other) ∘ plainAttribute =
        (fun a : Attribute => a.name.base == other) ∘ plainAttribute := by
      funext a
      rw [Bool.eq_iff_iff, Function.comp_apply, Function.comp_apply, beq_iff_eq, beq_iff_eq]
      exact ⟨congrArg QName.base, congrArg QName.plain⟩
    rw [Element.attribute?, Element.local?, ← map_plain_setLocal, List.find?_map, List.find?_map,
      hsame]

theorem AttributeSet.attribute? (h : AttributeSet name text e e') :
    e'.attribute? name = some text := by
  rw [h.plain, h.values, if_pos rfl]

/-- **Setting an attribute changes one attribute**, if no two attributes are called alike. The tag
stays in any case. -/
theorem exists_valueWithAttribute (name text : String) (e : Element) :
    ∃ e', valueWithAttribute name text (.element e) = .element e' ∧ e'.name = e.name ∧
      (e.localNames.Nodup → AttributeSet name text e e') := by
  refine ⟨_, rfl, rfl, fun h => ?_⟩
  have hset : valueWithAttribute name text (.element e) = _ := valueWithAttribute_of_nodup h
  rw [valueWithAttribute] at hset
  rw [Value.element.inj hset]
  exact attributeSet_setLocal name text e

end Document

end Stencil

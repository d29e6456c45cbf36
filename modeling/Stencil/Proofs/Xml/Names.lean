import Stencil.Proofs.Markup.Values
import Stencil.Proofs.Text.Cutting
import Stencil.Xml.Reader

/-!
# Attribute names stand in the text

An XML template is cut into items, and the content of a tag is a part of the text; the names in it
are kept as they are written. So every attribute name of the document is a part of the text. Values
are another matter: their references are replaced.
-/

namespace Stencil.Xml
open Markup Text

variable {text cs rest content inner : List Char} {c : Char} {item : Item} {e : Element}
  {attributes : List Attribute}

/-! ## Attributes -/

/-- The names of all attributes are parts of the text. -/
def NamesIn (text : List Char) (attributes : List Attribute) : Prop :=
  ∀ a ∈ attributes, a.name.base.toList <:+: text

/-- The names of the attributes of the node are parts of the text; only elements have any. -/
def ValueNamesIn (text : List Char) : Value → Prop
  | .element e => NamesIn text e.attributes
  | _ => True

theorem NamesIn.mono (h : NamesIn cs attributes) (hcs : cs <:+: text) : NamesIn text attributes :=
  fun a ha => (h a ha).trans hcs

theorem suffix_of_rawValue {total : Nat} {value : List Char}
    (h : rawValue total cs = .ok (value, rest)) : rest <:+ cs := by
  cases cs with
  | nil => cases h
  | cons c cs =>
    rw [rawValue] at h
    split at h
    · split at h
      · next hsplit =>
        obtain ⟨rfl, rfl⟩ := Prod.mk.inj (Except.ok.inj h)
        exact (suffix_of_splitFirst? hsplit).trans (List.suffix_cons _ _)
      · cases h
    · obtain ⟨rfl, rfl⟩ := Prod.mk.inj (Except.ok.inj h)
      exact List.dropWhile_suffix _

theorem suffix_of_rawValue? {total : Nat} {value : List Char}
    (h : rawValue? total cs = .ok (value, rest)) : rest <:+ cs := by
  rw [rawValue?] at h
  split at h
  · next heq =>
    exact (suffix_of_rawValue h).trans
      ((List.dropWhile_suffix _).trans (suffix_of_dropWhile_eq_cons heq))
  · obtain ⟨rfl, rfl⟩ := Prod.mk.inj (Except.ok.inj h)
    exact List.suffix_rfl

theorem exists_of_map_eq_ok {ε α β : Type} {f : α → β} {x : Except ε α} {y : β}
    (h : x.map f = .ok y) : ∃ z, x = .ok z ∧ f z = y := by
  cases x with
  | error fault => cases h
  | ok z => exact ⟨z, rfl, Except.ok.inj h⟩

theorem namesIn_of_attributesFrom {total : Nat} {seen : List (List Char × Nat)}
    (h : attributesFrom total seen cs = .ok attributes) : NamesIn cs attributes := by
  fun_induction attributesFrom total seen cs generalizing attributes with
  | case1 =>
    cases h
    exact nofun
  | case2 => cases h
  | case3 => cases h
  | case4 => cases h
  | case5 seen cs c r hblank _ name _ raw rest hv value _ _ =>
    rename_i ih
    obtain ⟨others, hothers, rfl⟩ := exists_of_map_eq_ok h
    have hleft : c :: r <:+ cs := hblank ▸ List.dropWhile_suffix _
    have hrest : rest <:+ cs :=
      (suffix_of_rawValue? hv).trans
        ((List.dropWhile_suffix _).trans ((List.suffix_cons c r).trans hleft))
    refine List.forall_mem_cons.mpr ⟨?_, (ih hothers).mono hrest.isInfix⟩
    have hfront : r.takeWhile (!endsName ·) <+: r := List.takeWhile_prefix _
    have hname : name <+: c :: r := (List.prefix_cons_inj c).mpr hfront
    show (String.ofList name).toList <:+: cs
    rw [String.toList_ofList]
    exact hname.isInfix.trans hleft.isInfix

theorem namesIn_of_element (h : element content = .ok e) : NamesIn content e.attributes := by
  obtain ⟨attributes, hattributes, rfl⟩ := exists_of_map_eq_ok h
  exact (namesIn_of_attributesFrom hattributes).mono (List.dropWhile_suffix _).isInfix

/-! ## Items -/

/-- The content of the item, if it is a start tag or the tag of an empty element, is a part of the
text. -/
def Item.ContentIn (text : List Char) : Item → Prop
  | .start content => content <:+: text
  | .empty content => content <:+: text
  | _ => True

/-- An item is cut off the text: its content stands in the text and the rest is an end of it. -/
structure CutOff (text : List Char) (item : Item) (rest : List Char) : Prop where
  content : item.ContentIn text
  rest : rest <:+ text

theorem CutOff.mono (h : CutOff cs item rest) (hcs : cs <:+ text) : CutOff text item rest := by
  refine ⟨?_, h.rest.trans hcs⟩
  have hcontent := h.content
  cases item with
  | start content => exact List.IsInfix.trans hcontent hcs.isInfix
  | empty content => exact List.IsInfix.trans hcontent hcs.isInfix
  | text | finish | comment | «section» | instruction | doctype => trivial

theorem eq_append_of_splitTag? {quote : Option Char} (h : splitTag? quote cs = some (inner, rest)) :
    cs = inner ++ '>' :: rest := by
  induction cs generalizing quote inner rest with
  | nil => cases h
  | cons c cs ih =>
    rw [splitTag?] at h
    split at h
    · next hend =>
      obtain ⟨rfl, rfl⟩ := Prod.mk.inj (Option.some.inj h)
      rw [hend.2, List.nil_append]
    · obtain ⟨⟨before, behind⟩, hsplit, he⟩ := Option.map_eq_some_iff.mp h
      obtain ⟨rfl, rfl⟩ := Prod.mk.inj he
      rw [ih hsplit, List.cons_append]

theorem suffix_of_splitTag? {quote : Option Char} (h : splitTag? quote cs = some (inner, rest)) :
    rest <:+ cs :=
  (List.suffix_cons '>' rest).trans ⟨inner, (eq_append_of_splitTag? h).symm⟩

theorem suffix_of_splitDeclaration? {depth : Nat}
    (h : splitDeclaration? depth cs = some (inner, rest)) : rest <:+ cs := by
  induction cs generalizing depth inner rest with
  | nil => cases h
  | cons c cs ih =>
    rw [splitDeclaration?] at h
    split at h
    · obtain ⟨rfl, rfl⟩ := Prod.mk.inj (Option.some.inj h)
      exact List.suffix_cons _ _
    · obtain ⟨⟨before, behind⟩, hsplit, he⟩ := Option.map_eq_some_iff.mp h
      obtain ⟨rfl, rfl⟩ := Prod.mk.inj he
      exact (ih hsplit).trans (List.suffix_cons _ _)

namespace Item

variable {position : Nat}

theorem suffix_of_bind_splitFirst? {stem needle : List Char}
    (h : (dropStem? stem cs).bind (splitFirst? needle) = some (content, rest)) : rest <:+ cs := by
  obtain ⟨inside, hstem, hsplit⟩ := Option.bind_eq_some_iff.mp h
  exact (suffix_of_splitFirst? hsplit).trans (suffix_of_dropStem? hstem)

theorem cutOff_nextSection (h : nextSection position cs = .ok (item, rest)) :
    CutOff cs item rest := by
  rw [nextSection] at h
  split at h
  · next hsplit =>
    obtain ⟨rfl, rfl⟩ := Prod.mk.inj (Except.ok.inj h)
    exact ⟨trivial, suffix_of_bind_splitFirst? hsplit⟩
  · cases h

theorem cutOff_nextComment (h : nextComment position cs = .ok (item, rest)) :
    CutOff cs item rest := by
  rw [nextComment] at h
  split at h
  · next hsplit =>
    obtain ⟨rfl, rfl⟩ := Prod.mk.inj (Except.ok.inj h)
    exact ⟨trivial, suffix_of_bind_splitFirst? hsplit⟩
  · cases h

theorem cutOff_nextDoctype (h : nextDoctype position cs = .ok (item, rest)) :
    CutOff cs item rest := by
  rw [nextDoctype] at h
  split at h
  · cases h
  · next hsplit =>
    split at h
    · cases h
    · dsimp only at h
      split at h
      · cases h
      · obtain ⟨rfl, rfl⟩ := Prod.mk.inj (Except.ok.inj h)
        exact ⟨trivial, suffix_of_splitDeclaration? hsplit⟩

theorem cutOff_nextDeclaration (h : nextDeclaration position cs = .ok (item, rest)) :
    CutOff cs item rest := by
  unfold nextDeclaration at h
  split at h
  · exact (cutOff_nextSection h).mono (List.suffix_cons _ _)
  · exact (cutOff_nextComment h).mono (List.suffix_cons _ _)
  · exact cutOff_nextDoctype h
  · exact cutOff_nextDoctype h
  · cases h

theorem cutOff_nextInstruction (h : nextInstruction position cs = .ok (item, rest)) :
    CutOff cs item rest := by
  rw [nextInstruction] at h
  split at h
  · cases h
  · split at h
    · next hsplit =>
      obtain ⟨rfl, rfl⟩ := Prod.mk.inj (Except.ok.inj h)
      exact ⟨trivial, suffix_of_splitFirst? hsplit⟩
    · cases h

theorem cutOff_nextEnd (h : nextEnd position cs = .ok (item, rest)) : CutOff cs item rest := by
  rw [nextEnd] at h
  split at h
  · cases h
  · next hsplit =>
    obtain ⟨rfl, rfl⟩ := Prod.mk.inj (Except.ok.inj h)
    exact ⟨trivial, suffix_of_splitTag? hsplit⟩

/-- What stands between the angle brackets of a tag is a part of the text, with or without the slash
at its end. -/
theorem cutOff_nextStart (h : nextStart position cs = .ok (item, rest)) : CutOff cs item rest := by
  rw [nextStart] at h
  split at h
  · cases h
  · next content rest hsplit =>
    have hcontent : content <:+: cs := ⟨[], '>' :: rest, (eq_append_of_splitTag? hsplit).symm⟩
    split at h
    · next inner hslash =>
      obtain ⟨rfl, rfl⟩ := Prod.mk.inj (Except.ok.inj h)
      have hinner : inner <+: content := ⟨['/'], (dropTail?_eq_some_iff.mp hslash).symm⟩
      exact ⟨hinner.isInfix.trans hcontent, suffix_of_splitTag? hsplit⟩
    · obtain ⟨rfl, rfl⟩ := Prod.mk.inj (Except.ok.inj h)
      exact ⟨hcontent, suffix_of_splitTag? hsplit⟩

theorem cutOff_nextMarkup (h : nextMarkup position cs = .ok (item, rest)) : CutOff cs item rest := by
  unfold nextMarkup at h
  split at h
  · exact (cutOff_nextDeclaration h).mono (List.suffix_cons _ _)
  · exact (cutOff_nextInstruction h).mono (List.suffix_cons _ _)
  · exact (cutOff_nextEnd h).mono (List.suffix_cons _ _)
  · exact cutOff_nextStart h

theorem cutOff_next (h : next position c cs = .ok (item, rest)) : CutOff (c :: cs) item rest := by
  rw [next] at h
  split at h
  · exact (cutOff_nextMarkup h).mono (List.suffix_cons c cs)
  · obtain ⟨rfl, rfl⟩ := Prod.mk.inj (Except.ok.inj h)
    exact ⟨trivial, (List.dropWhile_suffix _).trans (List.suffix_cons c cs)⟩

end Item

/-! ## Building -/

/-- The attribute names of what the event adds are parts of the text. -/
def Event.NamesIn (text : List Char) : Event → Prop
  | .opens e => Xml.NamesIn text e.attributes
  | .leaf v => ValueNamesIn text v
  | .closes _ => True

theorem namesIn_event {event : Event} (hitem : item.ContentIn text) (h : item.event = .ok event) :
    event.NamesIn text := by
  cases item with
  | text content =>
    rw [Item.event] at h
    split at h
    · cases h
      trivial
    · cases h
  | start content =>
    obtain ⟨e, he, rfl⟩ := exists_of_map_eq_ok h
    exact (namesIn_of_element he).mono hitem
  | empty content =>
    obtain ⟨e, he, rfl⟩ := exists_of_map_eq_ok h
    exact (namesIn_of_element he).mono hitem
  | finish | comment | «section» | instruction | doctype =>
    cases h
    trivial

/-- The attribute names of the open elements and of all trees so far are parts of the text. -/
structure Building.NamesIn (text : List Char) (b : Building) : Prop where
  path : ∀ o ∈ b.path, Xml.NamesIn text o.element.attributes ∧
    Tree.AllValues (ValueNamesIn text) o.before
  before : Tree.AllValues (ValueNamesIn text) b.before

namespace Building
open Markup.Tree (allValues_nil allValues_cons_node allValues_reverse)

theorem namesIn_empty : empty.NamesIn text := ⟨nofun, allValues_nil⟩

theorem NamesIn.step {b b' : Building} {event : Event} (hb : b.NamesIn text)
    (hevent : event.NamesIn text) (h : b.step event = .ok b') : b'.NamesIn text := by
  cases event with
  | leaf v =>
    cases h
    exact ⟨hb.path, (allValues_cons_node 0 v [] _).mpr ⟨hevent, allValues_nil, hb.before⟩⟩
  | opens e =>
    cases h
    exact ⟨List.forall_mem_cons.mpr ⟨⟨hevent, hb.before⟩, hb.path⟩, allValues_nil⟩
  | closes name =>
    rw [Building.step] at h
    split at h
    · cases h
    · next o outer hpath =>
      split at h
      · obtain rfl := Except.ok.inj h
        obtain ⟨⟨helement, hbefore⟩, houter⟩ := List.forall_mem_cons.mp (hpath ▸ hb.path)
        exact ⟨houter, (allValues_cons_node 0 (.element o.element) _ _).mpr
          ⟨helement, allValues_reverse.mpr hb.before, hbefore⟩⟩
      · cases h

theorem NamesIn.finish {b : Building} {trees : List Tree} (hb : b.NamesIn text)
    (h : b.finish = .ok trees) : Tree.AllValues (ValueNamesIn text) trees := by
  rw [Building.finish] at h
  split at h
  · obtain rfl := Except.ok.inj h
    exact allValues_reverse.mpr hb.before
  · cases h

end Building

theorem namesIn_readFrom {b : Building} {position : Nat} {trees : List Tree}
    (h : readFrom b position cs = .ok trees) (hb : b.NamesIn text) (hcs : cs <:+ text) :
    Tree.AllValues (ValueNamesIn text) trees := by
  fun_induction readFrom b position cs generalizing trees with
  | case1 b position trees' hfinish =>
    obtain rfl := Except.ok.inj h
    exact hb.finish hfinish
  | case2 => cases h
  | case3 => cases h
  | case4 => cases h
  | case5 => cases h
  | case6 b position c cs item rest hnext _ behind event hevent b' hstep =>
    rename_i ih
    have hcut := (Item.cutOff_next hnext).mono hcs
    exact ih h (hb.step (namesIn_event hcut.content hevent) hstep) hcut.rest

/-- **Reading a template makes no attribute names up**: each is a part of the text. -/
theorem namesIn_read {source : String} {f : Forest} (h : read source = .ok f) :
    f.AllValues (ValueNamesIn source.toList) := by
  obtain ⟨trees, htrees, rfl⟩ := exists_of_map_eq_ok h
  refine Forest.AllValues.ofTrees trivial (namesIn_readFrom htrees Building.namesIn_empty ?_)
  split
  · next heq => exact heq ▸ List.suffix_cons _ _
  · exact List.suffix_rfl

end Stencil.Xml

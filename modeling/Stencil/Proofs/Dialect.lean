import Stencil.Dialect
import Stencil.Document
import Stencil.Proofs.Component.Root
import Stencil.Proofs.Html.Rules
import Stencil.Proofs.Xml.Names

/-!
# Texts with component roots

The dialect is chosen by the text, and components are found by the attributes of the document that
the text describes. No step of reading makes the component marker out of anything but itself in the
same letters, with one exception: attribute names of HTML are read in lower case. So a text with
component roots has the marker, in XML as it is and in HTML up to the case of its letters; a root
whose marker is written in capitals is not noticed.
-/

namespace Stencil
open Markup Component

variable {text : String} {mode : Mode} {d : Document} {i : NodeId} {e : Element} {m : Marker}

/-- The text holds the component marker, its letters in any case. -/
def HoldsMarker (text : String) : Prop :=
  ∃ w, w <:+: text.toList ∧ w.map Text.lowerChar = componentMarker.toList

namespace Dialect

theorem ofText_eq_componentLoop_iff :
    ofText text = .componentLoop ↔ componentMarker.toList <:+: text.toList := by
  rw [← Text.occursIn_iff, ofText, Text.contains]
  split
  · next h => exact iff_of_true rfl h
  · next h =>
    refine iff_of_false (fun heq => ?_) h
    cases heq

theorem holdsMarker_of_ofText (h : ofText text = .componentLoop) : HoldsMarker text :=
  ⟨componentMarker.toList, ofText_eq_componentLoop_iff.mp h, by decide⟩

theorem ofText_lowerLetters_of_holdsMarker (h : HoldsMarker text) :
    ofText (Text.lowerLetters text) = .componentLoop := by
  obtain ⟨w, hw, hmarker⟩ := h
  rw [ofText_eq_componentLoop_iff, Text.lowerLetters, String.toList_ofList, ← hmarker]
  exact hw.map Text.lowerChar

end Dialect

/-! ## HTML -/

/-- No name that foreign content spells in a way of its own starts with the marker. -/
theorem not_prefix_of_mem_foreignSpellings :
    ∀ name ∈ Html.foreignSpellings, ¬ componentMarker.toList <+: name.toList := by
  decide +kernel

/-- An attribute name of an HTML document that starts with the marker was written as such, in
letters of any case. -/
theorem holdsMarker_of_html (he : (Html.read text).value? i = some (.element e))
    (hm : ∃ a ∈ e.attributes, componentMarker.toList <+: a.name.base.toList) :
    HoldsMarker text := by
  obtain ⟨a, ha, hstart⟩ := hm
  have hname := (Html.namedIn_read text).of_value? he a ha
  obtain hwritten | hforeign := hname
  · obtain ⟨w, hw, hmarker⟩ := Html.exists_infix_of_written (by decide) hwritten hstart
    refine ⟨w, Html.infix_of_infix_normalizeInput ?_ hw, hmarker⟩
    intro hfeed
    have hmem : Text.lowerChar '\n' ∈ componentMarker.toList := hmarker ▸ List.mem_map_of_mem hfeed
    exact absurd hmem (by decide)
  · exact absurd hstart (not_prefix_of_mem_foreignSpellings _ hforeign)

/-! ## XML -/

/-- An attribute name of an XML document that starts with the marker was written so. -/
theorem ofText_of_xml {f : Forest} (h : Xml.read text = .ok f)
    (he : f.value? i = some (.element e))
    (hm : ∃ a ∈ e.attributes, componentMarker.toList <+: a.name.base.toList) :
    Dialect.ofText text = .componentLoop := by
  obtain ⟨a, ha, hstart⟩ := hm
  have hname : a.name.base.toList <:+: text.toList := (Xml.namesIn_read h).of_value? he a ha
  exact Dialect.ofText_eq_componentLoop_iff.mpr (hstart.isInfix.trans hname)

/-! ## Either kind of markup -/

namespace Document

/-- **A text with a component root is noticed**, by its marker: as it stands in XML, and with its
letters in lower case in HTML too. -/
theorem ofText_of_marker (hd : read text mode = .ok d) (he : d.element? i = some e)
    (hm : Marker.ofElement? e = some m) :
    (mode = .xml → Dialect.ofText text = .componentLoop) ∧
      Dialect.ofText (Text.lowerLetters text) = .componentLoop := by
  have hvalue := value?_of_element? he
  have hmarker := marker_of_ofElement? hm
  cases mode with
  | html =>
    obtain rfl := Except.ok.inj hd
    exact ⟨nofun, Dialect.ofText_lowerLetters_of_holdsMarker (holdsMarker_of_html hvalue hmarker)⟩
  | xml =>
    obtain ⟨f, hf, rfl⟩ := Xml.exists_of_map_eq_ok hd
    have hloop := ofText_of_xml hf hvalue hmarker
    exact ⟨fun _ => hloop,
      Dialect.ofText_lowerLetters_of_holdsMarker (Dialect.holdsMarker_of_ofText hloop)⟩

theorem ofText_of_marker_list :
    ∃ d e m, read "<ul data-v-component-items=\"Top\"/>" .xml = .ok d ∧ d.element? 1 = some e ∧
      Marker.ofElement? e = some m ∧
      (Mode.xml = .xml →
        Dialect.ofText "<ul data-v-component-items=\"Top\"/>" = .componentLoop) ∧
      Dialect.ofText (Text.lowerLetters "<ul data-v-component-items=\"Top\"/>") =
        .componentLoop := by
  have hroot : (read "<ul data-v-component-items=\"Top\"/>" .xml).toOption.bind (·.element? 1) =
      some ⟨.plain "ul", [⟨.plain "data-v-component-items", "Top"⟩]⟩ := by
    decide +kernel
  have hmarker : Marker.ofElement? ⟨.plain "ul", [⟨.plain "data-v-component-items", "Top"⟩]⟩ =
      some ⟨"items", "Top"⟩ := by
    decide +kernel
  cases hread : read "<ul data-v-component-items=\"Top\"/>" .xml with
  | error fault =>
    rw [hread] at hroot
    cases hroot
  | ok d =>
    rw [hread] at hroot
    exact ⟨d, _, _, rfl, hroot, hmarker, ofText_of_marker hread hroot hmarker⟩

/-- In HTML a root whose marker is written in capitals is not noticed. -/
theorem ofText_misses_capitals :
    ∃ d i e m, read "<ul DATA-V-COMPONENT-ITEMS><li data-v-item>x</li></ul>" .html = .ok d ∧
      i ∈ d.elements ∧ d.element? i = some e ∧ Marker.ofElement? e = some m ∧
      Dialect.ofText "<ul DATA-V-COMPONENT-ITEMS><li data-v-item>x</li></ul>" = .ruleScript := by
  refine ⟨_, 4, ⟨.html "ul", [⟨.plain "data-v-component-items", ""⟩]⟩, ⟨"items", ""⟩, rfl, ?_, ?_,
    ?_, ?_⟩
  · decide +kernel
  · decide +kernel
  · decide +kernel
  · decide +kernel

end Document

end Stencil

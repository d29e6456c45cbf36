import Stencil.Css.Matching
import Stencil.Text.Blank

/-!
# Selectors of directive lines

A selector is CSS text that has been read and found usable. Blanks around the text do not belong to
it. Text that is all blank and text that is no selector are told apart.
-/

namespace Stencil

/-- Why a text is no selector. -/
inductive SelectorFault where
  | empty
  | invalid (text : String)
  deriving Repr, DecidableEq

/-- The wording of a selector fault. -/
def SelectorFault.message : SelectorFault → String
  | .empty => "empty selector"
  | .invalid text => s!"invalid selector '{text}'"

/-- A selector with the text that it was read from. -/
structure Selector where
  text : String
  alternatives : Css.SelectorList

namespace Selector

/-- Read a selector. -/
def ofText (text : String) : Except SelectorFault Selector :=
  let text := Text.trimmed text
  if text.isEmpty then .error .empty
  else
    match Css.SelectorList.ofText? text with
    | some alternatives => .ok ⟨text, alternatives⟩
    | none => .error (.invalid text)

/-- Whether a node of a forest is an element that the selector matches. -/
def matchesAt (s : Selector) (f : Markup.Forest) (i : Markup.NodeId) : Bool :=
  (Css.Place.find? f i).any fun p => s.alternatives.matches p

end Selector

end Stencil

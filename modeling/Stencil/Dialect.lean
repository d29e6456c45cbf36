import Stencil.Text.Search

/-!
# The dialect of a template

Two dialects exist. The choice looks at the text alone: a marker inside a comment or a value counts
like any other.
-/

namespace Stencil

/-- Attribute names with this start mark the root of a component. -/
def componentMarker : String := "data-v-component-"

/-- How a template is rendered. -/
inductive Dialect where
  | componentLoop
  | ruleScript
  deriving Repr, DecidableEq, Inhabited

namespace Dialect

/-- The dialect of a template text. -/
def ofText (text : String) : Dialect :=
  if Text.contains text componentMarker then .componentLoop else .ruleScript

/-- The name of a dialect. -/
def name : Dialect → String
  | .componentLoop => "component-loop"
  | .ruleScript => "rule-script"

end Dialect

end Stencil

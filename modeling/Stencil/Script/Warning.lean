import Stencil.Report.Excerpt
import Stencil.Script.Diagnostic

/-!
# Findings as warnings

A finding is shown as a warning with an excerpt of the template. The excerpt counts in characters
and is given the span of the finding as it is, so behind characters of more than one byte it lies
further on than the finding.
-/

namespace Stencil.Script

/-- The warning about a finding in a template file, in colours. -/
def Diagnostic.warning (d : Diagnostic) (source filename : String) : String :=
  Report.warning source filename s!"[{d.kind.name}] {d.message}"
    ⟨d.span.start, d.span.stop, d.message⟩

end Stencil.Script

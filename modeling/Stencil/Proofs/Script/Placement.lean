import Stencil.Proofs.Script.Diagnostic

/-!
# Where findings point

Findings come in the order in which they start, and each of them points into the line that it is
about, with both ends between characters (`check_placed`). Only a clause that the end of its line
cuts off can be pointed at backwards: the finding starts at the end of the line and ends at the end
of the last token, which comes earlier if something behind that token is none.
-/

namespace Stencil.Script
open Text

variable {s : Template} {l : Line} {f : Diagnostic} {source : String} {line : List Char}

/-! ## Order -/

theorem not_declares_of_plan?_eq_none (h : s.plan? = none) (hl : l ∈ s.lines) : ¬ Declares l := by
  intro hloop
  obtain ⟨first, rest, hfirst⟩ := exists_firstLoop_of_declares hl hloop
  obtain ⟨anchor, clause, -, hp⟩ := plan?_of_firstLoop hfirst
  rw [h] at hp
  cases hp

/-- Without a loop only undefined aliases are found. -/
theorem findings_of_plan?_eq_none (h : s.plan? = none) :
    s.findings = s.lines.filterMap (aliasFinding? s.aliases) := by
  have hclause : s.lines.filterMap clauseFinding? = [] := by
    refine List.filterMap_eq_nil_iff.mpr ?_
    intro l hl
    unfold clauseFinding?
    split
    · next hd => exact absurd ⟨_, _, hd⟩ (not_declares_of_plan?_eq_none h hl)
    · rfl
  have hlater : laterLoopFindings s.lines = [] := by
    have hnone : (s.lines.filter fun l => l.directive.loop?.isSome) = [] :=
      List.filter_eq_nil_iff.mpr fun l hl hloop =>
        not_declares_of_plan?_eq_none h hl (isSome_loop?_iff.mp hloop)
    rw [laterLoopFindings, hnone]
    rfl
  rw [Template.findings, hclause, hlater, loopFindings_of_no_loop h, List.nil_append,
    List.append_nil, List.append_nil]

/-- **Findings are reported in the order in which they start.** -/
theorem pairwise_check (source : String) :
    (read source).check.Pairwise fun a b => a.span.start ≤ b.span.start := by
  rw [Template.check]
  split
  · -- A script with a loop has its findings sorted.
    have hsorted :
        ((read source).findings.mergeSort fun a b => a.span.start ≤ b.span.start).Pairwise
          fun a b => decide (a.span.start ≤ b.span.start) := by
      refine List.pairwise_mergeSort ?_ ?_ _
      · intro a b c hab hbc
        exact decide_eq_true (Nat.le_trans (of_decide_eq_true hab) (of_decide_eq_true hbc))
      · intro a b
        simpa using Nat.le_total a.span.start b.span.start
    exact hsorted.imp of_decide_eq_true
  · -- One without a loop has one finding a line at most, and the lines are in order.
    next hp =>
    rw [findings_of_plan?_eq_none (Option.not_isSome_iff_eq_none.mp hp), List.pairwise_filterMap]
    refine (pairwise_lines source).imp_of_mem ?_
    intro a b ha _ hab f hf g hg
    rw [(aliasFinding?_eq hf).2, (aliasFinding?_eq hg).2]
    exact Nat.le_trans (start_le_stop source a ha) (Nat.le_of_lt hab)

/-! ## Places -/

/-- The line has a clause that its end cuts off, with something behind the last token that is
none. -/
def CutOff (l : Line) (line : List Char) : Prop :=
  ∃ anchor fault span, l.directive = .beforeLine anchor (.loop (.error (fault, span))) ∧
    BreaksOff line fault

/-- What is known about the place of a finding about a line that is read from a part of the
source. -/
structure Placed (source : String) (l : Line) (line : List Char) (f : Diagnostic) : Prop where
  between : f.span.Between l.span.start l.span.stop
  start_isValid : (⟨f.span.start⟩ : String.Pos.Raw).IsValid source
  stop_isValid : (⟨f.span.stop⟩ : String.Pos.Raw).IsValid source
  runs_back_iff : f.span.stop < f.span.start ↔ f.kind = .malformedForeach ∧ CutOff l line

/-- A finding at a whole line is well placed. -/
theorem placed_of_span_eq (hs : Stands source.toList line l.span) (hspan : f.span = l.span)
    (hkind : f.kind ≠ .malformedForeach) : Placed source l line f := by
  have hle := hs.le
  refine ⟨?_, ?_, ?_, ?_⟩ <;> rw [hspan]
  · exact ⟨Nat.le_refl _, hle, hle, Nat.le_refl _⟩
  · exact isValid_iff_boundary.mpr hs.boundary_start
  · exact isValid_iff_boundary.mpr hs.boundary_stop
  · exact iff_of_false (Nat.not_lt.mpr hle) fun h => hkind h.1

/-- A clause fault is well placed, unless it runs backwards. -/
theorem placed_of_clause {anchor message : String} {fault : ClauseFault} {span : Span}
    (hs : Stands source.toList line l.span) (hline : l.directive = directiveOf l.span.start line)
    (hd : l.directive = .beforeLine anchor (.loop (.error (fault, span)))) :
    Placed source l line ⟨.malformedForeach, message, span⟩ := by
  have hdirective := hline.symm.trans hd
  refine ⟨hs.stop_eq ▸ fault_between hdirective, ?_, ?_, ?_⟩
  · obtain ⟨s, hstart, -, rfl⟩ := exists_boundary_of_directiveOf hdirective
    exact isValid_iff_boundary.mpr (hs.boundary hstart)
  · obtain ⟨s, -, hstop, rfl⟩ := exists_boundary_of_directiveOf hdirective
    exact isValid_iff_boundary.mpr (hs.boundary hstop)
  · dsimp only
    rw [fault_runs_back_iff hdirective]
    constructor
    · exact fun h => ⟨rfl, anchor, fault, span, hd, h⟩
    · rintro ⟨-, anchor', fault', span', hd', h⟩
      rw [hd] at hd'
      cases hd'
      exact h

theorem placed_of_about (hs : Stands source.toList line l.span)
    (hline : l.directive = directiveOf l.span.start line) (h : About s l f) :
    Placed source l line f := by
  cases h with
  | clause hd => exact placed_of_clause hs hline hd
  | undefinedAlias => exact placed_of_span_eq hs rfl DiagnosticKind.noConfusion
  | ignoredLoop => exact placed_of_span_eq hs rfl DiagnosticKind.noConfusion
  | missingContext => exact placed_of_span_eq hs rfl DiagnosticKind.noConfusion
  | unterminatedLoop => exact placed_of_span_eq hs rfl DiagnosticKind.noConfusion
  | invalidAnchor => exact placed_of_span_eq hs rfl DiagnosticKind.noConfusion
  | invalidRule => exact placed_of_span_eq hs rfl DiagnosticKind.noConfusion

/-- **A finding points into the line that it is about.** -/
theorem exists_placed_of_mem_check (hf : f ∈ (read source).check) :
    ∃ l ∈ (read source).lines, ∃ line, Stands source.toList line l.span ∧
      (∀ c ∈ line.getLast?, endsLine c = false) ∧ l.directive = directiveOf l.span.start line ∧
      About (read source) l f ∧ Placed source l line f := by
  obtain ⟨l, hl, habout⟩ := exists_about_of_mem_findings ((perm_check _).mem_iff.mp hf)
  obtain ⟨line, hs, hlast, hline⟩ := exists_of_mem_lines hl
  exact ⟨l, hl, line, hs, hlast, hline, habout, placed_of_about hs hline habout⟩

/-- **Findings are reported in the order in which they start, and each points into the line that it
is about.** Both of its ends lie between characters. It runs backwards in one case only: the end of
the line cuts a clause off, and something behind the last token of the line is none. -/
theorem check_placed (source : String) :
    let s := read source
    (s.check.Pairwise fun a b => a.span.start ≤ b.span.start) ∧
      ∀ f ∈ s.check, ∃ l ∈ s.lines, ∃ line, Stands source.toList line l.span ∧
        l.directive = directiveOf l.span.start line ∧ About s l f ∧ Placed source l line f := by
  refine ⟨pairwise_check source, ?_⟩
  intro f hf
  obtain ⟨l, hl, line, hs, -, hline, habout, hplaced⟩ := exists_placed_of_mem_check hf
  exact ⟨l, hl, line, hs, hline, habout, hplaced⟩

/-- A brace in the place of the parenthesis is no token, so a line that ends with it is pointed at
backwards. -/
theorem check_runs_back : ∃ f ∈ (read ".a|before = foreach \x7b\n<p>").check,
    f.kind = .malformedForeach ∧ f.span.stop < f.span.start := by
  obtain ⟨f, hf, hback⟩ : ∃ f ∈ (read ".a|before = foreach \x7b\n<p>").findings,
      f.kind = .malformedForeach ∧ f.span.stop < f.span.start := by
    decide +kernel
  exact ⟨f, (perm_check _).mem_iff.mpr hf, hback⟩

end Stencil.Script

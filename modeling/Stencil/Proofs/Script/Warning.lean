import Stencil.Proofs.Report.Location
import Stencil.Proofs.Script.Placement
import Stencil.Script.Warning

/-!
# Where the warning about a finding points

A finding says at which byte of the template it starts, and its warning names the place that is as
many characters into the template. So the warning names the place of the finding exactly if every
character before it is a single byte and the finding does not reach, in the same count, behind the
end of the template; otherwise it names a place further on, or none (`pointsTo_exact`).
-/

namespace Stencil.Script
open Text Report

variable {s : Template} {l : Line} {f : Diagnostic} {source filename : String} {cs : List Char}
  {line column : Nat}

/-! ## Bytes and characters -/

theorem length_le_byteLength (cs : List Char) : cs.length ≤ byteLength cs := by
  induction cs with
  | nil => exact Nat.le_refl _
  | cons c cs ih =>
    have := c.utf8Size_pos
    rw [byteLength_cons, List.length_cons]
    omega

/-- A text has as many bytes as characters if each of them is a single byte. -/
theorem byteLength_eq_length_iff : byteLength cs = cs.length ↔ ∀ c ∈ cs, c.utf8Size = 1 := by
  induction cs with
  | nil => exact iff_of_true rfl fun _ h => nomatch h
  | cons c cs ih =>
    have := c.utf8Size_pos
    have := length_le_byteLength cs
    rw [byteLength_cons, List.length_cons, List.forall_mem_cons, ← ih]
    omega

/-! ## The place of a finding -/

theorem About.directive_ne_verbatim (h : About s l f) : l.directive ≠ .verbatim := by
  intro hl
  cases h with
  | clause hd => rw [hl] at hd; cases hd
  | undefinedAlias hd => rw [hl] at hd; cases hd
  | invalidRule _ _ hd => rw [hl] at hd; cases hd
  | ignoredLoop hd => obtain ⟨_, _, hd⟩ := hd; rw [hl] at hd; cases hd
  | missingContext hd => obtain ⟨_, _, hd⟩ := hd; rw [hl] at hd; cases hd
  | unterminatedLoop hd => obtain ⟨_, _, hd⟩ := hd; rw [hl] at hd; cases hd
  | invalidAnchor hd => obtain ⟨_, _, hd⟩ := hd; rw [hl] at hd; cases hd

/-- A finding starts between two characters, and not behind the line feed that ends the template. -/
theorem exists_inside_of_mem_check (hf : f ∈ (read source).check) :
    ∃ before after, source.toList = before ++ after ∧ byteLength before = f.span.start ∧
      Inside before after := by
  obtain ⟨l, hl, line, hs, hlast, hline, habout, hplaced⟩ := exists_placed_of_mem_check hf
  obtain ⟨before, after, hsource, hstart⟩ := isValid_iff_boundary.mp hplaced.start_isValid
  refine ⟨before, after, hsource, hstart.symm, ?_⟩
  cases after with
  | cons c after => exact .inl (List.cons_ne_nil _ _)
  | nil =>
    -- The template ends where its last line ends, and that line does not end in a line feed.
    rw [List.append_nil] at hsource
    obtain ⟨front, behind, htext, hspan⟩ := hs
    have hne : line ≠ [] := by
      rintro rfl
      exact habout.directive_ne_verbatim hline
    have hbehind : behind = [] := by
      by_contra hbehind
      have hpos := byteLength_pos hbehind
      have hle := hplaced.between.2.1
      rw [hstart, hspan, ← hsource, htext, byteLength_append (front ++ line)] at hle
      dsimp only at hle
      omega
    rw [hbehind, List.append_nil] at htext
    have hc := List.getLast?_eq_some_getLast hne
    refine .inr ⟨line.getLast hne, ?_, ?_⟩
    · rw [← hsource, htext, List.getLast?_append, hc]
      rfl
    · intro hfeed
      have hends := hlast _ hc
      rw [hfeed] at hends
      cases hends

/-! ## The place that a warning names -/

/-- The warning about a finding names a place in a file. -/
def Diagnostic.PointsTo (f : Diagnostic) (source filename : String) (line column : Nat) : Prop :=
  Locates (f.warning source filename) s!"[{f.kind.name}] {f.message}" filename line column

theorem pointsTo_iff : f.PointsTo source filename line column ↔
    placeAt? (rowsOf source) f.span.start = some (line, column) ∧
      (f.span.start < f.span.stop → f.span.stop ≤ source.length + 1) :=
  locates_warning_iff _ _ _ _

/-- **A warning points as many characters into the template as its finding starts bytes into it.**
That is the place of the finding exactly if all characters before it are single bytes. A finding
that reaches, in this count, behind the end of the template has no place in its warning. -/
theorem pointsTo_exact (filename : String) (hfeeds : FeedsOnly source.toList)
    (hf : f ∈ (read source).check) (hforward : f.span.start ≤ f.span.stop) :
    ∃ before after, source.toList = before ++ after ∧ byteLength before = f.span.start ∧
      (f.PointsTo source filename (lineNumber before) (columnNumber before) ↔
        (∀ c ∈ before, c.utf8Size = 1) ∧ f.span.stop ≤ source.length + 1) ∧
      (f.span.start < source.length → f.span.stop ≤ source.length + 1 →
        f.PointsTo source filename (lineNumber (source.toList.take f.span.start))
          (columnNumber (source.toList.take f.span.start))) ∧
      (source.length < f.span.start ∨ source.length + 1 < f.span.stop →
        ∀ line column, ¬ f.PointsTo source filename line column) := by
  obtain ⟨before, after, hsource, hstart, hinside⟩ := exists_inside_of_mem_check hf
  have hplace := placeAt?_append hsource hfeeds hinside
  have hlength : before.length ≤ source.length := by
    rw [← String.length_toList, hsource, List.length_append]
    exact Nat.le_add_right _ _
  refine ⟨before, after, hsource, hstart, ?_, ?_, ?_⟩
  · rw [← byteLength_eq_length_iff, hstart, pointsTo_iff]
    constructor
    · rintro ⟨hpoints, hstop⟩
      have heq : f.span.start = before.length := placeAt?_inj hpoints hplace
      refine ⟨heq, ?_⟩
      by_cases hempty : f.span.start < f.span.stop
      · exact hstop hempty
      · omega
    · rintro ⟨heq, hstop⟩
      exact ⟨heq ▸ hplace, fun _ => hstop⟩
  · intro hlt hstop
    have htake : (source.toList.take f.span.start).length = f.span.start := by
      rw [List.length_take, String.length_toList, Nat.min_eq_left (Nat.le_of_lt hlt)]
    have hdrop : source.toList.drop f.span.start ≠ [] := by
      rw [Ne, List.drop_eq_nil_iff, String.length_toList]
      exact Nat.not_le.mpr hlt
    have htaken := placeAt?_append (List.take_append_drop f.span.start source.toList).symm hfeeds
      (.inl hdrop)
    rw [htake] at htaken
    exact pointsTo_iff.mpr ⟨htaken, fun _ => hstop⟩
  · intro hout line column hpoints
    obtain ⟨hplace', hstop⟩ := pointsTo_iff.mp hpoints
    obtain ⟨index, hindex, -⟩ := Option.map_eq_some_iff.mp hplace'
    have hle : f.span.start ≤ source.length :=
      isSome_rowAt?_iff.mp (Option.isSome_of_eq_some hindex)
    omega

/-- A finding behind an accented letter, whose two bytes count as two characters. -/
def accented : String := "// café\n@x|before = y\n<p></p>"

/-- The finding about it. -/
def accentedFinding : Diagnostic :=
  ⟨.undefinedAlias, "'@x' is not defined by any '@name = selector' line", ⟨9, 22⟩⟩

theorem mem_check_accented : accentedFinding ∈ (read accented).check := by
  rw [(perm_check _).mem_iff]
  decide +kernel

theorem pointsTo_accented : FeedsOnly accented.toList ∧
    accentedFinding ∈ (read accented).check ∧
    accentedFinding.span.start ≤ accentedFinding.span.stop ∧
    ∃ before after, accented.toList = before ++ after ∧
      byteLength before = accentedFinding.span.start ∧
      (accentedFinding.PointsTo accented "t.tpl" (lineNumber before) (columnNumber before) ↔
        (∀ c ∈ before, c.utf8Size = 1) ∧ accentedFinding.span.stop ≤ accented.length + 1) ∧
      (accentedFinding.span.start < accented.length →
        accentedFinding.span.stop ≤ accented.length + 1 →
        accentedFinding.PointsTo accented "t.tpl"
          (lineNumber (accented.toList.take accentedFinding.span.start))
          (columnNumber (accented.toList.take accentedFinding.span.start))) ∧
      (accented.length < accentedFinding.span.start ∨
          accented.length + 1 < accentedFinding.span.stop →
        ∀ line column, ¬ accentedFinding.PointsTo accented "t.tpl" line column) := by
  have hfeeds : FeedsOnly accented.toList := by simp [FeedsOnly, accented, breaksRow]
  have hforward : accentedFinding.span.start ≤ accentedFinding.span.stop := by decide
  exact ⟨hfeeds, mem_check_accented, hforward,
    pointsTo_exact "t.tpl" hfeeds mem_check_accented hforward⟩

/-- The finding starts in the first column of the second line, and its warning points at the
second. -/
theorem accented_points_aside : ∃ before after, accented.toList = before ++ after ∧
    byteLength before = accentedFinding.span.start ∧ accentedFinding ∈ (read accented).check ∧
    (lineNumber before, columnNumber before) = (2, 1) ∧
    accentedFinding.PointsTo accented "t.tpl" 2 2 ∧
    ¬ accentedFinding.PointsTo accented "t.tpl" 2 1 := by
  refine ⟨"// café\n".toList, "@x|before = y\n<p></p>".toList, by decide +kernel,
    by decide +kernel, mem_check_accented, by decide +kernel, ?_, ?_⟩
  · rw [pointsTo_iff]
    decide +kernel
  · rw [pointsTo_iff]
    decide +kernel

end Stencil.Script

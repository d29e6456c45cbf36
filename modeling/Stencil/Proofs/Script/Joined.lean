import Stencil.Proofs.Script.Inert
import Stencil.Script.Diagnostic

/-!
# Scripts one behind the other

A line is read without regard to the lines around it, and all that its place decides are the spans
that it reports. So lines put in front of a script come in front of its directives and findings, and
these move up by the bytes of the new lines (`read_append`). Every offset is counted from the start
of the text: that of a line from the lines before it, that of a fault from its line and the blanks
in front.
-/

namespace Stencil.Script
open Text

variable {cs : List Char} {upper lower : String}

/-! ## Moving up -/

/-- The declaration with its fault moved up. -/
def Declaration.shift (offset : Nat) : Declaration → Declaration
  | .loop (.error (fault, span)) => .loop (.error (fault, span.shift offset))
  | d => d

/-- The directive with its fault moved up. -/
def Directive.shift (offset : Nat) : Directive → Directive
  | .beforeLine anchor declaration => .beforeLine anchor (declaration.shift offset)
  | d => d

/-- The line moved up. -/
def Line.shift (offset : Nat) (l : Line) : Line := ⟨l.directive.shift offset, l.span.shift offset⟩

/-- The finding moved up. -/
def Diagnostic.shift (offset : Nat) (d : Diagnostic) : Diagnostic :=
  { d with span := d.span.shift offset }

theorem Span.shift_shift (s : Span) (m n : Nat) : (s.shift m).shift n = s.shift (m + n) := by
  simp only [Span.shift, Nat.add_assoc]

/-- A declaration is read from its line; only the place of a fault depends on where that is. -/
theorem declarationOf_add (base offset : Nat) (line : List Char) :
    declarationOf (base + offset) line = (declarationOf base line).shift offset := by
  unfold declarationOf
  split
  · cases clauseOf (String.ofList line) with
    | ok clause => rfl
    | error e =>
      show Declaration.loop (.error (e.1, e.2.shift (base + offset))) = _
      rw [← Span.shift_shift]
      rfl
  · rfl

theorem plainDirective_add (base offset : Nat) (line : List Char) :
    plainDirective (base + offset) line = (plainDirective base line).shift offset := by
  unfold plainDirective
  split
  · rw [declarationOf_add]
    rfl
  · split
    · rfl
    · split
      · next left right _ =>
        cases h : assignment (trim left) (trim right) with
        | beforeLine anchor declaration => exact absurd h (assignment_ne_beforeLine _ _ _ _)
        | _ => rfl
      · rfl

theorem directiveOf_add (position offset : Nat) (line : List Char) :
    directiveOf (position + offset) line = (directiveOf position line).shift offset := by
  unfold directiveOf
  dsimp only
  split
  · rfl
  · split
    · rfl
    · rw [Nat.add_right_comm, plainDirective_add]

theorem readLines_add (position offset : Nat) (raws : List (List Char)) :
    readLines (position + offset) raws = (readLines position raws).map (Line.shift offset) := by
  induction raws generalizing position with
  | nil => rfl
  | cons raw rest ih =>
    have hnext : position + offset + byteLength raw = position + byteLength raw + offset :=
      Nat.add_right_comm position offset (byteLength raw)
    rw [readLines, readLines, List.map_cons, hnext, ih, directiveOf_add, Line.shift, Span.shift,
      Nat.add_right_comm position offset]

theorem clauseFinding?_shift (offset : Nat) (l : Line) :
    clauseFinding? (l.shift offset) = (clauseFinding? l).map (Diagnostic.shift offset) := by
  obtain ⟨directive, span⟩ := l
  match directive with
  | .beforeLine _ (.loop (.error _)) => rfl
  | .beforeLine _ (.loop (.ok _)) => rfl
  | .beforeLine _ .unrelated => rfl
  | .aliasLine _ _ => rfl
  | .afterLine _ => rfl
  | .contextLine _ => rfl
  | .ruleLine _ => rfl
  | .verbatim => rfl

/-! ## Lines one behind the other -/

/-- The lines behind a line feed do not depend on what is before it. -/
theorem splitLines_append_of_getLast? (hend : cs.getLast? = some '\n') (rest : List Char) :
    splitLines (cs ++ rest) = splitLines cs ++ splitLines rest := by
  induction cs with
  | nil => cases hend
  | cons c cs ih =>
    rcases cs with _ | ⟨d, ds⟩
    · obtain rfl : c = '\n' := by simpa using hend
      rfl
    · rw [List.getLast?_cons_cons] at hend
      by_cases hc : c = '\n'
      · subst hc
        rw [List.cons_append, splitLines, splitLines, ih hend, List.cons_append]
      · -- the first line goes on, and there is one
        obtain ⟨line, lines, hlines⟩ : ∃ line lines, splitLines (d :: ds) = line :: lines := by
          cases h : splitLines (d :: ds) with
          | nil =>
            have hflat := flatten_splitLines (d :: ds)
            rw [h] at hflat
            cases hflat
          | cons line lines => exact ⟨line, lines, rfl⟩
        rw [List.cons_append, splitLines_cons hc, splitLines_cons hc, ih hend, hlines]
        rfl

theorem readLines_append (position : Nat) (raws more : List (List Char)) :
    readLines position (raws ++ more) =
      readLines position raws ++ readLines (position + byteLength raws.flatten) more := by
  induction raws generalizing position with
  | nil => rfl
  | cons raw rest ih =>
    rw [List.cons_append, readLines, readLines, ih, List.flatten_cons, byteLength_append,
      Nat.add_assoc]
    rfl

/-! ## Two scripts -/

/-- **A script is read line by line.** Lines without markup in front of a script stand in front of
its directives and of its findings about clauses; these move up by the bytes of those lines, and the
skeleton stays. -/
theorem read_append (hmarkup : '<' ∉ upper.toList) (hend : upper.toList.getLast? = some '\n') :
    (read (upper ++ lower)).lines =
        (read upper).lines ++ (read lower).lines.map (Line.shift upper.utf8ByteSize) ∧
      (read (upper ++ lower)).lines.filterMap clauseFinding? =
        (read upper).lines.filterMap clauseFinding? ++
          ((read lower).lines.filterMap clauseFinding?).map (Diagnostic.shift upper.utf8ByteSize) ∧
      (read (upper ++ lower)).skeleton = (read lower).skeleton := by
  have hall : ∀ c ∈ upper.toList, (c != '<') = true := by
    intro c hc
    exact bne_iff_ne.mpr fun h => hmarkup (h ▸ hc)
  have hregion : (upper ++ lower).toList.takeWhile (· != '<') =
      upper.toList ++ lower.toList.takeWhile (· != '<') := by
    rw [String.toList_append, List.takeWhile_append_of_pos hall]
  have hupper : upper.toList.takeWhile (· != '<') = upper.toList :=
    List.takeWhile_eq_self_iff.mpr hall
  have hsize : byteLength (splitLines upper.toList).flatten = upper.utf8ByteSize := by
    rw [flatten_splitLines, ← utf8ByteSize_ofList, String.ofList_toList]
  have hlines : (read (upper ++ lower)).lines =
      (read upper).lines ++ (read lower).lines.map (Line.shift upper.utf8ByteSize) := by
    rw [read, read, read, hregion, hupper, splitLines_append_of_getLast? hend, readLines_append,
      hsize, readLines_add]
  refine ⟨hlines, ?_, ?_⟩
  · rw [hlines, List.filterMap_append, List.filterMap_map, List.map_filterMap]
    congr 2
    funext l
    exact clauseFinding?_shift _ l
  · rw [read, read, String.toList_append, List.dropWhile_append_of_pos hall]

/-- A script with a byte of carriage return and a letter of two bytes. -/
def notes : String := "@é = li\r\n  ul|before = foreach $x\r\n"

/-- The clause of the second script is at fault 36 bytes further down. -/
theorem read_append_notes :
    '<' ∉ notes.toList ∧ notes.toList.getLast? = some '\n' ∧
      ((read (notes ++ "ol|before = foreach (1)\n<p>")).lines.filterMap clauseFinding?).map
        (fun d => (d.span.start, d.span.stop)) = [(32, 34), (57, 58)] ∧
      (read (notes ++ "ol|before = foreach (1)\n<p>")).skeleton = "<p>" := by
  have hmarkup : '<' ∉ notes.toList := by decide +kernel
  have hend : notes.toList.getLast? = some '\n' := by decide +kernel
  obtain ⟨-, hfindings, hskeleton⟩ :=
    @read_append notes "ol|before = foreach (1)\n<p>" hmarkup hend
  refine ⟨hmarkup, hend, ?_, ?_⟩
  · rw [hfindings]
    decide +kernel
  · rw [hskeleton]
    decide +kernel

end Stencil.Script

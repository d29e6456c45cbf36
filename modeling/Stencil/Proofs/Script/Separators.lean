import Mathlib.Data.Bool.AllAny
import Stencil.Proofs.Script.Joined
import Stencil.Proofs.Text.Cutting

/-!
# Rule and alias lines

A rule or alias line is cut at its first `=`, and what is before that at its first bar. Selectors
hold both characters themselves, but only inside brackets, parentheses and quotes (`Sealed`), and the
cutter steps over such a text as a whole (`splitFrom?_append_of_sealed`). So a line is put apart into
the selector, the action and the expression that it was put together from, whatever blanks are around
them and wherever it stands among the directives (`classifies_parts`).
-/

namespace Stencil.Script
open Text

variable {separators s t w line rest before behind : List Char} {depth position : Nat}
  {needle c : Char}

/-! ## Sealed texts -/

/-- The characters that open and close brackets, parentheses and quotes. -/
def marks : List Char := ['\'', '"', '[', ']', '(', ')']

/-- In the text every quote is closed, brackets and parentheses outside quotes are balanced, and the
separators stand inside brackets, parentheses or quotes. Before the text `depth` brackets and
parentheses are open; the two kinds are counted together, so their pairs may even cross. -/
inductive Sealed (separators : List Char) : Nat → List Char → Prop
  | nil : Sealed separators 0 []
  | quoted {depth : Nat} {quote : Char} {inner rest : List Char} (hquote : quote = '\'' ∨ quote = '"')
      (hinner : quote ∉ inner) (hrest : Sealed separators depth rest) :
      Sealed separators depth (quote :: (inner ++ quote :: rest))
  | opens {depth : Nat} {c : Char} {rest : List Char} (hc : c = '[' ∨ c = '(')
      (hrest : Sealed separators (depth + 1) rest) : Sealed separators depth (c :: rest)
  | closes {depth : Nat} {c : Char} {rest : List Char} (hc : c = ']' ∨ c = ')')
      (hrest : Sealed separators depth rest) : Sealed separators (depth + 1) (c :: rest)
  | other {depth : Nat} {c : Char} {rest : List Char} (hc : c ∉ marks)
      (hinside : c ∈ separators → 0 < depth) (hrest : Sealed separators depth rest) :
      Sealed separators depth (c :: rest)

namespace Sealed

theorem append (h : Sealed separators depth s) (ht : Sealed separators 0 t) :
    Sealed separators depth (s ++ t) := by
  induction h with
  | nil => exact ht
  | quoted hquote hinner _ ih =>
    rw [List.cons_append, List.append_assoc, List.cons_append]
    exact .quoted hquote hinner ih
  | opens hc _ ih => exact .opens hc ih
  | closes hc _ ih => exact .closes hc ih
  | other hc hinside _ ih => exact .other hc hinside ih

/-- With fewer separators less has to stand inside. -/
theorem mono {fewer : List Char} (h : Sealed separators depth s) (hsub : fewer ⊆ separators) :
    Sealed fewer depth s := by
  induction h with
  | nil => exact .nil
  | quoted hquote hinner _ ih => exact .quoted hquote hinner ih
  | opens hc _ ih => exact .opens hc ih
  | closes hc _ ih => exact .closes hc ih
  | other hc hinside _ ih => exact .other hc (fun h => hinside (hsub h)) ih

/-- A word of other characters is sealed. -/
theorem word (h : ∀ c ∈ w, c ∉ marks ∧ (c ∈ separators → 0 < depth))
    (hrest : Sealed separators depth rest) : Sealed separators depth (w ++ rest) := by
  induction w with
  | nil => exact hrest
  | cons c w ih =>
    obtain ⟨hc, hw⟩ := List.forall_mem_cons.mp h
    exact .other hc.1 hc.2 (ih hw)

end Sealed

/-! ## Stepping over a sealed text -/

/-- The same cut with a text in front. -/
def infront (s : List Char) (cut : List Char × List Char) : List Char × List Char :=
  (s ++ cut.1, cut.2)

theorem splitFrom?_cons_of_ne {n : Nesting} (h : ¬ (c = needle ∧ n.quote = none ∧ n.depth = 0))
    (cs : List Char) :
    splitFrom? needle n (c :: cs) = (splitFrom? needle (n.after c) cs).map (infront [c]) := by
  rw [splitFrom?, if_neg h]
  rfl

/-- A quoted text is stepped over up to its closing quote. -/
theorem splitFrom?_inner {quote : Char} {inner : List Char} (h : quote ∉ inner) (cs : List Char) :
    splitFrom? needle ⟨depth, some quote⟩ (inner ++ quote :: cs) =
      (splitFrom? needle ⟨depth, none⟩ cs).map (infront (inner ++ [quote])) := by
  induction inner with
  | nil =>
    rw [List.nil_append, splitFrom?_cons_of_ne (by simp), Nesting.after]
    dsimp only
    rw [if_pos rfl]
    rfl
  | cons c inner ih =>
    rw [List.mem_cons, not_or] at h
    rw [List.cons_append, splitFrom?_cons_of_ne (by simp), Nesting.after]
    dsimp only
    rw [if_neg (Ne.symm h.1), ih h.2, Option.map_map]
    rfl

/-- **A sealed text is stepped over as a whole.** -/
theorem splitFrom?_append_of_sealed (hmem : needle ∈ separators) (hmark : needle ∉ marks)
    (h : Sealed separators depth s) (cs : List Char) :
    splitFrom? needle ⟨depth, none⟩ (s ++ cs) =
      (splitFrom? needle ⟨0, none⟩ cs).map (infront s) := by
  have hne : ∀ {c}, c ∈ marks → ∀ n : Nesting, ¬ (c = needle ∧ n.quote = none ∧ n.depth = 0) :=
    fun hc n h => hmark (h.1 ▸ hc)
  induction h with
  | nil => exact Option.map_id'.symm
  | @quoted depth quote inner rest hquote hinner _ ih =>
    have hquoteMark : quote ∈ marks := by rcases hquote with rfl | rfl <;> decide
    have hafter : Nesting.after ⟨depth, none⟩ quote = ⟨depth, some quote⟩ := by
      rw [Nesting.after]
      exact if_pos hquote
    rw [List.cons_append, List.append_assoc, List.cons_append,
      splitFrom?_cons_of_ne (hne hquoteMark _), hafter, splitFrom?_inner hinner, ih, Option.map_map,
      Option.map_map]
    refine congrArg (Option.map · _) ?_
    funext cut
    simp [infront]
  | @opens depth c rest hc _ ih =>
    have hcMark : c ∈ marks := by rcases hc with rfl | rfl <;> decide
    have hafter : Nesting.after ⟨depth, none⟩ c = ⟨depth + 1, none⟩ := by
      rcases hc with rfl | rfl <;> rfl
    rw [List.cons_append, splitFrom?_cons_of_ne (hne hcMark _), hafter, ih, Option.map_map]
    rfl
  | @closes depth c rest hc _ ih =>
    have hcMark : c ∈ marks := by rcases hc with rfl | rfl <;> decide
    have hafter : Nesting.after ⟨depth + 1, none⟩ c = ⟨depth, none⟩ := by
      rcases hc with rfl | rfl <;> rfl
    rw [List.cons_append, splitFrom?_cons_of_ne (hne hcMark _), hafter, ih, Option.map_map]
    rfl
  | @other depth c rest hc hinside _ ih =>
    have hskip : ¬ (c = needle ∧ (⟨depth, none⟩ : Nesting).quote = none ∧ depth = 0) :=
      fun h => Nat.ne_of_gt (hinside (h.1 ▸ hmem)) h.2.2
    have hafter : Nesting.after ⟨depth, none⟩ c = ⟨depth, none⟩ := by
      simp only [marks, List.mem_cons, List.not_mem_nil, or_false, not_or] at hc
      simp [Nesting.after, hc]
    rw [List.cons_append, splitFrom?_cons_of_ne hskip, hafter, ih, Option.map_map]
    rfl

/-- **A line is cut behind a sealed text.** -/
theorem splitTop?_append_of_sealed (hmem : needle ∈ separators) (hmark : needle ∉ marks)
    (h : Sealed separators 0 s) (cs : List Char) :
    splitTop? needle (s ++ needle :: cs) = some (s, cs) := by
  rw [splitTop?, splitFrom?_append_of_sealed hmem hmark h, splitFrom?, if_pos ⟨rfl, rfl, rfl⟩,
    Option.map_some, infront, List.append_nil]

/-- A sealed text is not cut. -/
theorem splitTop?_of_sealed (hmem : needle ∈ separators) (hmark : needle ∉ marks)
    (h : Sealed separators 0 s) : splitTop? needle s = none := by
  have := splitFrom?_append_of_sealed hmem hmark h []
  rwa [List.append_nil] at this

/-! ## Lines of a script -/

/-- A line stands in the directive region of a text and starts at the byte offset `position`: whole
lines without markup come before it, and a line end, the markup or nothing behind it. -/
def IsLineAt (source line : List Char) (position : Nat) : Prop :=
  ∃ before ending behind, source = before ++ (line ++ (ending ++ behind)) ∧ '<' ∉ before ∧
    (∀ c ∈ before.getLast?, c = '\n') ∧ (∀ c ∈ ending, c = '\r') ∧
    (∀ c ∈ behind.head?, c = '\n' ∨ c = '<') ∧ position = byteLength before

/-- A line between two others, which may end in carriage returns. -/
theorem isLineAt_between {front ending : List Char} (hfront : '<' ∉ front)
    (hending : ∀ c ∈ ending, c = '\r') (rest : List Char) :
    IsLineAt (front ++ '\n' :: (line ++ (ending ++ '\n' :: rest))) line (byteLength front + 1) := by
  refine ⟨front ++ ['\n'], ending, '\n' :: rest, List.append_cons _ _ _, ?_, ?_, hending, ?_, ?_⟩
  · simpa using hfront
  · simp
  · simp
  · rw [byteLength_append]
    rfl

/-- The first line of a region, whatever comes behind it. -/
theorem head?_readLines_splitLines {ending behind : List Char} (hne : line ≠ [])
    (hfeed : '\n' ∉ line) (hlast : ∀ c ∈ line.getLast?, endsLine c = false)
    (hending : ∀ c ∈ ending, c = '\r') (hbehind : ∀ c ∈ behind.head?, c = '\n') (position : Nat) :
    (readLines position (splitLines (line ++ (ending ++ behind)))).head? =
      some ⟨directiveOf position line, ⟨position, position + byteLength line⟩⟩ := by
  have hfeed' : '\n' ∉ line ++ ending := by
    rw [List.mem_append, not_or]
    exact ⟨hfeed, fun h => absurd (hending _ h) (by decide)⟩
  obtain ⟨tail, more, htail, hsplit⟩ : ∃ tail more, (∀ c ∈ tail, endsLine c = true) ∧
      splitLines (line ++ (ending ++ behind)) = (line ++ tail) :: more := by
    rw [← List.append_assoc]
    cases behind with
    | nil =>
      refine ⟨ending, [], fun c hc => ?_, ?_⟩
      · rw [hending c hc]
        rfl
      · rw [List.append_nil]
        exact splitLines_of_not_mem hfeed' (List.append_ne_nil_of_left_ne_nil hne _)
    | cons c behind =>
      obtain rfl := hbehind c rfl
      refine ⟨ending ++ ['\n'], splitLines behind, fun c hc => ?_, ?_⟩
      · rcases List.mem_append.mp hc with hc | hc
        · rw [hending c hc]
          rfl
        · rw [List.mem_singleton.mp hc]
          rfl
      · rw [splitLines_append hfeed', List.append_assoc]
  rw [hsplit, readLines, dropWhileEnd_append_of_forall htail, dropWhileEnd_of_getLast? hlast]
  rfl

/-- The line that starts at the byte offset `position` is read as the directive. -/
def Classifies (source : String) (line : List Char) (position : Nat) (directive : Directive) : Prop :=
  ⟨directive, ⟨position, position + byteLength line⟩⟩ ∈ (read source).lines

/-- The text neither starts markup nor ends a line. -/
def Unbroken (cs : List Char) : Prop := ∀ c ∈ cs, c ≠ '<' ∧ c ≠ '\n'

instance (cs : List Char) : Decidable (Unbroken cs) :=
  List.decidableBAll (fun c => c ≠ '<' ∧ c ≠ '\n') cs

/-- **A line of the directive region is a line of the script.** -/
theorem classifies_of_isLineAt {source : String} (h : IsLineAt source.toList line position)
    (hne : line ≠ []) (hline : Unbroken line) (hlast : ∀ c ∈ line.getLast?, endsLine c = false) :
    Classifies source line position (directiveOf position line) := by
  obtain ⟨before, ending, behind, hsource, hfree, hbefore, hending, hbehind, rfl⟩ := h
  have hfront : ∀ c ∈ before ++ (line ++ ending), (c != '<') = true := by
    intro c hc
    rw [bne_iff_ne]
    rintro rfl
    simp only [List.mem_append] at hc
    rcases hc with hc | hc | hc
    · exact hfree hc
    · exact (hline _ hc).1 rfl
    · exact absurd (hending _ hc) (by decide)
  have hregion : source.toList.takeWhile (· != '<') =
      before ++ (line ++ (ending ++ behind.takeWhile (· != '<'))) := by
    rw [hsource, ← List.append_assoc line, ← List.append_assoc before,
      List.takeWhile_append_of_pos hfront, List.append_assoc, List.append_assoc]
  have hbehind' : ∀ c ∈ (behind.takeWhile (· != '<')).head?, c = '\n' := by
    intro c hc
    cases behind with
    | nil => cases hc
    | cons d behind =>
      rcases hbehind d rfl with rfl | rfl
      · exact (Option.some.inj hc).symm
      · cases hc
  have hlines : splitLines (before ++ (line ++ (ending ++ behind.takeWhile (· != '<')))) =
      splitLines before ++ splitLines (line ++ (ending ++ behind.takeWhile (· != '<'))) := by
    rcases List.eq_nil_or_concat before with rfl | ⟨front, c, rfl⟩
    · rfl
    · refine splitLines_append_of_getLast? ?_ _
      rw [List.concat_eq_append, List.getLast?_concat] at hbefore ⊢
      rw [hbefore c rfl]
  have hfeed : '\n' ∉ line := fun hc => (hline _ hc).2 rfl
  rw [Classifies, read, hregion]
  dsimp only
  rw [hlines, readLines_append, flatten_splitLines, Nat.zero_add]
  exact List.mem_append_right _
    (List.mem_of_head? (head?_readLines_splitLines hne hfeed hlast hending hbehind' _))

/-! ## Rule and alias lines -/

/-- Nothing but spaces and tabs. -/
def IsPad (cs : List Char) : Prop := ∀ c ∈ cs, c = ' ' ∨ c = '\t'

instance (cs : List Char) : Decidable (IsPad cs) :=
  List.decidableBAll (fun c => c = ' ' ∨ c = '\t') cs

/-- The text with any spaces and tabs around it. -/
def Padded (text padded : List Char) : Prop :=
  ∃ front back, padded = front ++ (text ++ back) ∧ IsPad front ∧ IsPad back

namespace IsPad

variable {pad : List Char}

theorem isBlank (h : IsPad pad) : ∀ c ∈ pad, isBlank c = true := by
  intro c hc
  rcases h c hc with rfl | rfl <;> decide

theorem unbroken (h : IsPad pad) : Unbroken pad := by
  intro c hc
  rcases h c hc with rfl | rfl <;> decide

theorem sealing (h : IsPad pad) : Sealed ['=', '|'] 0 pad := by
  rw [← List.append_nil pad]
  refine .word (fun c hc => ?_) .nil
  rcases h c hc with rfl | rfl <;> simp [marks]

theorem endsLine_getLast? (h : IsPad pad) : ∀ c ∈ pad.getLast?, endsLine c = false := by
  intro c hc
  rcases h c (List.mem_of_getLast? hc) with rfl | rfl <;> rfl

end IsPad

/-- What ends a joined text ends one of its parts. -/
theorem forall_getLast?_append {P : Char → Prop} (hs : ∀ c ∈ s.getLast?, P c)
    (ht : ∀ c ∈ t.getLast?, P c) : ∀ c ∈ (s ++ t).getLast?, P c := by
  intro c hc
  rw [List.getLast?_append] at hc
  cases hlast : t.getLast? with
  | none =>
    rw [hlast] at hc
    exact hs c hc
  | some d =>
    rw [hlast] at hc
    exact ht c (hlast.trans hc)

/-- A trimmed text does not end in a line end. -/
theorem endsLine_getLast?_of_trim (h : trim s = s) : ∀ c ∈ s.getLast?, endsLine c = false := by
  intro c hc
  have hblank := isBlank_getLast?_of_trim h hc
  rw [Bool.eq_false_iff]
  intro hends
  simp only [endsLine, Bool.or_eq_true, beq_iff_eq] at hends
  rcases hends with rfl | rfl <;> exact absurd hblank (by decide)

namespace Padded

variable {text padded : List Char}

theorem trim_eq (h : Padded text padded) : trim padded = trim text := by
  obtain ⟨front, back, rfl, hfront, hback⟩ := h
  rw [trim_of_forall_append hfront.isBlank, trim_append_of_forall hback.isBlank]

theorem unbroken (h : Padded text padded) (htext : Unbroken text) : Unbroken padded := by
  obtain ⟨front, back, rfl, hfront, hback⟩ := h
  exact List.forall_mem_append.mpr
    ⟨hfront.unbroken, List.forall_mem_append.mpr ⟨htext, hback.unbroken⟩⟩

theorem sealing (h : Padded text padded) (htext : Sealed ['=', '|'] 0 text) :
    Sealed ['=', '|'] 0 padded := by
  obtain ⟨front, back, rfl, hfront, hback⟩ := h
  exact hfront.sealing.append (htext.append hback.sealing)

theorem endsLine_getLast? (h : Padded text padded) (htext : trim text = text) :
    ∀ c ∈ padded.getLast?, endsLine c = false := by
  obtain ⟨front, back, rfl, hfront, hback⟩ := h
  exact forall_getLast?_append hfront.endsLine_getLast?
    (forall_getLast?_append (endsLine_getLast?_of_trim htext) hback.endsLine_getLast?)

end Padded

/-- A letter, a digit, an underscore or a hyphen. -/
def isLabelChar (c : Char) : Bool := isLetter c || isDigit c || c == '_' || c == '-'

/-- A run of letters, digits, underscores and hyphens. -/
def IsLabel (cs : List Char) : Prop := cs ≠ [] ∧ ∀ c ∈ cs, isLabelChar c = true

instance (cs : List Char) : Decidable (IsLabel cs) :=
  have := List.decidableBAll (fun c => isLabelChar c = true) cs
  inferInstanceAs (Decidable (_ ∧ _))

/-- An alias name: `@` and a label. -/
def IsAliasToken (cs : List Char) : Prop := ∃ name, cs = '@' :: name ∧ IsLabel name

theorem isAliasName_iff : isAliasName s ↔ IsAliasToken s := by
  unfold isAliasName IsAliasToken
  split
  · next name => simp [IsLabel, isLabelChar]
  · next hne => exact iff_of_false Bool.false_ne_true fun ⟨name, hs, _⟩ => hne name hs

theorem isBlank_of_isLabelChar (h : isLabelChar c = true) : isBlank c = false := by
  have hrange : 45 ≤ c.toNat ∧ c.toNat ≤ 122 := by
    simp only [isLabelChar, isLetter, isLowerLetter, isUpperLetter, isDigit, Bool.or_eq_true,
      Bool.and_eq_true, decide_eq_true_eq, beq_iff_eq, Char.le_def, UInt32.le_iff_toNat_le] at h
    rcases h with (((h | h) | h) | rfl) | rfl
    · exact ⟨Nat.le_trans (by decide) h.1, Nat.le_trans h.2 (by decide)⟩
    · exact ⟨Nat.le_trans (by decide) h.1, Nat.le_trans h.2 (by decide)⟩
    · exact ⟨Nat.le_trans (by decide) h.1, Nat.le_trans h.2 (by decide)⟩
    · decide
    · decide
  rw [Bool.eq_false_iff]
  simp only [isBlank, Ne, Bool.or_eq_true, Bool.and_eq_true, decide_eq_true_eq, beq_iff_eq]
  omega

/-- Nothing in the line makes it a binding, the start or the end of a loop. -/
def IsUnmarked (line : List Char) : Prop :=
  ¬ "_component".toList <:+: line ∧ ¬ "|before".toList <:+: line ∧ ¬ "|after".toList <:+: line

instance (line : List Char) : Decidable (IsUnmarked line) :=
  inferInstanceAs (Decidable (¬ _ ∧ ¬ _ ∧ ¬ _))

theorem infix_of_trim (line : List Char) : trim line <:+: line := by
  obtain ⟨before, after, h, -⟩ := stands_trim line
  exact ⟨before, after, h.symm⟩

/-- A line that is neither a comment nor marked is an assignment if it can be cut. -/
theorem directiveOf_of_isUnmarked (h : IsUnmarked line) (hne : trim line ≠ [])
    (hcomment : ¬ ['/', '/'] <+: trim line)
    (hcut : splitTop? '=' (trim line) = some (before, behind)) (position : Nat) :
    directiveOf position line = assignment (trim before) (trim behind) := by
  have habsent : ∀ {w : List Char}, ¬ w <:+: line → occursIn w (trim line) = false := by
    intro w hw
    rw [Bool.eq_false_iff, Ne, occursIn_iff]
    exact fun hin => hw (hin.trans (infix_of_trim line))
  have hstart : startsWith ['/', '/'] (trim line) = false := by
    rwa [Bool.eq_false_iff, Ne, startsWith_iff]
  rw [directiveOf]
  dsimp only
  rw [hstart, List.isEmpty_eq_false_iff.mpr hne, habsent h.1, Bool.or_false,
    if_neg Bool.false_ne_true, if_neg Bool.false_ne_true, plainDirective, habsent h.2.1,
    habsent h.2.2, if_neg Bool.false_ne_true, if_neg Bool.false_ne_true]
  simp only [hcut]

theorem not_mem_of_isLabelChar (h : isLabelChar c = true) : c ∉ '=' :: '|' :: marks := by
  simp only [marks, List.mem_cons, List.not_mem_nil, or_false]
  rintro (rfl | rfl | rfl | rfl | rfl | rfl | rfl | rfl) <;> exact absurd h (by decide)

theorem IsLabel.sealing (h : IsLabel s) : Sealed ['=', '|'] 0 s := by
  rw [← List.append_nil s]
  refine .word (fun c hc => ?_) .nil
  have hnot := not_mem_of_isLabelChar (h.2 c hc)
  simp only [List.mem_cons, not_or] at hnot
  simp [hnot]

theorem IsLabel.unbroken (h : IsLabel s) : Unbroken s := by
  intro c hc
  have hlabel := h.2 c hc
  constructor <;> rintro rfl <;> exact absurd hlabel (by decide)

/-- What stands in front of the separators of a line: a trimmed text that does not begin like a
variable or a comment and has no separator outside brackets, parentheses and quotes. -/
structure IsSelector (s : List Char) : Prop where
  trim_eq : trim s = s
  ne_nil : s ≠ []
  not_variable : s.head? ≠ some '$'
  not_comment : ¬ ['/', '/'] <+: s
  sealing : Sealed ['=', '|'] 0 s

/-- The line `s = e`, with any spaces and tabs around its parts. -/
def IsAssignment (s e line : List Char) : Prop :=
  ∃ left right, Padded s left ∧ Padded e right ∧ line = left ++ '=' :: right

/-- The line `s|a = e`, with any spaces and tabs around its parts. -/
def IsActionLine (s a e line : List Char) : Prop :=
  ∃ left middle right, Padded s left ∧ Padded a middle ∧ Padded e right ∧
    line = left ++ '|' :: (middle ++ '=' :: right)

namespace IsSelector

variable {left a e : List Char}

theorem exists_cons (h : IsSelector s) : ∃ d ds, s = d :: ds ∧ isBlank d = false := by
  cases s with
  | nil => exact absurd rfl h.ne_nil
  | cons d ds => exact ⟨d, ds, rfl, isBlank_head_of_trim h.trim_eq⟩

/-- Blanks behind a selector and a separator keep the line from becoming a comment. -/
theorem not_comment_append (h : IsSelector s) {back : List Char}
    (hback : IsPad back) (hc : c ≠ '/') (rest : List Char) :
    ¬ ['/', '/'] <+: s ++ (back ++ c :: rest) := by
  obtain ⟨d, ds, hd, hds⟩ : ∃ d ds, back ++ c :: rest = d :: ds ∧ d ≠ '/' := by
    cases back with
    | nil => exact ⟨c, rest, rfl, hc⟩
    | cons d back =>
      refine ⟨d, back ++ c :: rest, rfl, ?_⟩
      rcases hback d List.mem_cons_self with rfl | rfl <;> decide
  have hcomment := h.not_comment
  have hne := h.ne_nil
  rw [hd]
  match s with
  | [] => exact absurd rfl hne
  | [x] => simp [Ne.symm hds]
  | x :: y :: _ => simpa using hcomment

/-- A line that begins with a selector, without the blanks at its ends. -/
theorem exists_trim_eq (h : IsSelector s) (hleft : Padded s left) (hc : isBlank c = false)
    (rest : List Char) : ∃ back, IsPad back ∧
      trim (left ++ c :: rest) = s ++ (back ++ c :: trimEnd rest) := by
  obtain ⟨front, back, rfl, hfront, hback⟩ := hleft
  obtain ⟨d, ds, rfl, hd⟩ := h.exists_cons
  refine ⟨back, hback, ?_⟩
  rw [List.append_assoc, trim_of_forall_append hfront.isBlank, List.cons_append,
    trim_cons_append_cons hd hc, List.cons_append, List.append_assoc, List.cons_append]

/-- A line that begins with a selector is read from the parts around its equals sign. -/
theorem directiveOf_of_cut (h : IsSelector s) {back before behind : List Char}
    (hback : IsPad back) (hc : c ≠ '/') (htrim : trim line = s ++ (back ++ c :: rest))
    (hcut : splitTop? '=' (trim line) = some (before, behind)) (hunmarked : IsUnmarked line)
    (position : Nat) : directiveOf position line = assignment (trim before) (trim behind) := by
  have hne : trim line ≠ [] := htrim ▸ List.append_ne_nil_of_left_ne_nil h.ne_nil _
  have hcomment : ¬ ['/', '/'] <+: trim line := htrim ▸ h.not_comment_append hback hc rest
  exact directiveOf_of_isUnmarked hunmarked hne hcomment hcut position

/-- The parts of an assignment. -/
theorem directiveOf_assignment (h : IsSelector s) (he : trim e = e) (hline : IsAssignment s e line)
    (hunmarked : IsUnmarked line) (position : Nat) :
    directiveOf position line = assignment s e := by
  obtain ⟨left, right, hleft, hright, rfl⟩ := hline
  obtain ⟨back, hback, htrim⟩ := h.exists_trim_eq hleft (c := '=') (by decide) right
  have hcut : splitTop? '=' (trim (left ++ '=' :: right)) = some (s ++ back, trimEnd right) := by
    rw [htrim, ← List.append_assoc]
    exact splitTop?_append_of_sealed (by decide) (by decide) (h.sealing.append hback.sealing) _
  rw [h.directiveOf_of_cut hback (by decide) htrim hcut hunmarked,
    trim_append_of_forall hback.isBlank, h.trim_eq, trim_trimEnd, hright.trim_eq, he]

theorem not_isEmpty_append (h : IsSelector s) (rest : List Char) :
    (s ++ rest).isEmpty = false ∧ ((s ++ rest).head? == some '$') = false := by
  obtain ⟨d, ds, rfl, -⟩ := h.exists_cons
  exact ⟨rfl, beq_eq_false_iff_ne.mpr h.not_variable⟩

/-- What has a bar behind a selector is no alias name. -/
theorem isAliasName_append_bar (h : IsSelector s) (back rest : List Char) :
    isAliasName (s ++ (back ++ '|' :: rest)) = false := by
  rw [Bool.eq_false_iff, Ne, isAliasName_iff]
  rintro ⟨name, hname, hlabel⟩
  obtain ⟨d, ds, rfl, -⟩ := h.exists_cons
  obtain rfl := (List.cons.inj hname).2
  exact absurd (hlabel.2 '|' (by simp)) (by decide)

/-- A rule with an action, given the text before its equals sign. -/
theorem assignment_action (h : IsSelector s) (ha : IsLabel a) (hinner : a ≠ "innerText".toList)
    {back middle : List Char} (hback : IsPad back) (hmiddle : trim middle = a)
    (e : List Char) : assignment (s ++ (back ++ '|' :: middle)) e =
      .ruleLine ⟨.ofList s, .setAttribute (.ofList a), .ofList e⟩ := by
  have hcut : splitTop? '|' (s ++ (back ++ '|' :: middle)) = some (s ++ back, middle) := by
    rw [← List.append_assoc]
    exact splitTop?_append_of_sealed (by decide) (by decide) (h.sealing.append hback.sealing) _
  have hname : Action.ofName middle = .setAttribute (.ofList a) := by
    rw [Action.ofName, hmiddle]
    refine if_neg (not_or.mpr ⟨fun hempty => ha.1 ?_, fun heq => hinner ?_⟩)
    · rw [← String.toList_ofList (l := a), hempty]
      rfl
    · rw [← heq, String.toList_ofList]
  rw [assignment, (h.not_isEmpty_append _).1, (h.not_isEmpty_append _).2,
    h.isAliasName_append_bar, hcut, Bool.or_false, if_neg Bool.false_ne_true,
    if_neg Bool.false_ne_true]
  dsimp only
  rw [trim_append_of_forall hback.isBlank, h.trim_eq, hname,
    List.isEmpty_eq_false_iff.mpr h.ne_nil, if_neg Bool.false_ne_true]

/-- **A line with an action is a rule with that action.** -/
theorem directiveOf_action (h : IsSelector s) (he : trim e = e) (ha : IsLabel a)
    (hinner : a ≠ "innerText".toList) (hline : IsActionLine s a e line)
    (hunmarked : IsUnmarked line) (position : Nat) : directiveOf position line =
      .ruleLine ⟨.ofList s, .setAttribute (.ofList a), .ofList e⟩ := by
  obtain ⟨left, middle, right, hleft, hmiddle, hright, rfl⟩ := hline
  obtain ⟨back, hback, htrim⟩ :=
    h.exists_trim_eq hleft (c := '|') (by decide) (middle ++ '=' :: right)
  have hparts : s ++ (back ++ '|' :: trimEnd (middle ++ '=' :: right)) =
      s ++ (back ++ '|' :: middle) ++ '=' :: trimEnd right := by
    rw [trimEnd, dropWhileEnd_append_cons (by decide)]
    simp [trimEnd]
  -- Of the two separators the bar is the first, but it is the other one that is looked for first.
  have hsealed : Sealed ['='] 0 (s ++ (back ++ '|' :: middle)) := by
    have hmiddle' : Sealed ['='] 0 middle := (hmiddle.sealing ha.sealing).mono (by simp)
    rw [← List.append_assoc]
    exact ((h.sealing.append hback.sealing).mono (by simp)).append
      (.other (by decide) (by simp) hmiddle')
  have hcut : splitTop? '=' (trim (left ++ '|' :: (middle ++ '=' :: right))) =
      some (s ++ (back ++ '|' :: middle), trimEnd right) := by
    rw [htrim, hparts]
    exact splitTop?_append_of_sealed (by decide) (by decide) hsealed _
  have hbefore : trim (s ++ (back ++ '|' :: middle)) = s ++ (back ++ '|' :: trimEnd middle) := by
    obtain ⟨d, ds, rfl, hd⟩ := h.exists_cons
    rw [← List.append_assoc, List.cons_append, trim_cons_append_cons hd (by decide),
      List.cons_append, List.append_assoc, List.cons_append]
  have hname : trim (trimEnd middle) = a := by
    rw [trim_trimEnd, hmiddle.trim_eq,
      trim_of_forall fun c hc => isBlank_of_isLabelChar (ha.2 c hc)]
  rw [h.directiveOf_of_cut hback (by decide) htrim hcut hunmarked, hbefore, trim_trimEnd,
    hright.trim_eq, he, h.assignment_action ha hinner hback hname]

/-- A selector without an action that is no alias name makes a rule for the content. -/
theorem assignment_content (h : IsSelector s) (hname : ¬ IsAliasToken s)
    (e : List Char) : assignment s e = .ruleLine ⟨.ofList s, .content, .ofList e⟩ := by
  obtain ⟨hempty, hvariable⟩ := h.not_isEmpty_append []
  rw [List.append_nil] at hempty hvariable
  rw [← isAliasName_iff, Bool.not_eq_true] at hname
  rw [assignment, hempty, hvariable, hname, splitTop?_of_sealed (by decide) (by decide) h.sealing,
    Bool.or_false, if_neg Bool.false_ne_true, if_neg Bool.false_ne_true]
  dsimp only
  rw [hempty, if_neg Bool.false_ne_true]

/-- An alias name makes an alias, but none without a selector to stand for. -/
theorem assignment_alias (h : IsSelector s) (hname : IsAliasToken s)
    (e : List Char) :
    assignment s e = if e = [] then .verbatim else .aliasLine (.ofList s) (.ofList e) := by
  obtain ⟨hempty, hvariable⟩ := h.not_isEmpty_append []
  rw [List.append_nil] at hempty hvariable
  rw [← isAliasName_iff] at hname
  rw [assignment, hempty, hvariable, hname, Bool.or_false, if_neg Bool.false_ne_true, if_pos rfl]
  cases e <;> rfl

end IsSelector

/-- What is joined by an equals sign is a line of the script where it stands. -/
theorem classifies_of_equals {source : String} {front right e : List Char} (hfront : Unbroken front)
    (hright : Padded e right) (he : trim e = e) (hbroken : Unbroken e)
    (hline : IsLineAt source.toList (front ++ '=' :: right) position) :
    Classifies source (front ++ '=' :: right) position
      (directiveOf position (front ++ '=' :: right)) := by
  refine classifies_of_isLineAt hline (by simp) ?_ ?_
  · exact List.forall_mem_append.mpr
      ⟨hfront, List.forall_mem_cons.mpr ⟨by decide, hright.unbroken hbroken⟩⟩
  · have hequals : ∀ c ∈ (front ++ ['=']).getLast?, endsLine c = false := by
      intro c hc
      rw [List.getLast?_concat] at hc
      exact Option.some.inj hc ▸ rfl
    rw [List.append_cons]
    exact forall_getLast?_append hequals (hright.endsLine_getLast? he)

/-- **Rule and alias lines are put apart as they were put together**, wherever they stand in the
directive region and whatever separators the selector holds inside brackets, parentheses and quotes.
A line with an action sets that attribute. One without writes the content, unless all that stands in
front is an alias name: then it defines the alias, or says nothing if it has no selector for it. -/
theorem classifies_parts {source s e : String} {line : List Char} {position : Nat}
    (hs : IsSelector s.toList) (he : trim e.toList = e.toList) (hsBroken : Unbroken s.toList)
    (heBroken : Unbroken e.toList) (hunmarked : IsUnmarked line)
    (hline : IsLineAt source.toList line position) :
    (∀ a : String, IsLabel a.toList → a ≠ "innerText" →
      IsActionLine s.toList a.toList e.toList line →
        Classifies source line position (.ruleLine ⟨s, .setAttribute a, e⟩)) ∧
    (IsAssignment s.toList e.toList line →
      (¬ IsAliasToken s.toList → Classifies source line position (.ruleLine ⟨s, .content, e⟩)) ∧
      (IsAliasToken s.toList →
        (e ≠ "" → Classifies source line position (.aliasLine s e)) ∧
        (e = "" → Classifies source line position .verbatim))) := by
  constructor
  · intro a ha hinner haction
    have hinner' : a.toList ≠ "innerText".toList := fun h => hinner (String.toList_inj.mp h)
    have hdirective := hs.directiveOf_action he ha hinner' haction hunmarked position
    obtain ⟨left, middle, right, hleft, hmiddle, hright, rfl⟩ := haction
    have hjoined : left ++ '|' :: (middle ++ '=' :: right) =
        (left ++ '|' :: middle) ++ '=' :: right := by simp
    have hfront : Unbroken (left ++ '|' :: middle) := List.forall_mem_append.mpr
      ⟨hleft.unbroken hsBroken, List.forall_mem_cons.mpr ⟨by decide, hmiddle.unbroken ha.unbroken⟩⟩
    rw [hjoined] at hline hdirective ⊢
    have hclass := classifies_of_equals hfront hright he heBroken hline
    rwa [hdirective, String.ofList_toList, String.ofList_toList, String.ofList_toList] at hclass
  · intro hassignment
    have hdirective := hs.directiveOf_assignment he hassignment hunmarked position
    obtain ⟨left, right, hleft, hright, rfl⟩ := hassignment
    have hclass := classifies_of_equals (hleft.unbroken hsBroken) hright he heBroken hline
    rw [hdirective] at hclass
    refine ⟨fun hname => ?_, fun hname => ⟨fun hne => ?_, ?_⟩⟩
    · rwa [hs.assignment_content hname, String.ofList_toList, String.ofList_toList] at hclass
    · rwa [hs.assignment_alias hname, if_neg fun h => hne (String.toList_eq_nil_iff.mp h),
        String.ofList_toList, String.ofList_toList] at hclass
    · rintro rfl
      rwa [hs.assignment_alias hname, if_pos String.toList_empty] at hclass

/-- A rule and an alias among other lines. The selector of the rule holds a bar in quotes and one in
brackets, and the rule's line ends in a carriage return. -/
def labelled : String :=
  "// é\n\ta[title=\"x|y=z\"][lang|=en] |data-x= $p['n'] \r\n@li = ul > li\n<p>"

theorem classifies_parts_labelled :
    IsLineAt labelled.toList "\ta[title=\"x|y=z\"][lang|=en] |data-x= $p['n'] ".toList 6 ∧
      Classifies labelled "\ta[title=\"x|y=z\"][lang|=en] |data-x= $p['n'] ".toList 6
        (.ruleLine ⟨"a[title=\"x|y=z\"][lang|=en]", .setAttribute "data-x", "$p['n']"⟩) ∧
      IsLineAt labelled.toList "@li = ul > li".toList 53 ∧
      Classifies labelled "@li = ul > li".toList 53 (.aliasLine "@li" "ul > li") := by
  have hselector : IsSelector "a[title=\"x|y=z\"][lang|=en]".toList := by
    refine ⟨by decide +kernel, by decide +kernel, by decide +kernel, by decide +kernel, ?_⟩
    have htext : "a[title=\"x|y=z\"][lang|=en]".toList = ['a'] ++ '[' :: ("title=".toList ++
        '"' :: ("x|y=z".toList ++ '"' :: ']' :: '[' :: ("lang|=en".toList ++ [']']))) := by
      decide +kernel
    rw [htext]
    exact .word (by simp [marks]) <| .opens (by decide) <|
      .word (List.all_iff_forall_prop.mp (by decide +kernel)) <| .quoted (by decide) (by decide) <|
      .closes (by decide) <| .opens (by decide) <|
      .word (List.all_iff_forall_prop.mp (by decide +kernel)) <| .closes (by decide) .nil
  have hname : IsSelector "@li".toList := by
    refine ⟨by decide +kernel, by decide +kernel, by decide +kernel, by decide +kernel, ?_⟩
    have hword : Sealed ['=', '|'] 0 ("@li".toList ++ []) :=
      .word (List.all_iff_forall_prop.mp (by decide +kernel)) .nil
    rwa [List.append_nil] at hword
  have hrule : IsLineAt labelled.toList
      "\ta[title=\"x|y=z\"][lang|=en] |data-x= $p['n'] ".toList 6 := by
    have hparts : labelled.toList = "// é".toList ++ '\n' ::
        ("\ta[title=\"x|y=z\"][lang|=en] |data-x= $p['n'] ".toList ++
          (['\r'] ++ '\n' :: "@li = ul > li\n<p>".toList)) := by
      decide +kernel
    rw [hparts]
    exact isLineAt_between (by decide +kernel) (by simp) _
  have halias : IsLineAt labelled.toList "@li = ul > li".toList 53 := by
    have hparts : labelled.toList =
        "// é\n\ta[title=\"x|y=z\"][lang|=en] |data-x= $p['n'] \r".toList ++ '\n' ::
          ("@li = ul > li".toList ++ ([] ++ '\n' :: "<p>".toList)) := by
      decide +kernel
    rw [hparts]
    exact isLineAt_between (by decide +kernel) (List.forall_mem_nil _) _
  refine ⟨hrule, ?_, halias, ?_⟩
  · refine (classifies_parts (e := "$p['n']") hselector (by decide +kernel) (by decide +kernel)
      (by decide +kernel) (by decide +kernel) hrule).1 "data-x" (by decide +kernel) (by decide) ?_
    exact ⟨"\ta[title=\"x|y=z\"][lang|=en] ".toList, "data-x".toList, " $p['n'] ".toList,
      ⟨['\t'], [' '], by decide +kernel, by decide, by decide⟩,
      ⟨[], [], by decide +kernel, by decide, by decide⟩,
      ⟨[' '], [' '], by decide +kernel, by decide, by decide⟩, by decide +kernel⟩
  · refine (((classifies_parts (e := "ul > li") hname (by decide +kernel) (by decide +kernel)
      (by decide +kernel) (by decide +kernel) halias).2 ?_).2 ?_).1 (by decide)
    · exact ⟨"@li ".toList, " ul > li".toList, ⟨[], [' '], by decide +kernel, by decide, by decide⟩,
        ⟨[' '], [], by decide +kernel, by decide, by decide⟩, by decide +kernel⟩
    · exact ⟨['l', 'i'], by decide +kernel, by decide +kernel⟩

end Stencil.Script

import Stencil.Script.Plan

/-!
# Places of lines, tokens and faults

A part of a text stands at a span if as many bytes come before it as the span says (`Stands`), so
both ends of the span lie between characters (`Boundary`). The lines of a script stand in its text
with at least one byte between them (`exists_of_mem_readLines`, `pairwise_readLines`), and the
lexemes of a line stand in it one behind the other. A clause fault points at a token, at the whole
line, or from the end of the line back to the end of its last token (`points_clauseOf`); only the
last form can run backwards, and it does if something behind the last token is none
(`stop_lt_start_iff`).
-/

namespace Stencil

namespace Text

theorem byteLength_takeWhile_dropWhile (p : Char → Bool) (cs : List Char) :
    byteLength (cs.takeWhile p) + byteLength (cs.dropWhile p) = byteLength cs := by
  rw [← byteLength_append, List.takeWhile_append_dropWhile]

theorem byteLength_reverse (cs : List Char) : byteLength cs.reverse = byteLength cs := by
  induction cs with
  | nil => rfl
  | cons c cs ih =>
    rw [List.reverse_cons, byteLength_append, ih]
    simp only [byteLength_cons, byteLength_nil]
    omega

theorem byteLength_pos {cs : List Char} (h : cs ≠ []) : 0 < byteLength cs := by
  cases cs with
  | nil => exact absurd rfl h
  | cons c cs =>
    have := c.utf8Size_pos
    rw [byteLength_cons]
    omega

theorem byteLength_dropWhileEnd_le (p : Char → Bool) (cs : List Char) :
    byteLength (dropWhileEnd p cs) ≤ byteLength cs := by
  have h := byteLength_takeWhile_dropWhile p cs.reverse
  rw [byteLength_reverse] at h
  rw [dropWhileEnd, byteLength_reverse]
  omega

theorem dropWhileEnd_concat {p : Char → Bool} {c : Char} (h : p c) (cs : List Char) :
    dropWhileEnd p (cs ++ [c]) = dropWhileEnd p cs := by
  rw [dropWhileEnd, List.reverse_append, List.reverse_singleton, List.singleton_append,
    List.dropWhile_cons_of_pos h, dropWhileEnd]

/-- What is dropped at the end stands behind what is left. -/
theorem exists_eq_dropWhileEnd_append (p : Char → Bool) (cs : List Char) :
    ∃ ending, cs = dropWhileEnd p cs ++ ending := by
  refine ⟨(cs.reverse.takeWhile p).reverse, ?_⟩
  rw [dropWhileEnd, ← List.reverse_append, List.takeWhile_append_dropWhile, List.reverse_reverse]

/-- The character at which dropping stops is not of the kind that is dropped. -/
theorem getLast?_dropWhileEnd {p : Char → Bool} {cs : List Char} {c : Char}
    (h : (dropWhileEnd p cs).getLast? = some c) : p c = false := by
  rw [dropWhileEnd, List.getLast?_reverse] at h
  have hnot := List.head?_dropWhile_not p cs.reverse
  rw [h] at hnot
  exact hnot

/-- A trimmed text does not end in a blank. -/
theorem isBlank_getLast?_of_trim {cs : List Char} {c : Char} (h : trim cs = cs)
    (hc : cs.getLast? = some c) : isBlank c = false := by
  rw [← h] at hc
  exact getLast?_dropWhileEnd hc

theorem utf8ByteSize_ofList (cs : List Char) : (String.ofList cs).utf8ByteSize = byteLength cs := by
  induction cs with
  | nil => rfl
  | cons c cs ih =>
    rw [String.ofList_cons, String.utf8ByteSize_append, String.utf8ByteSize_singleton, ih,
      byteLength_cons]

end Text

namespace Script
open Text

variable {text line part cs : List Char} {s t : Span} {m n position : Nat}

/-! ## Parts of a text -/

/-- Both ends of a span lie between two offsets. -/
def Span.Between (first last : Nat) (s : Span) : Prop :=
  first ≤ s.start ∧ s.start ≤ last ∧ first ≤ s.stop ∧ s.stop ≤ last

/-- An offset lies at an end of a text or between two of its characters. -/
def Boundary (text : List Char) (n : Nat) : Prop :=
  ∃ before after, text = before ++ after ∧ n = byteLength before

/-- A part of a text stands at a span: the bytes before it and those of the part itself are as many
as the span says. -/
def Stands (text part : List Char) (s : Span) : Prop :=
  ∃ before after, text = before ++ part ++ after ∧
    s = ⟨byteLength before, byteLength (before ++ part)⟩

theorem Boundary.le (h : Boundary text n) : n ≤ byteLength text := by
  obtain ⟨before, after, rfl, rfl⟩ := h
  rw [byteLength_append]
  exact Nat.le_add_right _ _

/-- The boundaries of the character list are the valid positions of the string. -/
theorem isValid_iff_boundary {source : String} :
    (⟨n⟩ : String.Pos.Raw).IsValid source ↔ Boundary source.toList n := by
  rw [String.Pos.Raw.isValid_iff_exists_append]
  constructor
  · rintro ⟨before, after, rfl, hn⟩
    refine ⟨before.toList, after.toList, String.toList_append, ?_⟩
    rw [← utf8ByteSize_ofList, String.ofList_toList]
    exact congrArg String.Pos.Raw.byteIdx hn
  · rintro ⟨before, after, hsource, rfl⟩
    refine ⟨String.ofList before, String.ofList after, ?_, ?_⟩
    · rw [← String.ofList_append, ← hsource, String.ofList_toList]
    · rw [← utf8ByteSize_ofList]
      rfl

namespace Stands

theorem refl (text : List Char) : Stands text text ⟨0, byteLength text⟩ :=
  ⟨[], [], (List.append_nil _).symm, rfl⟩

theorem append (before : List Char) (h : Stands text part s) :
    Stands (before ++ text) part (s.shift (byteLength before)) := by
  obtain ⟨front, after, rfl, rfl⟩ := h
  refine ⟨before ++ front, after, by simp only [List.append_assoc], ?_⟩
  simp only [Span.shift, byteLength_append, Nat.add_comm, Nat.add_left_comm]

theorem append_right (h : Stands text part s) (after : List Char) :
    Stands (text ++ after) part s := by
  obtain ⟨before, behind, rfl, rfl⟩ := h
  exact ⟨before, behind ++ after, List.append_assoc _ _ _, rfl⟩

/-- What stands in a part stands further on in the whole. -/
theorem trans (h : Stands text line s) (h' : Stands line part t) :
    Stands text part (t.shift s.start) := by
  obtain ⟨before, after, rfl, rfl⟩ := h
  exact (h'.append before).append_right after

theorem boundary_start (h : Stands text part s) : Boundary text s.start := by
  obtain ⟨before, after, rfl, rfl⟩ := h
  exact ⟨before, part ++ after, List.append_assoc _ _ _, rfl⟩

theorem boundary_stop (h : Stands text part s) : Boundary text s.stop := by
  obtain ⟨before, after, rfl, rfl⟩ := h
  exact ⟨before ++ part, after, rfl, rfl⟩

theorem stop_eq (h : Stands text part s) : s.stop = s.start + byteLength part := by
  obtain ⟨before, after, -, rfl⟩ := h
  exact byteLength_append _ _

theorem le (h : Stands text part s) : s.start ≤ s.stop := by
  rw [h.stop_eq]
  exact Nat.le_add_right _ _

theorem lt (h : Stands text part s) (hpart : part ≠ []) : s.start < s.stop := by
  have := byteLength_pos hpart
  rw [h.stop_eq]
  omega

/-- A boundary of a part is one of the whole. -/
theorem boundary (h : Stands text line s) (hn : Boundary line n) :
    Boundary text (n + s.start) := by
  obtain ⟨before, after, rfl, rfl⟩ := hn
  have hbefore : Stands (before ++ after) before ⟨0, byteLength before⟩ :=
    ⟨[], after, rfl, rfl⟩
  exact (h.trans hbefore).boundary_stop

end Stands

/-- A line without its blanks stands behind the blanks in front. -/
theorem stands_trim (line : List Char) : Stands line (trim line)
    ⟨byteLength (line.takeWhile isBlank), byteLength (line.takeWhile isBlank ++ trim line)⟩ := by
  obtain ⟨ending, hending⟩ := exists_eq_dropWhileEnd_append isBlank (line.dropWhile isBlank)
  refine ⟨line.takeWhile isBlank, ending, ?_, rfl⟩
  rw [trim, trimEnd, trimStart, List.append_assoc, ← hending, List.takeWhile_append_dropWhile]

/-! ## Lines -/

theorem flatten_splitLines (cs : List Char) : (splitLines cs).flatten = cs := by
  fun_induction splitLines cs with
  | case1 => rfl
  | case2 cs ih => rw [List.flatten_cons, ih]; rfl
  | case3 c cs hc line rest hrest ih =>
    rw [hrest, List.flatten_cons] at ih
    rw [List.flatten_cons, List.cons_append, ih]
  | case4 c cs hc hrest ih =>
    rw [hrest] at ih
    rw [← ih]
    rfl

/-- Every line but the last one has a line end. -/
theorem pairwise_splitLines (cs : List Char) :
    (splitLines cs).Pairwise fun raw _ => ∃ body, raw = body ++ ['\n'] := by
  fun_induction splitLines cs with
  | case1 => exact .nil
  | case2 cs ih => exact .cons (fun _ _ => ⟨[], rfl⟩) ih
  | case3 c cs hc line rest hrest ih =>
    rw [hrest] at ih
    obtain ⟨hline, hpair⟩ := List.pairwise_cons.mp ih
    refine .cons ?_ hpair
    intro raw hraw
    obtain ⟨body, rfl⟩ := hline raw hraw
    exact ⟨c :: body, rfl⟩
  | case4 c cs hc hrest ih => exact .cons (fun _ h => nomatch h) .nil

theorem le_start_of_mem_readLines {raws : List (List Char)} {l : Line}
    (h : l ∈ readLines position raws) : position ≤ l.span.start := by
  induction raws generalizing position with
  | nil => cases h
  | cons raw rest ih =>
    rcases List.mem_cons.mp h with rfl | h
    · exact Nat.le_refl _
    · exact Nat.le_trans (Nat.le_add_right _ _) (ih h)

/-- **Between two lines there is at least one byte.** -/
theorem pairwise_readLines {raws : List (List Char)}
    (h : raws.Pairwise fun raw _ => ∃ body, raw = body ++ ['\n']) :
    (readLines position raws).Pairwise fun a b => a.span.stop < b.span.start := by
  induction raws generalizing position with
  | nil => exact .nil
  | cons raw rest ih =>
    obtain ⟨hraw, hrest⟩ := List.pairwise_cons.mp h
    refine .cons ?_ (ih hrest)
    intro b hb
    have hstart := le_start_of_mem_readLines hb
    -- There is a line behind, so this one has a line end, which its span leaves out.
    obtain ⟨next, hnext⟩ : ∃ next, next ∈ rest := by
      cases rest with
      | nil => cases hb
      | cons next _ => exact ⟨next, List.mem_cons_self⟩
    obtain ⟨body, rfl⟩ := hraw next hnext
    have hle := byteLength_dropWhileEnd_le endsLine body
    have hend : dropWhileEnd endsLine (body ++ ['\n']) = dropWhileEnd endsLine body :=
      dropWhileEnd_concat (by decide) body
    have hpos : 0 < byteLength ['\n'] := by decide
    rw [byteLength_append] at hstart
    dsimp only
    rw [hend]
    omega

/-- A directive line is read from a part of the text that its span covers and that does not end in a
line end. -/
theorem exists_of_mem_readLines {raws : List (List Char)} {l : Line}
    (h : l ∈ readLines position raws) (front : List Char)
    (hposition : position = byteLength front) :
    ∃ line, Stands (front ++ raws.flatten) line l.span ∧
      (∀ c ∈ line.getLast?, endsLine c = false) ∧ l.directive = directiveOf l.span.start line := by
  induction raws generalizing position front with
  | nil => cases h
  | cons raw rest ih =>
    rw [List.flatten_cons]
    rcases List.mem_cons.mp h with rfl | h
    · obtain ⟨ending, hending⟩ := exists_eq_dropWhileEnd_append endsLine raw
      refine ⟨dropWhileEnd endsLine raw, ⟨front, ending ++ rest.flatten, ?_, ?_⟩,
        fun c hc => getLast?_dropWhileEnd hc, rfl⟩
      · rw [List.append_assoc, ← List.append_assoc _ ending, ← hending]
      · rw [byteLength_append, hposition]
    · rw [← List.append_assoc]
      exact ih h _ (by rw [byteLength_append, hposition])

/-- **The lines of a script stand in its text.** -/
theorem exists_of_mem_lines {source : String} {l : Line} (h : l ∈ (read source).lines) :
    ∃ line, Stands source.toList line l.span ∧ (∀ c ∈ line.getLast?, endsLine c = false) ∧
      l.directive = directiveOf l.span.start line := by
  obtain ⟨line, hs, hline, hdirective⟩ := exists_of_mem_readLines h [] rfl
  rw [List.nil_append, flatten_splitLines] at hs
  refine ⟨line, ?_, hline, hdirective⟩
  have hsource := hs.append_right (source.toList.dropWhile (· != '<'))
  rwa [List.takeWhile_append_dropWhile] at hsource

/-! ## Tokens -/

/-- **A lexeme is a piece of the text.** -/
theorem exists_stands_of_mem_lexemesFrom {x : Lexeme} (h : x ∈ lexemesFrom position cs) :
    ∀ front, position = byteLength front → ∃ part ≠ [], Stands (front ++ cs) part x.span := by
  fun_induction lexemesFrom position cs with
  | case1 => cases h
  | case2 position c cs hgap ih =>
    intro front hposition
    rw [List.append_cons]
    exact ih h _ (by rw [byteLength_append, hposition]; rfl)
  | case3 position c cs hgap token? n hnext stop ih =>
    intro front hposition
    -- A lexeme takes one character and then the first `n` behind it.
    have hcs : front ++ c :: cs = (front ++ c :: cs.take n) ++ cs.drop n := by
      rw [List.append_assoc, List.cons_append, List.take_append_drop]
    have hstop : stop = byteLength (front ++ c :: cs.take n) := by
      rw [byteLength_append, ← hposition]
    rw [hcs]
    rcases List.mem_cons.mp h with rfl | h
    · exact ⟨c :: cs.take n, List.cons_ne_nil _ _, front, cs.drop n, rfl, by rw [hposition, hstop]⟩
    · exact ih h _ hstop

theorem le_start_of_mem_lexemesFrom {x : Lexeme} (h : x ∈ lexemesFrom position cs) :
    position ≤ x.span.start := by
  fun_induction lexemesFrom position cs with
  | case1 => cases h
  | case2 position c cs hgap ih => exact Nat.le_trans (Nat.le_add_right _ _) (ih h)
  | case3 position c cs hgap token? n hnext stop ih =>
    rcases List.mem_cons.mp h with rfl | h
    · exact Nat.le_refl _
    · exact Nat.le_trans (Nat.le_add_right _ _) (ih h)

/-- **Lexemes stand one behind the other.** -/
theorem pairwise_lexemesFrom (position : Nat) (cs : List Char) :
    (lexemesFrom position cs).Pairwise fun a b => a.span.stop ≤ b.span.start := by
  fun_induction lexemesFrom position cs with
  | case1 => exact .nil
  | case2 position c cs hgap ih => exact ih
  | case3 position c cs hgap token? n hnext stop ih =>
    exact .cons (fun _ h => le_start_of_mem_lexemesFrom h) ih

/-- The last lexeme of a text that does not end in a gap reaches to the end of the text. -/
theorem exists_getLast?_lexemesFrom (position : Nat) {c : Char} (hc : cs.getLast? = some c)
    (hgap : isGap c = false) : ∃ x, (lexemesFrom position cs).getLast? = some x ∧
      x.span.stop = position + byteLength cs := by
  fun_induction lexemesFrom position cs with
  | case1 => cases hc
  | case2 position d cs hd ih =>
    rw [List.getLast?_cons] at hc
    cases hcs : cs.getLast? with
    | none =>
      -- The text would end in the gap that it starts with.
      rw [hcs] at hc
      obtain rfl := Option.some.inj hc
      exact absurd (hgap.symm.trans hd) Bool.false_ne_true
    | some c' =>
      rw [hcs] at hc
      obtain ⟨x, hx, hstop⟩ := ih (hcs.trans hc)
      exact ⟨x, hx, by rw [hstop, byteLength_cons, Nat.add_assoc]⟩
  | case3 position d cs hd token? n hnext stop ih =>
    have hcs : d :: cs = (d :: cs.take n) ++ cs.drop n := by
      rw [List.cons_append, List.take_append_drop]
    have hsize : position + byteLength (d :: cs) = stop + byteLength (cs.drop n) := by
      rw [hcs, byteLength_append, ← Nat.add_assoc]
    rw [List.getLast?_cons, hsize]
    cases hrest : (cs.drop n).getLast? with
    | none =>
      rw [List.getLast?_eq_none_iff.mp hrest, lexemesFrom]
      exact ⟨_, rfl, rfl⟩
    | some c' =>
      rw [hcs, List.getLast?_append, hrest] at hc
      obtain ⟨x, hx, hstop⟩ := ih (hrest.trans hc)
      rw [hx]
      exact ⟨x, rfl, hstop⟩

theorem exists_stands_of_mem_tokens {text : String} {x : Token × Span} (h : x ∈ tokens text) :
    ∃ part ≠ [], Stands text.toList part x.2 := by
  obtain ⟨l, hl, hx⟩ := List.mem_filterMap.mp h
  obtain ⟨t, -, rfl⟩ := Option.map_eq_some_iff.mp hx
  exact exists_stands_of_mem_lexemesFrom hl [] rfl

/-- The last token of a text that does not end in a gap ends before the text exactly if the last
lexeme is no token. -/
theorem stop_lt_iff_of_getLast?_tokens {text : String} {c : Char} {x : Token × Span}
    (hc : text.toList.getLast? = some c) (hgap : isGap c = false)
    (hx : (tokens text).getLast? = some x) : x.2.stop < text.utf8ByteSize ↔
      ∃ l, (lexemes text).getLast? = some l ∧ l.token? = none := by
  obtain ⟨l, hl, hstop⟩ := exists_getLast?_lexemesFrom 0 hc hgap
  have hsize : l.span.stop = text.utf8ByteSize := by
    rw [hstop, Nat.zero_add, ← utf8ByteSize_ofList, String.ofList_toList]
  obtain ⟨earlier, hlexemes⟩ := List.getLast?_eq_some_iff.mp hl
  have htokens : tokens text = earlier.filterMap Lexeme.spelled? ++ l.spelled?.toList := by
    rw [tokens, lexemes, hlexemes, List.filterMap_append]
    cases h : l.spelled? <;> simp [h]
  rw [lexemes, hl]
  cases htoken : l.token? with
  | some t =>
    have hlast : l.spelled? = some (t, l.span) := by rw [Lexeme.spelled?, htoken]; rfl
    rw [htokens, hlast, Option.toList_some, List.getLast?_concat] at hx
    obtain rfl := Option.some.inj hx
    refine iff_of_false (Nat.not_lt.mpr (Nat.le_of_eq hsize.symm)) ?_
    rintro ⟨l', hl', hnone⟩
    obtain rfl := Option.some.inj hl'
    rw [htoken] at hnone
    cases hnone
  | none =>
    have hlast : l.spelled? = none := by rw [Lexeme.spelled?, htoken]; rfl
    rw [htokens, hlast, Option.toList_none, List.append_nil] at hx
    refine iff_of_true ?_ ⟨l, rfl, htoken⟩
    -- The last token is an earlier lexeme, which ends before the last one starts.
    obtain ⟨l', hl', hx'⟩ := List.mem_filterMap.mp (List.mem_of_getLast? hx)
    obtain ⟨t, -, rfl⟩ := Option.map_eq_some_iff.mp hx'
    have hpairwise := pairwise_lexemesFrom 0 text.toList
    rw [hlexemes] at hpairwise
    have hle := (List.pairwise_append.mp hpairwise).2.2 l' hl' l List.mem_cons_self
    obtain ⟨part, hpart, hs⟩ := exists_stands_of_mem_lexemesFrom (List.mem_of_getLast? hl) [] rfl
    exact hsize ▸ Nat.lt_of_le_of_lt hle (hs.lt hpart)

/-! ## Clause faults -/

section Readers

variable {α β : Type} {foreseen : ClauseFault × Span → Prop} {good : α → Prop}

/-- Whatever a reader could complain about is foreseen. -/
def Remaining.Foresees (foreseen : ClauseFault × Span → Prop) (r : Remaining) : Prop :=
  (∀ x ∈ r.tokens, ∀ expected, foreseen (.unexpected (some x.1) expected, x.2)) ∧
    ∀ expected, foreseen (.unexpected none expected, r.atEnd)

/-- A fault, if there is one, is foreseen; a result is as wanted. -/
def Meets (foreseen : ClauseFault × Span → Prop) (good : α → Prop) :
    Except (ClauseFault × Span) α → Prop
  | .ok a => good a
  | .error e => foreseen e

theorem Meets.bind {good' : β → Prop} {x : Except (ClauseFault × Span) α}
    {f : α → Except (ClauseFault × Span) β} (hx : Meets foreseen good x)
    (hf : ∀ a, good a → Meets foreseen good' (f a)) : Meets foreseen good' (x >>= f) := by
  cases x with
  | ok a => exact hf a hx
  | error e => exact hx

namespace Remaining

variable {r : Remaining} (h : r.Foresees foreseen)
include h

theorem meets_refuse (expected : List Expected) : Meets foreseen good (r.refuse expected) := by
  obtain ⟨tokens, atEnd⟩ := r
  cases tokens with
  | nil => exact h.2 expected
  | cons x rest => exact h.1 x List.mem_cons_self expected

theorem foresees_tail {x : Token × Span} {rest : List (Token × Span)} (hr : r.tokens = x :: rest) :
    Foresees foreseen { r with tokens := rest } :=
  ⟨fun y hy => h.1 y (hr ▸ List.mem_cons_of_mem _ hy), h.2⟩

theorem meets_token (t : Token) : Meets foreseen (Foresees foreseen) (r.token t) := by
  unfold token
  split
  · next hr =>
    split
    · exact foresees_tail h hr
    · exact meets_refuse h _
  · exact meets_refuse h _

theorem meets_var : Meets foreseen (fun x => Foresees foreseen x.2) r.var := by
  unfold var
  split
  · next hr => exact foresees_tail h hr
  · exact meets_refuse h _

theorem meets_clauseEnd (list first : String) :
    Meets foreseen (fun _ => True) (r.clauseEnd list first) := by
  unfold clauseEnd
  split
  · trivial
  · next hr =>
    refine (meets_var (foresees_tail h hr)).bind ?_
    intro x hx
    exact (meets_token hx _).bind fun _ _ => trivial
  · exact meets_refuse h _

theorem meets_clause : Meets foreseen (fun _ => True) r.clause := by
  unfold clause
  refine (meets_token h _).bind ?_
  intro r h
  refine (meets_var h).bind ?_
  intro x h
  refine (meets_token h _).bind ?_
  intro r h
  refine (meets_var h).bind ?_
  intro y h
  exact meets_clauseEnd h _ _

end Remaining

end Readers

/-- Where the faults of a clause point: the absence of a clause at the whole line, what is not
expected at itself, and the end of the line back to the end of its last token. -/
def PointsInto (line : String) : ClauseFault × Span → Prop
  | (.absent, span) => span = ⟨0, line.utf8ByteSize⟩
  | (.unexpected (some t) _, span) => (t, span) ∈ tokens line
  | (.unexpected none _, span) =>
    ∃ last, (tokens line).getLast? = some last ∧ span = ⟨line.utf8ByteSize, last.2.stop⟩

/-- **A clause fault points at the line, at a token, or back from the end of the line.** -/
theorem points_clauseOf (line : String) :
    Meets (PointsInto line) (fun _ => True) (clauseOf line) := by
  unfold clauseOf
  split
  · rfl
  · next keyword rest hdrop =>
    have hsuffix : keyword :: rest <:+ tokens line := hdrop ▸ List.dropWhile_suffix _
    refine Remaining.meets_clause ⟨?_, ?_⟩
    · intro x hx _
      exact hsuffix.subset (List.mem_cons_of_mem _ hx)
    · intro _
      refine ⟨rest.getLast?.getD keyword, ?_, rfl⟩
      obtain ⟨earlier, hearlier⟩ := hsuffix
      rw [← hearlier, List.getLast?_append, List.getLast?_cons]
      rfl

variable {fault : ClauseFault} {span : Span}

theorem boundary_of_clauseOf (h : clauseOf (.ofList text) = .error (fault, span)) :
    Boundary text span.start ∧ Boundary text span.stop := by
  have hpoints := points_clauseOf (.ofList text)
  have hend : Boundary text (String.ofList text).utf8ByteSize :=
    ⟨text, [], (List.append_nil _).symm, utf8ByteSize_ofList text⟩
  have htoken : ∀ x ∈ tokens (.ofList text), ∃ part, Stands text part x.2 := by
    intro x hx
    obtain ⟨part, -, hs⟩ := exists_stands_of_mem_tokens hx
    rw [String.toList_ofList] at hs
    exact ⟨part, hs⟩
  rw [h] at hpoints
  match fault, hpoints with
  | .absent, hspan =>
    obtain rfl : span = _ := hspan
    exact ⟨⟨[], text, rfl, rfl⟩, hend⟩
  | .unexpected (some t) _, hmem =>
    obtain ⟨part, hs⟩ := htoken _ hmem
    exact ⟨hs.boundary_start, hs.boundary_stop⟩
  | .unexpected none _, ⟨last, hlast, hspan⟩ =>
    obtain rfl := hspan
    obtain ⟨part, hs⟩ := htoken _ (List.mem_of_getLast? hlast)
    exact ⟨hend, hs.boundary_stop⟩

/-- **Only the end of a line is pointed at backwards**, and it is if something behind the last token
of the line is none. -/
theorem stop_lt_start_iff {line : String} {c : Char} (hc : line.toList.getLast? = some c)
    (hgap : isGap c = false) (h : clauseOf line = .error (fault, span)) :
    span.stop < span.start ↔ (∃ expected, fault = .unexpected none expected) ∧
      ∃ l, (lexemes line).getLast? = some l ∧ l.token? = none := by
  have hpoints := points_clauseOf line
  rw [h] at hpoints
  match fault, hpoints with
  | .absent, hspan =>
    obtain rfl : span = _ := hspan
    exact iff_of_false (Nat.not_lt_zero _) (by simp)
  | .unexpected (some t) _, hmem =>
    obtain ⟨part, -, hs⟩ := exists_stands_of_mem_tokens hmem
    exact iff_of_false (Nat.not_lt.mpr hs.le) (by simp)
  | .unexpected none expected, ⟨last, hlast, hspan⟩ =>
    obtain rfl := hspan
    rw [stop_lt_iff_of_getLast?_tokens hc hgap hlast]
    exact (and_iff_right ⟨expected, rfl⟩).symm

theorem assignment_ne_beforeLine (left right : List Char) (anchor : String)
    (declaration : Declaration) : assignment left right ≠ .beforeLine anchor declaration := by
  unfold assignment
  split
  · exact Directive.noConfusion
  · split
    · split <;> exact Directive.noConfusion
    · split
      split <;> exact Directive.noConfusion

/-- The declaration of a start line is read from the trimmed line. -/
theorem declaration_of_directiveOf {start : Nat} {anchor : String} {declaration : Declaration}
    (h : directiveOf start line = .beforeLine anchor declaration) :
    declaration = declarationOf (start + byteLength (line.takeWhile isBlank)) (trim line) := by
  unfold directiveOf at h
  dsimp only at h
  split at h
  · cases h
  · split at h
    · cases h
    · unfold plainDirective at h
      split at h
      · exact (Directive.beforeLine.inj h).2.symm
      · split at h
        · cases h
        · split at h
          · exact absurd h (assignment_ne_beforeLine _ _ _ _)
          · cases h

/-- A fault is found in the trimmed line and its place moved by what is in front. -/
theorem exists_clauseOf_of_directiveOf {start : Nat} {anchor : String}
    (h : directiveOf start line = .beforeLine anchor (.loop (.error (fault, span)))) :
    ∃ s, clauseOf (.ofList (trim line)) = .error (fault, s) ∧
      span = s.shift (start + byteLength (line.takeWhile isBlank)) := by
  have hdecl := declaration_of_directiveOf h
  unfold declarationOf at hdecl
  split at hdecl
  · cases hc : clauseOf (.ofList (trim line)) with
    | ok c => rw [hc] at hdecl; cases hdecl
    | error e =>
      rw [hc] at hdecl
      injection hdecl with hdecl
      injection hdecl with hdecl
      obtain ⟨rfl, rfl⟩ := Prod.mk.inj hdecl
      exact ⟨_, rfl, rfl⟩
  · cases hdecl

/-- Both ends of the place of a fault are boundaries of its line. -/
theorem exists_boundary_of_directiveOf {start : Nat} {anchor : String}
    (h : directiveOf start line = .beforeLine anchor (.loop (.error (fault, span)))) :
    ∃ s : Span, Boundary line s.start ∧ Boundary line s.stop ∧ span = s.shift start := by
  obtain ⟨s, hs, rfl⟩ := exists_clauseOf_of_directiveOf h
  obtain ⟨hstart, hstop⟩ := boundary_of_clauseOf hs
  have htrim := stands_trim line
  refine ⟨s.shift (byteLength (line.takeWhile isBlank)), htrim.boundary hstart,
    htrim.boundary hstop, ?_⟩
  simp only [Span.shift, Nat.add_assoc, Nat.add_comm start]

/-- **The place of a clause fault lies inside its line.** -/
theorem fault_between {start : Nat} {anchor : String}
    (h : directiveOf start line = .beforeLine anchor (.loop (.error (fault, span)))) :
    span.Between start (start + byteLength line) := by
  obtain ⟨s, hstart, hstop, rfl⟩ := exists_boundary_of_directiveOf h
  have := hstart.le
  have := hstop.le
  refine ⟨?_, ?_, ?_, ?_⟩ <;> dsimp only [Span.shift] <;> omega

/-- What is no blank is no gap. -/
theorem isGap_of_not_isBlank {c : Char} (h : isBlank c = false) : isGap c = false := by
  rw [Bool.eq_false_iff]
  intro hgap
  exact Bool.false_ne_true (h.symm.trans (isBlank_of_isXmlBlank hgap))

theorem trim_ne_nil_of_directiveOf {start : Nat} (h : directiveOf start line ≠ .verbatim) :
    trim line ≠ [] := by
  intro htrim
  apply h
  rw [directiveOf, htrim]
  rfl

/-- The line ends too early for its clause, and something behind its last token is none. -/
def BreaksOff (line : List Char) (fault : ClauseFault) : Prop :=
  (∃ expected, fault = .unexpected none expected) ∧
    ∃ l, (lexemes (.ofList (trim line))).getLast? = some l ∧ l.token? = none

/-- **A clause fault runs backwards exactly if its line breaks off.** -/
theorem fault_runs_back_iff {start : Nat} {anchor : String}
    (h : directiveOf start line = .beforeLine anchor (.loop (.error (fault, span)))) :
    span.stop < span.start ↔ BreaksOff line fault := by
  have hne : trim line ≠ [] := trim_ne_nil_of_directiveOf (by rw [h]; exact Directive.noConfusion)
  obtain ⟨s, hs, rfl⟩ := exists_clauseOf_of_directiveOf h
  have hc : (trim line).getLast? = some ((trim line).getLast hne) :=
    List.getLast?_eq_some_getLast hne
  have hgap := isGap_of_not_isBlank (getLast?_dropWhileEnd hc)
  rw [BreaksOff, ← stop_lt_start_iff (String.toList_ofList.symm ▸ hc) hgap hs]
  exact Nat.add_lt_add_iff_right

end Script

end Stencil

import Mathlib.Data.List.Pairwise
import Stencil.Proofs.Script.Positions
import Stencil.Proofs.Script.Spelling
import Stencil.Proofs.Text.Bytes

/-!
# The spans of tokens

A token is read from its own characters alone as it is read in front of others (`nextToken?_take`):
what stands behind it decides how long it gets, and then no more. So the part of a text under the
span of a token spells that token and nothing else. Every character that is no gap lies in a lexeme
(`exists_lexeme_around`), and a lexeme starts with a character that is none, so what the tokens
leave out tells whether the text is made of tokens throughout (`tokens_exact`).
-/

namespace Stencil

namespace Script
open Text

variable {cs : List Char} {c : Char} {byte : UInt8} {n position : Nat} {t : Token} {x : Lexeme}
  {text : String}

/-! ## Gaps -/

/-- A byte that is a gap by itself. -/
def isGapByte (byte : UInt8) : Bool :=
  byte == 0x20 || byte == 0x09 || byte == 0x0a || byte == 0x0d

theorem isGap_iff_toNat :
    isGap c = true ↔ c.toNat = 32 ∨ c.toNat = 9 ∨ c.toNat = 10 ∨ c.toNat = 13 := by
  have hchar : ∀ d : Char, (c == d) = true ↔ c.toNat = d.toNat := by
    intro d
    rw [beq_iff_eq, Char.toNat_inj]
  simp only [isGap, Bool.or_eq_true, hchar]
  simp [or_assoc]

theorem isGapByte_iff_toNat : isGapByte byte = true ↔
    byte.toNat = 32 ∨ byte.toNat = 9 ∨ byte.toNat = 10 ∨ byte.toNat = 13 := by
  simp [isGapByte, or_assoc, ← UInt8.toNat_inj]

theorem isGapByte_of_head (h : (String.utf8EncodeChar c)[0]? = some byte) :
    isGapByte byte = isGap c := by
  rw [Bool.eq_iff_iff, isGap_iff_toNat, isGapByte_iff_toNat]
  have hc : c.toNat = c.val.toNat := rfl
  unfold String.utf8EncodeChar at h
  dsimp only at h
  split at h
  · obtain rfl := Option.some.inj h
    rw [UInt8.toNat_ofNat']
    omega
  · -- A longer code starts with a byte that is none of ASCII.
    have hlarge : 192 ≤ byte.toNat := by
      split at h
      · obtain rfl := Option.some.inj h
        rw [UInt8.toNat_ofNat']
        omega
      · split at h
        all_goals
          obtain rfl := Option.some.inj h
          rw [UInt8.toNat_ofNat']
          omega
    omega

theorem utf8Size_of_isGap (h : isGap c = true) : c.utf8Size = 1 := by
  simp only [isGap, Bool.or_eq_true, beq_iff_eq] at h
  rcases h with ((rfl | rfl) | rfl) | rfl <;> rfl

/-! ## Reading a token again -/

theorem take_length_takeWhile (p : Char → Bool) (cs : List Char) :
    cs.take (cs.takeWhile p).length = cs.takeWhile p :=
  (List.prefix_iff_eq_take.mp (List.takeWhile_prefix p)).symm

theorem length_takeWhile_take (p : Char → Bool) (cs : List Char) :
    ((cs.take (cs.takeWhile p).length).takeWhile p).length = (cs.takeWhile p).length := by
  rw [take_length_takeWhile, List.takeWhile_idem]

theorem nameLength_take (cs : List Char) : nameLength (cs.take (nameLength cs)) = nameLength cs :=
  length_takeWhile_take continuesName cs

/-- Where a name starts, it has a first character. -/
theorem head?_take_nameLength (h : cs.head?.any startsName = true) :
    (cs.take (nameLength cs)).head? = cs.head? := by
  cases cs with
  | nil => rfl
  | cons d ds =>
    have hd : continuesName d = true := by
      rw [continuesName, show startsName d = true from h, Bool.true_or]
    rw [nameLength, take_length_takeWhile, List.takeWhile_cons_of_pos hd]
    rfl

theorem quotedLength_take {quote : Char} (hslash : quote ≠ '\\')
    (h : quotedLength quote cs = (true, n)) : quotedLength quote (cs.take n) = (true, n) := by
  obtain ⟨field, rest, rfl, rfl, hfield⟩ := exists_of_quotedLength h
  have htake : (field ++ quote :: rest).take (field.length + 1) = field ++ [quote] := by
    rw [List.append_cons, List.take_left' (by simp)]
  rw [htake, quotedLength_append hslash hfield]

theorem markToken?_take (h : markToken? c cs = (some t, n)) :
    markToken? c (cs.take n) = (some t, n) := by
  unfold markToken? at h
  split at h <;> cases h <;> rfl

/-- **A token is read from its own characters as it is read in front of others.** -/
theorem nextToken?_take (h : nextToken? c cs = (some t, n)) :
    nextToken? c (cs.take n) = (some t, n) := by
  unfold nextToken? at h
  split at h
  · next hc =>
    obtain ⟨ht, rfl⟩ := Prod.mk.inj h
    rw [nextToken?_of_startsName hc, nameLength_take, List.take_take, Nat.min_self, ht]
  · next hname =>
    split at h
    · next hc =>
      obtain ⟨ht, rfl⟩ := Prod.mk.inj h
      rw [nextToken?_of_isDigit hc (Bool.eq_false_iff.mpr hname), length_takeWhile_take,
        List.take_take, Nat.min_self, ht]
    · split at h
      · next hc =>
        obtain ⟨rfl, hhead⟩ := hc
        obtain ⟨ht, rfl⟩ := Prod.mk.inj h
        rw [nextToken?_dollar ((head?_take_nameLength hhead).symm ▸ hhead), nameLength_take,
          List.take_take, Nat.min_self, ht]
      · split at h
        · next hquote =>
          split at h
          · next m hm =>
            obtain ⟨ht, rfl⟩ := Prod.mk.inj h
            have hslash : c ≠ '\\' := by rcases hquote with rfl | rfl <;> decide
            rw [nextToken?_quote hquote (quotedLength_take hslash hm), List.take_take,
              Nat.min_eq_left (Nat.sub_le _ _), ht]
          · cases h
        · exact nextToken?_mark (markToken?_take h)

/-- Only names are keywords. -/
theorem startsName_of_keyword (h : nextToken? c cs = (some t, n))
    (ht : t = .foreachWord ∨ t = .asWord) : startsName c = true := by
  unfold nextToken? at h
  split at h
  · next hc => exact hc
  · split at h
    · obtain ⟨hnumber, -⟩ := Prod.mk.inj h
      unfold numberToken? at hnumber
      dsimp only at hnumber
      split at hnumber <;> rcases ht with rfl | rfl <;> cases hnumber
    · split at h
      · rcases ht with rfl | rfl <;> cases h
      · split at h
        · split at h <;> rcases ht with rfl | rfl <;> cases h
        · have hmark := isMark_of_markToken? h
          rcases ht with rfl | rfl <;> cases hmark

/-- **A keyword ends where no name goes on.** -/
theorem endsName_of_keyword (h : nextToken? c cs = (some t, n))
    (ht : t = .foreachWord ∨ t = .asWord) : EndsName (cs.drop n) := by
  rw [nextToken?_of_startsName (startsName_of_keyword h ht)] at h
  obtain ⟨-, rfl⟩ := Prod.mk.inj h
  obtain ⟨name, rest, rfl, hlength, -, hrest⟩ := exists_eq_append_nameLength cs
  rwa [hlength, List.drop_left]

/-- What is read from its own characters alone is the only lexeme of them. -/
theorem tokens?_of_nextToken? (hc : isGap c = false) (h : nextToken? c cs = (some t, n)) :
    tokens? (.ofList (c :: cs.take n)) = some [(t, ⟨0, byteLength (c :: cs.take n)⟩)] := by
  have hnext := nextToken?_take h
  have hall : (cs.take n).take n = cs.take n := by rw [List.take_take, Nat.min_self]
  have hnone : (cs.take n).drop n = [] := List.drop_eq_nil_of_le (List.length_take_le n cs)
  rw [tokens?, lexemes, String.toList_ofList, lexemesFrom, if_neg (Bool.not_eq_true _ ▸ hc), hnext]
  dsimp only
  rw [hall, hnone, lexemesFrom, Nat.zero_add]
  rfl

/-! ## Lexemes in their text -/

/-- **A lexeme is what is read where it stands.** -/
theorem exists_of_mem_lexemesFrom (h : x ∈ lexemesFrom position cs) :
    ∃ before c rest, cs = before ++ c :: rest ∧ isGap c = false ∧
      x = ⟨(nextToken? c rest).1, ⟨position + byteLength before,
        position + byteLength (before ++ c :: rest.take (nextToken? c rest).2)⟩⟩ := by
  fun_induction lexemesFrom position cs with
  | case1 => cases h
  | case2 position d cs hgap ih =>
    obtain ⟨before, c, rest, rfl, hc, rfl⟩ := ih h
    refine ⟨d :: before, c, rest, rfl, hc, ?_⟩
    rw [List.cons_append, byteLength_cons, byteLength_cons, Nat.add_assoc, Nat.add_assoc]
  | case3 position d cs hgap token? n hnext stop ih =>
    rcases List.mem_cons.mp h with rfl | h
    · refine ⟨[], d, cs, rfl, Bool.eq_false_iff.mpr hgap, ?_⟩
      rw [hnext]
      rfl
    · obtain ⟨before, c, rest, hcs, hc, rfl⟩ := ih h
      have hall : d :: cs = (d :: cs.take n) ++ (before ++ c :: rest) := by
        rw [← hcs, List.cons_append, List.take_append_drop]
      refine ⟨(d :: cs.take n) ++ before, c, rest, by rw [hall, List.append_assoc], hc, ?_⟩
      rw [List.append_assoc, byteLength_append (d :: cs.take n), byteLength_append (d :: cs.take n),
        ← Nat.add_assoc, ← Nat.add_assoc]

/-- A character of a joined text stands in its first or in its second part. -/
theorem cut_of_append_eq {front behind before after : List Char}
    (h : front ++ behind = before ++ c :: after) :
    (∃ l, before = front ++ l ∧ behind = l ++ c :: after) ∨ ∃ l, front = before ++ c :: l := by
  rcases List.append_eq_append_iff.mp h with ⟨l, hbefore, hbehind⟩ | ⟨l, hfront, hc⟩
  · exact .inl ⟨l, hbefore, hbehind⟩
  · cases l with
    | nil => exact .inl ⟨[], by simpa using hfront.symm, by simpa using hc.symm⟩
    | cons d l =>
      obtain ⟨rfl, -⟩ := List.cons.inj hc
      exact .inr ⟨l, hfront⟩

/-- **Every character that is no gap lies in a lexeme.** -/
theorem exists_lexeme_around (position : Nat) (cs : List Char) {after : List Char}
    (hc : isGap c = false) : ∀ before, cs = before ++ c :: after →
      ∃ x ∈ lexemesFrom position cs, x.span.start ≤ position + byteLength before ∧
        position + byteLength before + c.utf8Size ≤ x.span.stop := by
  fun_induction lexemesFrom position cs with
  | case1 =>
    intro before hcs
    exact absurd hcs (by simp)
  | case2 position d cs hgap ih =>
    intro before hcs
    cases before with
    | nil =>
      obtain ⟨rfl, rfl⟩ := List.cons.inj hcs
      exact absurd (hc.symm.trans hgap) Bool.false_ne_true
    | cons d' before =>
      obtain ⟨rfl, hrest⟩ := List.cons.inj hcs
      obtain ⟨x, hx, hstart, hstop⟩ := ih before hrest
      refine ⟨x, hx, ?_, ?_⟩ <;> rw [byteLength_cons] <;> omega
  | case3 position d cs hgap token? n hnext stop ih =>
    intro before hcs
    have hall : (d :: cs.take n) ++ cs.drop n = before ++ c :: after := by
      rw [← hcs, List.cons_append, List.take_append_drop]
    rcases cut_of_append_eq hall with ⟨l, rfl, hdrop⟩ | ⟨l, htake⟩
    · obtain ⟨x, hx, hstart, hstop⟩ := ih l hdrop
      refine ⟨x, List.mem_cons_of_mem _ hx, ?_, ?_⟩ <;> rw [byteLength_append] <;> omega
    · refine ⟨_, List.mem_cons_self, Nat.le_add_right _ _, ?_⟩
      have hstop : stop = position + byteLength (before ++ c :: l) := by rw [← htake]
      dsimp only
      rw [hstop, byteLength_append, byteLength_cons]
      omega

/-! ## Tokens in their text -/

/-- Reading every lexeme as a token succeeds if all of them are, and gives the tokens. -/
theorem mapM_spelled?_eq_some_iff {ls : List Lexeme} {xs : List (Token × Span)} :
    ls.mapM Lexeme.spelled? = some xs ↔
      (∀ l ∈ ls, l.token? ≠ none) ∧ xs = ls.filterMap Lexeme.spelled? := by
  induction ls generalizing xs with
  | nil => simp [eq_comm]
  | cons l ls ih =>
    rw [List.mapM_cons, List.forall_mem_cons, List.filterMap_cons, Lexeme.spelled?]
    cases l.token? with
    | none => simp
    | some t =>
      simp only [Option.map_some, Option.bind_eq_bind, Option.bind_some, Option.bind_eq_some_iff,
        Option.pure_def, ih]
      constructor
      · rintro ⟨ys, ⟨hall, rfl⟩, hxs⟩
        exact ⟨⟨Option.some_ne_none t, hall⟩, (Option.some.inj hxs).symm⟩
      · rintro ⟨⟨-, hall⟩, rfl⟩
        exact ⟨_, ⟨hall, rfl⟩, rfl⟩

theorem tokens?_eq_some_iff {xs : List (Token × Span)} :
    tokens? text = some xs ↔ (∀ l ∈ lexemes text, l.token? ≠ none) ∧ xs = tokens text :=
  mapM_spelled?_eq_some_iff

theorem exists_lexeme_of_mem_tokens {y : Token × Span} (h : y ∈ tokens text) :
    (⟨some y.1, y.2⟩ : Lexeme) ∈ lexemes text := by
  obtain ⟨⟨token?, span⟩, hl, hy⟩ := List.mem_filterMap.mp h
  obtain ⟨t, ht, rfl⟩ := Option.map_eq_some_iff.mp hy
  obtain rfl : token? = some t := ht
  exact hl

/-- Two lexemes do not overlap. -/
theorem lexemes_apart {l l' : Lexeme} (h : l ∈ lexemes text) (h' : l' ∈ lexemes text)
    (hne : l ≠ l') : l.span.stop ≤ l'.span.start ∨ l'.span.stop ≤ l.span.start := by
  let apart (a b : Lexeme) : Prop := a.span.stop ≤ b.span.start ∨ b.span.stop ≤ a.span.start
  have hsymm : Std.Symm apart := ⟨fun _ _ => Or.symm⟩
  have hpair : (lexemes text).Pairwise apart := (pairwise_lexemesFrom 0 text.toList).imp Or.inl
  exact hpair.forall h h' hne

/-- Tokens stand one behind the other. -/
theorem pairwise_tokens (text : String) :
    (tokens text).Pairwise fun a b => a.2.stop ≤ b.2.start := by
  refine (pairwise_lexemesFrom 0 text.toList).filterMap Lexeme.spelled? ?_
  intro l l' hle x hx y hy
  obtain ⟨t, -, rfl⟩ := Option.map_eq_some_iff.mp hx
  obtain ⟨t', -, rfl⟩ := Option.map_eq_some_iff.mp hy
  exact hle

/-- The byte at an offset of a text. -/
def byteAt? (text : String) (n : Nat) : Option UInt8 := text.toUTF8.data[n]?

theorem byteAt?_eq (text : String) (n : Nat) : byteAt? text n = (bytes text.toList)[n]? := by
  rw [byteAt?, ← toList_data_toUTF8, Array.getElem?_toList]

/-- The offset lies in the span of no token. -/
def Skipped (text : String) (n : Nat) : Prop :=
  ∀ y ∈ tokens text, n < y.2.start ∨ y.2.stop ≤ n

/-- If all lexemes are tokens, then only gaps are skipped. -/
theorem isGapByte_of_skipped (hall : ∀ l ∈ lexemes text, l.token? ≠ none)
    (hbyte : byteAt? text n = some byte) (hskip : Skipped text n) : isGapByte byte = true := by
  rw [byteAt?_eq] at hbyte
  obtain ⟨before, c, after, hcs, hle, hlt, hcode⟩ := exists_of_getElem?_bytes hbyte
  cases hc : isGap c with
  | true =>
    have hsize := utf8Size_of_isGap hc
    obtain rfl : n = byteLength before := by omega
    rw [Nat.sub_self] at hcode
    rw [isGapByte_of_head hcode, hc]
  | false =>
    -- The character would lie in a lexeme, which is a token.
    obtain ⟨l, hl, hstart, hstop⟩ := exists_lexeme_around 0 text.toList hc before hcs
    obtain ⟨t, ht⟩ := Option.ne_none_iff_exists'.mp (hall l hl)
    have hy : (t, l.span) ∈ tokens text := by
      refine List.mem_filterMap.mpr ⟨l, hl, ?_⟩
      rw [Lexeme.spelled?, ht]
      rfl
    have := hskip _ hy
    dsimp only at this
    omega

/-- A lexeme that is no token starts with a byte that is skipped and is no gap. -/
theorem exists_skipped_of_token?_eq_none {l : Lexeme} (hl : l ∈ lexemes text)
    (hnone : l.token? = none) :
    ∃ n byte, byteAt? text n = some byte ∧ Skipped text n ∧ isGapByte byte = false := by
  obtain ⟨before, c, rest, hcs, hc, rfl⟩ := exists_of_mem_lexemesFrom hl
  obtain ⟨byte, hbyte⟩ : ∃ byte, (String.utf8EncodeChar c)[0]? = some byte := by
    have hpos := c.utf8Size_pos
    rw [← String.length_utf8EncodeChar] at hpos
    exact ⟨_, List.getElem?_eq_getElem hpos⟩
  refine ⟨byteLength before, byte, ?_, ?_, ?_⟩
  · rw [byteAt?_eq, hcs, getElem?_bytes_append_cons, hbyte]
  · intro y hy
    have hy' := exists_lexeme_of_mem_tokens hy
    have hapart := lexemes_apart hl hy' (by rintro he; rw [he] at hnone; cases hnone)
    dsimp only at hapart
    rw [byteLength_append, byteLength_cons] at hapart
    have := c.utf8Size_pos
    omega
  · rw [isGapByte_of_head hbyte, hc]

theorem tokens?_eq_some_iff_skipped {xs : List (Token × Span)} : tokens? text = some xs ↔
    (∀ n byte, byteAt? text n = some byte → Skipped text n → isGapByte byte = true) ∧
      xs = tokens text := by
  rw [tokens?_eq_some_iff]
  refine and_congr_left fun _ => ⟨fun hall n byte => isGapByte_of_skipped hall, ?_⟩
  intro hgaps l hl hnone
  obtain ⟨n, byte, hbyte, hskip, hfalse⟩ := exists_skipped_of_token?_eq_none hl hnone
  exact Bool.false_ne_true (hfalse.symm.trans (hgaps n byte hbyte hskip))

/-- **The tokens of a text.** Each stands at its span, is all that its own characters spell, and if
it is a keyword, no name goes on behind it. The spans lie one behind the other. The text is made of
tokens throughout exactly if the bytes outside their spans are gaps. -/
theorem tokens_exact (text : String) :
    (∀ x ∈ tokens text, ∃ before part after, text.toList = before ++ part ++ after ∧
      x.2 = ⟨byteLength before, byteLength (before ++ part)⟩ ∧ part ≠ [] ∧
      tokens? (.ofList part) = some [(x.1, ⟨0, byteLength part⟩)] ∧
      (x.1 = .foreachWord ∨ x.1 = .asWord → EndsName after)) ∧
    (tokens text).Pairwise (fun x y => x.2.start < y.2.start ∧ x.2.stop ≤ y.2.start) ∧
    ∀ xs, tokens? text = some xs ↔
      (∀ n byte, byteAt? text n = some byte → Skipped text n → isGapByte byte = true) ∧
        xs = tokens text := by
  refine ⟨?_, ?_, fun xs => tokens?_eq_some_iff_skipped⟩
  · intro x hx
    obtain ⟨before, c, rest, hcs, hc, hx⟩ :=
      exists_of_mem_lexemesFrom (exists_lexeme_of_mem_tokens hx)
    obtain ⟨ht, hspan⟩ := Lexeme.mk.inj hx
    have hnext : nextToken? c rest = (some x.1, (nextToken? c rest).2) := Prod.ext ht.symm rfl
    refine ⟨before, c :: rest.take (nextToken? c rest).2, rest.drop (nextToken? c rest).2, ?_, ?_,
      List.cons_ne_nil _ _, tokens?_of_nextToken? hc hnext, endsName_of_keyword hnext⟩
    · rw [List.append_assoc, List.cons_append, List.take_append_drop, hcs]
    · rw [hspan, Nat.zero_add, Nat.zero_add]
  · refine (pairwise_tokens text).imp_of_mem ?_
    intro x y hx _ hle
    obtain ⟨part, hpart, hs⟩ := exists_stands_of_mem_tokens hx
    exact ⟨Nat.lt_of_lt_of_le (hs.lt hpart) hle, hle⟩

/-- A keyword in front of a quote, names that begin like keywords, a character that is skipped. -/
example : (tokens "foreachItem as9 é as'x'").map Prod.fst =
    [.word "foreachItem", .word "as9", .asWord, .quoted "x"] := by
  decide +kernel

end Script

end Stencil

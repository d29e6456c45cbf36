import Mathlib.Data.List.TakeWhile
import Stencil.Script.Expression

/-!
# Texts that tokens spell

A text is spelled by tokens if each of its lexemes is one (`SpelledBy`). Such a text is a gap, the
characters of the first token and the text that the other tokens spell (`spelledBy_cons_iff`), so
what a token looks like (`starts_var_iff`, `starts_quoted_iff`) decides what a list of tokens looks
like, with gaps anywhere between them.
-/

namespace Stencil.Script

variable {c quote : Char} {cs rest field : List Char} {t : Token} {ts : List Token} {n : Nat}
  {name text : String}

/-! ## Lexemes without their places -/

/-- Where a text stands does not matter to the tokens in it. -/
theorem map_token?_lexemesFrom (m : Nat) (cs : List Char) :
    ∀ n, (lexemesFrom m cs).map (·.token?) = (lexemesFrom n cs).map (·.token?) := by
  fun_induction lexemesFrom m cs with
  | case1 =>
    intro n
    rw [lexemesFrom]
  | case2 m c cs hgap ih =>
    intro n
    rw [lexemesFrom, if_pos hgap]
    exact ih _
  | case3 m c cs hgap token? k hnext stop ih =>
    intro n
    rw [lexemesFrom, if_neg hgap, hnext, List.map_cons, List.map_cons]
    exact congrArg _ (ih _)

/-- All lexemes of a text are tokens, and they are these. -/
def SpelledBy (cs : List Char) (ts : List Token) : Prop :=
  (lexemesFrom 0 cs).map (·.token?) = ts.map some

/-- A run of gaps. -/
def IsGaps (gaps : List Char) : Prop := ∀ c ∈ gaps, isGap c = true

/-- A text starts with a token, behind which it goes on as said. -/
inductive Starts (t : Token) : List Char → List Char → Prop
  | intro {c : Char} {cs : List Char} {n : Nat} (hc : isGap c = false)
      (hnext : nextToken? c cs = (some t, n)) : Starts t (c :: cs) (cs.drop n)

theorem spelledBy_nil_iff : SpelledBy [] ts ↔ ts = [] := by
  rw [SpelledBy, lexemesFrom, List.map_nil, eq_comm, List.map_eq_nil_iff]

theorem spelledBy_cons_of_isGap (hc : isGap c = true) :
    SpelledBy (c :: cs) ts ↔ SpelledBy cs ts := by
  rw [SpelledBy, lexemesFrom, if_pos hc, map_token?_lexemesFrom _ _ 0]
  rfl

theorem map_token?_lexemesFrom_cons (hc : isGap c = false) :
    (lexemesFrom 0 (c :: cs)).map (·.token?) = (nextToken? c cs).1 ::
      (lexemesFrom 0 (cs.drop (nextToken? c cs).2)).map (·.token?) := by
  rw [lexemesFrom, if_neg (Bool.not_eq_true _ ▸ hc)]
  exact congrArg _ (map_token?_lexemesFrom _ _ 0)

theorem spelledBy_append_iff {gaps : List Char} (h : IsGaps gaps) :
    SpelledBy (gaps ++ cs) ts ↔ SpelledBy cs ts := by
  induction gaps with
  | nil => rfl
  | cons c gaps ih =>
    obtain ⟨hc, h⟩ := List.forall_mem_cons.mp h
    rw [List.cons_append, spelledBy_cons_of_isGap hc, ih h]

/-- Only gaps are spelled by no token. -/
theorem spelledBy_nil_right_iff : SpelledBy cs [] ↔ IsGaps cs := by
  induction cs with
  | nil => exact iff_of_true (spelledBy_nil_iff.mpr rfl) fun c hc => nomatch hc
  | cons c cs ih =>
    rw [IsGaps, List.forall_mem_cons]
    cases hc : isGap c with
    | true =>
      rw [spelledBy_cons_of_isGap hc, ih]
      exact (and_iff_right rfl).symm
    | false =>
      refine iff_of_false ?_ fun h => Bool.false_ne_true h.1
      rw [SpelledBy, map_token?_lexemesFrom_cons hc]
      exact List.cons_ne_nil _ _

/-- **The first of several tokens stands behind a gap and in front of the text of the others.** -/
theorem spelledBy_cons_iff : SpelledBy cs (t :: ts) ↔
    ∃ gaps start rest, cs = gaps ++ start ∧ IsGaps gaps ∧ Starts t start rest ∧
      SpelledBy rest ts := by
  constructor
  · intro h
    induction cs with
    | nil => exact absurd (spelledBy_nil_iff.mp h) (List.cons_ne_nil _ _)
    | cons c cs ih =>
      cases hc : isGap c with
      | true =>
        obtain ⟨gaps, start, rest, rfl, hgaps, hstart, hrest⟩ :=
          ih ((spelledBy_cons_of_isGap hc).mp h)
        exact ⟨c :: gaps, start, rest, rfl, List.forall_mem_cons.mpr ⟨hc, hgaps⟩, hstart, hrest⟩
      | false =>
        rw [SpelledBy, map_token?_lexemesFrom_cons hc] at h
        obtain ⟨htoken, hrest⟩ := List.cons.inj h
        have hnone : IsGaps [] := fun d hd => nomatch hd
        exact ⟨[], c :: cs, _, rfl, hnone, .intro hc (Prod.ext htoken rfl), hrest⟩
  · rintro ⟨gaps, start, rest, rfl, hgaps, ⟨hc, hnext⟩, hrest⟩
    rw [spelledBy_append_iff hgaps, SpelledBy, map_token?_lexemesFrom_cons hc, hnext, List.map_cons]
    exact congrArg _ hrest

/-- Reading every lexeme as a token succeeds exactly if all of them are tokens. -/
theorem map_fst_mapM_spelled?_eq_some_iff {ls : List Lexeme} :
    (ls.mapM Lexeme.spelled?).map (List.map Prod.fst) = some ts ↔
      ls.map (·.token?) = ts.map some := by
  induction ls generalizing ts with
  | nil => cases ts <;> simp
  | cons l ls ih =>
    have hcons : ((l :: ls).mapM Lexeme.spelled?).map (List.map Prod.fst) = l.token?.bind fun t =>
        ((ls.mapM Lexeme.spelled?).map (List.map Prod.fst)).map (t :: ·) := by
      rw [List.mapM_cons, Lexeme.spelled?]
      cases l.token? with
      | none => rfl
      | some t => cases ls.mapM Lexeme.spelled? <;> rfl
    rw [hcons, List.map_cons]
    cases l.token? with
    | none => cases ts <;> simp
    | some t =>
      cases ts with
      | nil => simp
      | cons u us =>
        rw [List.map_cons, List.cons.injEq, ← ih, Option.bind_some, Option.map_eq_some_iff]
        constructor
        · rintro ⟨others, hothers, he⟩
          obtain ⟨rfl, rfl⟩ := List.cons.inj he
          exact ⟨rfl, hothers⟩
        · rintro ⟨he, hothers⟩
          exact ⟨us, hothers, by rw [Option.some.inj he]⟩

/-- **A text is read as tokens throughout exactly if they spell it.** -/
theorem map_fst_tokens?_eq_some_iff :
    (tokens? text).map (List.map Prod.fst) = some ts ↔ SpelledBy text.toList ts :=
  map_fst_mapM_spelled?_eq_some_iff

/-! ## Kinds of tokens -/

/-- Names, keywords and numbers. -/
def Token.isWord : Token → Bool
  | .foreachWord | .asWord | .word _ | .number _ => true
  | _ => false

/-- Tokens that are written with marks alone. -/
def Token.isMark : Token → Bool
  | .fatArrow | .arrow | .equals => true
  | .openParen | .closeParen | .openBracket | .closeBracket => true
  | _ => false

/-- How a token is read from its first character on, and how many characters behind that belong to
it. -/
inductive Reading (c : Char) (cs : List Char) : Token → Nat → Prop
  | word {t : Token} {n : Nat} (ht : t.isWord = true) : Reading c cs t n
  | var (hc : c = '$') (hcs : cs.head?.any startsName = true) :
      Reading c cs (.var (.ofList (cs.take (nameLength cs)))) (nameLength cs)
  | quoted {n : Nat} (hc : c = '"' ∨ c = '\'') (hcs : quotedLength c cs = (true, n)) :
      Reading c cs (.quoted (.ofList (cs.take (n - 1)))) n
  | mark {t : Token} {n : Nat} (ht : markToken? c cs = (some t, n)) : Reading c cs t n

theorem isWord_nameToken (name : List Char) : (nameToken name).isWord = true := by
  unfold nameToken
  dsimp only
  split
  · rfl
  · split <;> rfl

theorem isWord_of_numberToken? {digits : List Char} (h : numberToken? digits = some t) :
    t.isWord = true := by
  unfold numberToken? at h
  dsimp only at h
  split at h
  · exact Option.some.inj h ▸ rfl
  · cases h

theorem isMark_of_markToken? (h : markToken? c cs = (some t, n)) : t.isMark = true := by
  unfold markToken? at h
  split at h <;> cases h <;> rfl

theorem reading_of_nextToken? (h : nextToken? c cs = (some t, n)) : Reading c cs t n := by
  unfold nextToken? at h
  split at h
  · obtain ⟨ht, -⟩ := Prod.mk.inj h
    exact .word (Option.some.inj ht ▸ isWord_nameToken _)
  · split at h
    · obtain ⟨ht, -⟩ := Prod.mk.inj h
      exact .word (isWord_of_numberToken? ht)
    · split at h
      · next hc =>
        obtain ⟨ht, rfl⟩ := Prod.mk.inj h
        exact Option.some.inj ht ▸ .var hc.1 hc.2
      · split at h
        · next hc =>
          split at h
          · next n' hcs =>
            obtain ⟨ht, rfl⟩ := Prod.mk.inj h
            exact Option.some.inj ht ▸ .quoted hc hcs
          · cases (Prod.mk.inj h).1
        · exact .mark h

theorem nextToken?_of_startsName (hc : startsName c = true) (cs : List Char) : nextToken? c cs =
    (some (nameToken (c :: cs.take (nameLength cs))), nameLength cs) :=
  if_pos hc

theorem nextToken?_of_isDigit (hc : Text.isDigit c = true) (hname : startsName c = false)
    (cs : List Char) : nextToken? c cs =
      (numberToken? (c :: cs.take (cs.takeWhile Text.isDigit).length),
        (cs.takeWhile Text.isDigit).length) := by
  rw [nextToken?, if_neg (Bool.not_eq_true _ ▸ hname), if_pos hc]

theorem nextToken?_dollar (h : cs.head?.any startsName = true) :
    nextToken? '$' cs = (some (.var (.ofList (cs.take (nameLength cs)))), nameLength cs) := by
  rw [nextToken?, if_neg (by decide), if_neg (by decide), if_pos ⟨rfl, h⟩]

theorem nextToken?_quote (hquote : quote = '"' ∨ quote = '\'')
    (h : quotedLength quote cs = (true, n)) :
    nextToken? quote cs = (some (.quoted (.ofList (cs.take (n - 1)))), n) := by
  have hother : startsName quote = false ∧ Text.isDigit quote = false ∧ quote ≠ '$' := by
    rcases hquote with rfl | rfl <;> decide
  rw [nextToken?, if_neg (Bool.not_eq_true _ ▸ hother.1), if_neg (Bool.not_eq_true _ ▸ hother.2.1),
    if_neg fun h => hother.2.2 h.1, if_pos hquote, h]

theorem nextToken?_mark (h : markToken? c cs = (some t, n)) : nextToken? c cs = (some t, n) := by
  have hother : startsName c = false ∧ Text.isDigit c = false ∧ c ≠ '$' ∧ c ≠ '"' ∧ c ≠ '\'' := by
    unfold markToken? at h
    split at h
    case h_8 => cases h
    all_goals decide
  rw [nextToken?, if_neg (Bool.not_eq_true _ ▸ hother.1), if_neg (Bool.not_eq_true _ ▸ hother.2.1),
    if_neg fun h => hother.2.2.1 h.1, if_neg (not_or.mpr hother.2.2.2), h]

/-! ## Brackets -/

/-- The character of a bracket. -/
def Token.bracket? : Token → Option Char
  | .openParen => some '('
  | .closeParen => some ')'
  | .openBracket => some '['
  | .closeBracket => some ']'
  | _ => none

/-- **A bracket stands for itself, whatever is behind it.** -/
theorem starts_bracket_iff {bracket : Char} (ht : t.bracket? = some bracket) :
    Starts t cs rest ↔ cs = bracket :: rest := by
  constructor
  · rintro ⟨hc, hnext⟩
    cases reading_of_nextToken? hnext with
    | word h => cases t <;> cases h <;> cases ht
    | var => cases ht
    | quoted => cases ht
    | mark h =>
      unfold markToken? at h
      split at h <;> cases h <;> cases ht <;> rfl
  · rintro rfl
    have hnext : nextToken? bracket rest = (some t, 0) := by
      cases t <;> cases ht <;> rfl
    exact .intro (by cases t <;> cases ht <;> rfl) hnext

/-! ## Variables -/

/-- A letter or an underscore, and then letters, digits and underscores. -/
def IsName : List Char → Prop
  | [] => False
  | c :: cs => startsName c = true ∧ ∀ d ∈ cs, continuesName d = true

/-- What stands behind a name does not go on with it. -/
def EndsName (rest : List Char) : Prop := ∀ c ∈ rest.head?, continuesName c = false

theorem IsName.forall_mem (h : IsName cs) : ∀ c ∈ cs, continuesName c = true := by
  cases cs with
  | nil => cases h
  | cons c cs =>
    refine List.forall_mem_cons.mpr ⟨?_, h.2⟩
    rw [continuesName, h.1, Bool.true_or]

theorem nameLength_append (hname : ∀ c ∈ cs, continuesName c = true) (hrest : EndsName rest) :
    nameLength (cs ++ rest) = cs.length := by
  have hnone : rest.takeWhile continuesName = [] := by
    cases rest with
    | nil => rfl
    | cons c rest =>
      exact List.takeWhile_cons_of_neg (Bool.not_eq_true _ ▸ hrest c rfl)
  rw [nameLength, List.takeWhile_append_of_pos hname, hnone, List.append_nil]

/-- Every text is a name of some length, maybe of none, and a rest that ends it. -/
theorem exists_eq_append_nameLength (cs : List Char) :
    ∃ name rest, cs = name ++ rest ∧ nameLength cs = name.length ∧
      (∀ c ∈ name, continuesName c = true) ∧ EndsName rest := by
  refine ⟨cs.takeWhile continuesName, cs.dropWhile continuesName,
    List.takeWhile_append_dropWhile.symm, rfl, fun c hc => List.mem_takeWhile_imp hc, ?_⟩
  intro c hc
  have hnot := List.head?_dropWhile_not continuesName cs
  rwa [hc] at hnot

/-- **A variable is a sigil and the longest name behind it.** -/
theorem starts_var_iff : Starts (.var name) cs rest ↔
    cs = '$' :: name.toList ++ rest ∧ IsName name.toList ∧ EndsName rest := by
  constructor
  · rintro @⟨c, cs, n, hc, hnext⟩
    generalize ht : Token.var name = t at hnext
    cases reading_of_nextToken? hnext with
    | word h =>
      rw [← ht] at h
      cases h
    | var hdollar hcs =>
      obtain rfl := Token.var.inj ht
      obtain ⟨name, rest, rfl, hlength, hname, hrest⟩ := exists_eq_append_nameLength cs
      rw [String.toList_ofList, hdollar, hlength, List.take_left, List.drop_left]
      refine ⟨rfl, ?_, hrest⟩
      cases name with
      | cons d name => exact ⟨hcs, (List.forall_mem_cons.mp hname).2⟩
      | nil =>
        -- A character that starts a name would go on with it, too.
        cases rest with
        | nil => cases hcs
        | cons d rest =>
          have hd := hrest d rfl
          rw [continuesName, show startsName d = true from hcs] at hd
          cases hd
    | quoted => cases ht
    | mark h =>
      have hmark := isMark_of_markToken? h
      rw [← ht] at hmark
      cases hmark
  · rintro ⟨rfl, hname, hrest⟩
    have hlength := nameLength_append hname.forall_mem hrest
    have hhead : (name.toList ++ rest).head?.any startsName = true := by
      cases hchars : name.toList with
      | nil =>
        rw [hchars] at hname
        cases hname
      | cons d ds =>
        rw [hchars] at hname
        exact hname.1
    have hnext : nextToken? '$' (name.toList ++ rest) = (some (.var name), name.toList.length) := by
      rw [nextToken?_dollar hhead, hlength, List.take_left, String.ofList_toList]
    have hstarts := Starts.intro (by decide) hnext
    rwa [List.drop_left] at hstarts

/-! ## Quoted texts -/

/-- What can stand between two quotes: characters other than the quote and the backslash, and
backslashes with any character behind them but a line feed. -/
inductive Quotable (quote : Char) : List Char → Prop
  | nil : Quotable quote []
  | plain {c : Char} {cs : List Char} (hquote : c ≠ quote) (hslash : c ≠ '\\') :
      Quotable quote cs → Quotable quote (c :: cs)
  | escaped {c : Char} {cs : List Char} (hfeed : c ≠ '\n') :
      Quotable quote cs → Quotable quote ('\\' :: c :: cs)

theorem quotedLength_cons (h : c ≠ '\\') (cs : List Char) : quotedLength quote (c :: cs) =
    if c = quote then (true, 1)
    else ((quotedLength quote cs).1, (quotedLength quote cs).2 + 1) := by
  rw [quotedLength]
  · exact fun _ he => absurd he h
  · exact fun _ _ he => absurd he h

theorem quotedLength_escaped (h : c ≠ '\n') (cs : List Char) :
    quotedLength quote ('\\' :: c :: cs) =
      ((quotedLength quote cs).1, (quotedLength quote cs).2 + 2) := by
  rw [quotedLength]
  exact h

/-- The first quote that no backslash escapes closes a quoted text. -/
theorem quotedLength_append (hslash : quote ≠ '\\') (h : Quotable quote field)
    (rest : List Char) :
    quotedLength quote (field ++ quote :: rest) = (true, field.length + 1) := by
  induction h with
  | nil => rw [List.nil_append, quotedLength_cons hslash, if_pos rfl, List.length_nil]
  | plain hquote hc _ ih =>
    rw [List.cons_append, quotedLength_cons hc, if_neg hquote, ih, List.length_cons]
  | escaped hfeed _ ih =>
    rw [List.cons_append, List.cons_append, quotedLength_escaped hfeed, ih, List.length_cons,
      List.length_cons]

theorem exists_of_quotedLength (h : quotedLength quote cs = (true, n)) :
    ∃ field rest, cs = field ++ quote :: rest ∧ n = field.length + 1 ∧ Quotable quote field := by
  fun_induction quotedLength quote cs generalizing n with
  | case1 => cases h
  | case2 => cases h
  | case3 c cs hfeed closed m hm ih =>
    obtain ⟨rfl, rfl⟩ := Prod.mk.inj h
    obtain ⟨field, rest, rfl, rfl, hfield⟩ := ih hm
    exact ⟨'\\' :: c :: field, rest, rfl, rfl, .escaped hfeed hfield⟩
  | case4 cs _ _ =>
    obtain ⟨-, rfl⟩ := Prod.mk.inj h
    exact ⟨[], cs, rfl, rfl, .nil⟩
  | case5 c cs _ hescaped hquote closed m hm ih =>
    obtain ⟨rfl, rfl⟩ := Prod.mk.inj h
    obtain ⟨field, rest, rfl, rfl, hfield⟩ := ih hm
    -- A backslash would stand in front of something that it escapes or that breaks the text off.
    have hc : c ≠ '\\' := by
      rintro rfl
      cases field with
      | nil => exact hescaped _ _ rfl rfl
      | cons d field => exact hescaped _ _ rfl rfl
    exact ⟨c :: field, rest, rfl, rfl, .plain hquote hc hfield⟩

/-- **A quoted text stands between two quotes of one kind, and the second one is the first that no
backslash escapes.** -/
theorem starts_quoted_iff : Starts (.quoted text) cs rest ↔
    ∃ quote, (quote = '"' ∨ quote = '\'') ∧ cs = quote :: text.toList ++ quote :: rest ∧
      Quotable quote text.toList := by
  constructor
  · rintro @⟨c, cs, n, hc, hnext⟩
    generalize ht : Token.quoted text = t at hnext
    cases reading_of_nextToken? hnext with
    | word h =>
      rw [← ht] at h
      cases h
    | var => cases ht
    | quoted hquote hcs =>
      obtain rfl := Token.quoted.inj ht
      obtain ⟨field, rest, rfl, rfl, hfield⟩ := exists_of_quotedLength hcs
      have hbehind : (field ++ c :: rest).drop (field.length + 1) = rest := by
        rw [← List.drop_drop, List.drop_left, List.drop_one, List.tail_cons]
      rw [Nat.add_sub_cancel, List.take_left, String.toList_ofList, hbehind]
      exact ⟨c, hquote, rfl, hfield⟩
    | mark h =>
      have hmark := isMark_of_markToken? h
      rw [← ht] at hmark
      cases hmark
  · rintro ⟨quote, hquote, rfl, htext⟩
    have hslash : quote ≠ '\\' := by rcases hquote with rfl | rfl <;> decide
    have hlength := quotedLength_append hslash htext rest
    have hnext : nextToken? quote (text.toList ++ quote :: rest) =
        (some (.quoted text), text.toList.length + 1) := by
      rw [nextToken?_quote hquote hlength, Nat.add_sub_cancel, List.take_left, String.ofList_toList]
    have hstarts := Starts.intro (by rcases hquote with rfl | rfl <;> rfl) hnext
    rwa [← List.drop_drop, List.drop_left, List.drop_one, List.tail_cons] at hstarts

end Stencil.Script

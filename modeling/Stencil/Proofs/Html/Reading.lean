import Stencil.Proofs.Html.Settling

/-!
# Texts are read to their end

Reading allows a token a number of looks (`Builder.looks`) and a text as many steps as it is long.
Both are bounds that the definitions recurse on, and neither says what reading is. Here it is said
without them: a token **settles** (`Settles`) when it has been looked at until no rule asks to look
at it again, and a text is **read** (`Reads`) when the pieces have been taken off it one by one
until none is left.

The bounds are never used up. A look that asks for another leaves a smaller measure behind
(`Settling.advances_look`), so that a token settles (`settles_settle`); and a piece that is taken
off a text leaves a shorter one (`cutOff_next?`), so that every text is read to its end
(`reads_read`).
-/

namespace Stencil.Html
open Markup

variable {token : Token}

/-! ## Tokens -/

/-- The token is looked at until no rule asks to look at it again. -/
inductive Settles (token : Token) : Builder → Builder → Prop where
  | done {b b' : Builder} : look token b = (.done, b') → Settles token b b'
  | again {b s b' : Builder} : look token b = (.again token, s) → Settles token s b' →
      Settles token b b'

theorem sound_look (token : Token) {b : Builder} (hb : b.Sound) :
    (look token b).2.Sound ∧
      (look token b).1.Asks token ((look token b).2.looks token < b.looks token) :=
  Settling.advances_look hb b rfl

theorem settle_succ (n : Nat) (token : Token) (b : Builder) :
    settle (n + 1) token b = (match (look token b).1 with
      | .done => (return : Build Unit)
      | .again token' => settle n token') (look token b).2 := by
  rw [settle]
  rfl

/-- **The looks that are allowed for suffice**: a token settles, and leaves a sound state behind. -/
theorem settles_settle {n : Nat} {b : Builder} (hb : b.Sound) (hn : b.looks token ≤ n) :
    Settles token b (settle n token b).2 ∧ (settle n token b).2.Sound := by
  induction n generalizing b with
  | zero => exact absurd hn (Nat.not_succ_le_zero _)
  | succ n ih =>
    obtain ⟨hsound, hasks⟩ := sound_look token hb
    rw [settle_succ]
    cases hlook : look token b with
    | mk reply s =>
      rw [hlook] at hsound hasks
      obtain rfl | ⟨rfl, hlt⟩ := hasks
      · exact ⟨.done hlook, hsound⟩
      · obtain ⟨hsettles, hsound'⟩ := ih hsound (Nat.le_of_lt_succ (Nat.lt_of_lt_of_le hlt hn))
        exact ⟨.again hlook hsettles, hsound'⟩

/-- What a token makes of a document, however often it is looked at. -/
def Feeds (token : Token) (b b' : Builder) : Prop :=
  match if b.dropLineFeed then dropLineFeed token else some token with
  | none => b' = { b with dropLineFeed := false }
  | some token => Settles token { b with dropLineFeed := false } b'

theorem feeds_feed (token : Token) {b : Builder} (hb : b.Sound) :
    Feeds token b (feed token b).2 ∧ (feed token b).2.Sound := by
  have hdropped : { b with dropLineFeed := false : Builder }.Sound := ⟨hb.returns, hb.plain⟩
  have hfeed : feed token b =
      match if b.dropLineFeed then dropLineFeed token else some token with
      | none => ((), { b with dropLineFeed := false })
      | some token => settle (b.looks token) token { b with dropLineFeed := false } := by
    change (match if b.dropLineFeed then dropLineFeed token else some token with
      | none => (return : Build Unit)
      | some token => settle (b.looks token) token) { b with dropLineFeed := false } = _
    cases if b.dropLineFeed then dropLineFeed token else some token <;> rfl
  rw [Feeds, hfeed]
  split
  · exact ⟨rfl, hdropped⟩
  · exact settles_settle hdropped (Nat.le_refl _)

/-- What the tokens of a piece make of a document. -/
inductive FeedsAll : List Token → Builder → Builder → Prop where
  | nil {b : Builder} : FeedsAll [] b b
  | endTag {name : String} {rest : List Token} {b s b' : Builder} :
      Feeds (.endTag name) { b with content := .ordinary } s → FeedsAll rest s b' →
      FeedsAll (.endTag name :: rest) b b'
  | cons {token : Token} {rest : List Token} {b s b' : Builder} :
      (∀ name, token ≠ .endTag name) → Feeds token b s → FeedsAll rest s b' →
      FeedsAll (token :: rest) b b'

theorem feedsAll_feedAll (tokens : List Token) {b : Builder} (hb : b.Sound) :
    FeedsAll tokens b (feedAll tokens b) ∧ (feedAll tokens b).Sound := by
  induction tokens generalizing b with
  | nil => exact ⟨.nil, hb⟩
  | cons token rest ih =>
    cases token with
    | endTag name =>
      obtain ⟨hfeeds, hsound⟩ :=
        feeds_feed (.endTag name) (b := { b with content := .ordinary }) ⟨hb.returns, hb.plain⟩
      obtain ⟨hrest, hsound'⟩ := ih hsound
      exact ⟨.endTag hfeeds hrest, hsound'⟩
    | text | nul | startTag | comment | doctype | eof =>
      obtain ⟨hfeeds, hsound⟩ := feeds_feed _ hb
      obtain ⟨hrest, hsound'⟩ := ih hsound
      exact ⟨.cons nofun hfeeds hrest, hsound'⟩

/-! ## Texts -/

/-- What a text makes of a document: the pieces are taken off it until none is left. -/
inductive Reads : List Char → Builder → Builder → Prop where
  | atEnd {cs : List Char} {b b' : Builder} :
      Token.next? b.content b.readsSections cs = none → Feeds .eof b b' → Reads cs b b'
  | piece {cs rest : List Char} {tokens : List Token} {b s b' : Builder} :
      Token.next? b.content b.readsSections cs = some (tokens, rest) →
      FeedsAll tokens (if beginsWithMistake cs then { b with dropLineFeed := false } else b) s →
      Reads (behind b.content tokens rest) s b' → Reads cs b b'

theorem reads_readAll {fuel : Nat} {cs : List Char} {b : Builder} (hb : b.Sound)
    (hfuel : cs.length < fuel) : Reads cs b (readAll fuel cs b) := by
  induction fuel generalizing cs b with
  | zero => exact absurd hfuel (Nat.not_lt_zero _)
  | succ fuel ih =>
    rw [readAll]
    split
    · next hnext => exact .atEnd hnext (feeds_feed .eof hb).1
    · next tokens rest hnext =>
      extract_lets noted
      have hnoted : noted.Sound := by
        unfold noted
        split
        · exact ⟨hb.returns, hb.plain⟩
        · exact hb
      have hcontent : noted.content = b.content := by
        unfold noted
        split <;> rfl
      obtain ⟨hfeeds, hsound⟩ := feedsAll_feedAll tokens hnoted
      have hshorter : (behind b.content tokens rest).length < cs.length :=
        (behind_suffix b.content tokens rest).length_le.trans_lt (cutOff_next? hnext).2
      rw [hcontent]
      exact .piece hnext hfeeds (ih hsound (hshorter.trans_le (Nat.le_of_lt_succ hfuel)))

theorem Builder.sound_start : Builder.start.Sound :=
  ⟨⟨by decide, by decide⟩, List.forall_mem_nil _⟩

/-- **Every text is read to its end**: neither the looks that a token is allowed nor the steps that
a text is allowed are ever used up. -/
theorem reads_read (text : String) :
    ∃ b, Reads (normalizeInput text.toList) Builder.start b ∧ read text = b.forest :=
  ⟨_, reads_readAll Builder.sound_start (Nat.lt_succ_self _), rfl⟩

end Stencil.Html

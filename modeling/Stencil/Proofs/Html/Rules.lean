import Mathlib
import Stencil.Html.Reader
import Stencil.Proofs.Html.Building

/-!
# The rules of document building bring no attribute names

Every rule keeps the attributes of the document within the names of the tokens that it is given,
and a token that a rule asks to be looked at again has no other names either. So reading a text ends
with a document whose attribute names all stand in the text or are spellings of foreign content.

As with the steps, a rule is run symbolically; it is done once its own tag, and the token that it
gives back, are known to bear names of the set.
-/

namespace Stencil.Html
open Markup Std.Do

set_option mvcgen.warning false

variable {N : Names} {tag : Tag} {token : Token} {attributes : List Attribute}

/-- The token that is to be looked at again bears names of the set. -/
@[grind]
def Reply.NamedIn (N : Names) : Reply → Prop
  | .done => True
  | .again token => token.NamedIn N

namespace Naming

/-- The rule keeps the attributes within the set, also those of a token that it gives back. -/
abbrev Follows (N : Names) (rule : Build Reply) : Prop :=
  ⦃fun b => ⌜b.NamedIn N⌝⦄ rule ⦃⇓ r b => ⌜r.NamedIn N ∧ b.NamedIn N⌝⦄

/-! ## Shared steps -/

@[scoped spec]
theorem follows_done : Follows N done := by
  mvcgen [done]

@[scoped spec]
theorem follows_retry (h : token.NamedIn N) : Follows N (retry token) := by
  mvcgen [retry]

@[scoped spec]
theorem follows_retryIn (mode : Mode) (h : token.NamedIn N) : Follows N (retryIn mode token) := by
  mvcgen [retryIn] with grind

@[scoped spec]
theorem keeps_readContent (content : Content) : Keeps N (readContent content) := by
  mvcgen [readContent] with grind

@[scoped spec]
theorem follows_openRaw (h : tag.NamedIn N) : Follows N (openRaw tag) := by
  mvcgen [openRaw]

@[scoped spec]
theorem follows_openText (h : tag.NamedIn N) : Follows N (openText tag) := by
  mvcgen [openText]

@[scoped spec]
theorem keeps_addMissingAttributes (id : NodeId) (h : NamedIn N attributes) :
    Keeps N (addMissingAttributes id attributes) := by
  apply keeps_editForest
  intro g hg
  apply hg.setValue
  intro v hv
  cases v with
  | element e =>
    intro a ha
    rcases List.mem_append.mp ha with hold | hnew
    · exact hv a hold
    · exact h a (List.mem_of_mem_filter hnew)
  | document | fragment | doctype | comment | text | instruction => exact hv

@[scoped spec]
theorem follows_mergeRoot (h : tag.NamedIn N) : Follows N (mergeRoot tag) := by
  mvcgen [mergeRoot] with grind

@[scoped spec]
theorem keeps_resetMode : Keeps N resetMode := by
  mvcgen [resetMode] with grind

@[scoped spec]
theorem follows_leave (name : String) (h : token.NamedIn N) : Follows N (leave name token) := by
  mvcgen [leave] with grind

@[scoped spec]
theorem keeps_closeTemplate : Keeps N closeTemplate := by
  mvcgen [closeTemplate] with grind

/-! ## Before the body -/

@[scoped spec]
theorem follows_ruleInitial (h : token.NamedIn N) : Follows N (ruleInitial token) := by
  mvcgen [ruleInitial] with grind [Forest.AllValues.append]

@[scoped spec]
theorem keeps_openRoot (h : NamedIn N attributes) : Keeps N (openRoot attributes) := by
  mvcgen [openRoot] with grind [Forest.AllValues.append]

@[scoped spec]
theorem follows_ruleBeforeHtml (h : token.NamedIn N) : Follows N (ruleBeforeHtml token) := by
  mvcgen [ruleBeforeHtml] with grind [namedIn_nil]

@[scoped spec]
theorem keeps_openHead (h : NamedIn N attributes) : Keeps N (openHead attributes) := by
  mvcgen [openHead] with grind

@[scoped spec]
theorem follows_ruleBeforeHead (h : token.NamedIn N) : Follows N (ruleBeforeHead token) := by
  mvcgen [ruleBeforeHead] with grind [namedIn_nil]

@[scoped spec]
theorem follows_ruleInHead (h : token.NamedIn N) : Follows N (ruleInHead token) := by
  mvcgen [ruleInHead] with grind

@[scoped spec]
theorem follows_ruleAfterHead (h : token.NamedIn N) : Follows N (ruleAfterHead token) := by
  mvcgen [ruleAfterHead] with grind

/-! ## In the body -/

@[scoped spec]
theorem follows_endInTemplate : Follows N endInTemplate := by
  mvcgen [endInTemplate] with grind

@[scoped spec]
theorem follows_openForeign (name : QName) (h : tag.NamedIn N) :
    Follows N (openForeign name tag) := by
  mvcgen [openForeign] with grind

@[scoped spec]
theorem keeps_closeListItem (names : List String) : Keeps N (closeListItem names) := by
  mvcgen [closeListItem]

@[scoped spec]
theorem keeps_popIfNamed (name : String) : Keeps N (popIfNamed name) := by
  mvcgen [popIfNamed]

@[scoped spec]
theorem follows_addVoid (h : tag.NamedIn N) : Follows N (addVoid tag) := by
  mvcgen [addVoid]

@[scoped spec]
theorem follows_startTagInBody (h : tag.NamedIn N) : Follows N (startTagInBody tag) := by
  mvcgen [startTagInBody] with grind [Tag.NamedIn, Forest.AllValues.detach]

@[scoped spec]
theorem follows_endTagInBody (name : String) : Follows N (endTagInBody name) := by
  mvcgen [endTagInBody] with grind [Tag.NamedIn]

@[scoped spec]
theorem follows_ruleInBody (h : token.NamedIn N) : Follows N (ruleInBody token) := by
  mvcgen [ruleInBody] with grind

@[scoped spec]
theorem follows_ruleText (token : Token) : Follows N (ruleText token) := by
  mvcgen [ruleText]

/-! ## In tables -/

@[scoped spec]
theorem keeps_closeToTable : Keeps N closeToTable := keeps_popWhile _

@[scoped spec]
theorem keeps_closeToRowGroup : Keeps N closeToRowGroup := keeps_popWhile _

@[scoped spec]
theorem keeps_closeToRow : Keeps N closeToRow := keeps_popWhile _

@[scoped spec]
theorem follows_moveOutOfTable (h : token.NamedIn N) : Follows N (moveOutOfTable token) := by
  mvcgen [moveOutOfTable] with grind

@[scoped spec]
theorem follows_gatherTableText (h : token.NamedIn N) : Follows N (gatherTableText token) := by
  mvcgen [gatherTableText] with grind

@[scoped spec]
theorem follows_ruleInTable (h : token.NamedIn N) : Follows N (ruleInTable token) := by
  mvcgen [ruleInTable] with grind

@[scoped spec]
theorem keeps_flushTableText (texts : List (Bool × List Char)) (outside : Bool) :
    Keeps N (flushTableText texts outside) := by
  induction texts with
  | nil => mvcgen [flushTableText]
  | cons entry rest ih =>
    unfold flushTableText
    mvcgen [ih] with grind

@[scoped spec]
theorem follows_ruleInTableText (h : token.NamedIn N) : Follows N (ruleInTableText token) := by
  mvcgen [ruleInTableText] with grind

@[scoped spec]
theorem follows_ruleInCaption (h : token.NamedIn N) : Follows N (ruleInCaption token) := by
  mvcgen [ruleInCaption] with grind

@[scoped spec]
theorem follows_ruleInColumnGroup (h : token.NamedIn N) :
    Follows N (ruleInColumnGroup token) := by
  mvcgen [ruleInColumnGroup] with grind

@[scoped spec]
theorem follows_ruleInTableBody (h : token.NamedIn N) : Follows N (ruleInTableBody token) := by
  mvcgen [ruleInTableBody] with grind

@[scoped spec]
theorem follows_ruleInRow (h : token.NamedIn N) : Follows N (ruleInRow token) := by
  mvcgen [ruleInRow] with grind

@[scoped spec]
theorem follows_ruleInCell (h : token.NamedIn N) : Follows N (ruleInCell token) := by
  mvcgen [ruleInCell] with grind

/-! ## In a `select`, in templates and outside the body -/

@[scoped spec]
theorem follows_ruleInSelect (h : token.NamedIn N) : Follows N (ruleInSelect token) := by
  mvcgen [ruleInSelect] with grind

@[scoped spec]
theorem follows_ruleInSelectInTable (h : token.NamedIn N) :
    Follows N (ruleInSelectInTable token) := by
  mvcgen [ruleInSelectInTable] with grind

@[scoped spec]
theorem follows_ruleInTemplate (h : token.NamedIn N) : Follows N (ruleInTemplate token) := by
  mvcgen [ruleInTemplate] with grind

@[scoped spec]
theorem follows_ruleAfterBody (h : token.NamedIn N) : Follows N (ruleAfterBody token) := by
  mvcgen [ruleAfterBody] with grind

@[scoped spec]
theorem follows_ruleInFrameset (h : token.NamedIn N) : Follows N (ruleInFrameset token) := by
  mvcgen [ruleInFrameset] with grind

@[scoped spec]
theorem follows_ruleAfterFrameset (h : token.NamedIn N) :
    Follows N (ruleAfterFrameset token) := by
  mvcgen [ruleAfterFrameset] with grind

@[scoped spec]
theorem follows_ruleAfterAfterBody (h : token.NamedIn N) :
    Follows N (ruleAfterAfterBody token) := by
  mvcgen [ruleAfterAfterBody] with grind

@[scoped spec]
theorem follows_ruleAfterAfterFrameset (h : token.NamedIn N) :
    Follows N (ruleAfterAfterFrameset token) := by
  mvcgen [ruleAfterAfterFrameset] with grind

/-- Whatever the mode, its rule keeps the attributes within the set. -/
@[scoped spec]
theorem follows_rule (mode : Mode) (h : token.NamedIn N) : Follows N (rule mode token) := by
  cases mode with
  | initial => exact follows_ruleInitial h
  | beforeHtml => exact follows_ruleBeforeHtml h
  | beforeHead => exact follows_ruleBeforeHead h
  | inHead => exact follows_ruleInHead h
  | afterHead => exact follows_ruleAfterHead h
  | inBody => exact follows_ruleInBody h
  | text => exact follows_ruleText token
  | inTable => exact follows_ruleInTable h
  | inTableText => exact follows_ruleInTableText h
  | inCaption => exact follows_ruleInCaption h
  | inColumnGroup => exact follows_ruleInColumnGroup h
  | inTableBody => exact follows_ruleInTableBody h
  | inRow => exact follows_ruleInRow h
  | inCell => exact follows_ruleInCell h
  | inSelect => exact follows_ruleInSelect h
  | inSelectInTable => exact follows_ruleInSelectInTable h
  | inTemplate => exact follows_ruleInTemplate h
  | afterBody => exact follows_ruleAfterBody h
  | inFrameset => exact follows_ruleInFrameset h
  | afterFrameset => exact follows_ruleAfterFrameset h
  | afterAfterBody => exact follows_ruleAfterAfterBody h
  | afterAfterFrameset => exact follows_ruleAfterAfterFrameset h

/-! ## Foreign content -/

@[scoped spec]
theorem follows_leaveForeign (h : token.NamedIn N) : Follows N (leaveForeign token) := by
  mvcgen [leaveForeign]

@[scoped spec]
theorem follows_endForeign (name : String) (first : Bool) (stack : List Frame) :
    Follows N (endForeign name first stack) := by
  induction stack generalizing first with
  | nil => mvcgen [endForeign]
  | cons f rest ih =>
    cases rest with
    | nil => mvcgen [endForeign]
    | cons g rest =>
      unfold endForeign
      mvcgen [ih]

@[scoped spec]
theorem follows_ruleForeign (h : token.NamedIn N) : Follows N (ruleForeign token) := by
  mvcgen [ruleForeign] with grind

/-! ## Reading -/

@[scoped spec]
theorem follows_look (h : token.NamedIn N) : Follows N (look token) := by
  mvcgen [look]

@[scoped spec]
theorem keeps_settle (looks : Nat) (h : token.NamedIn N) : Keeps N (settle looks token) := by
  induction looks generalizing token with
  | zero => mvcgen [settle]
  | succ looks ih =>
    unfold settle
    mvcgen [ih] with grind

theorem namedIn_of_dropLineFeed {token' : Token} (h : token.NamedIn N)
    (hdrop : dropLineFeed token = some token') : token'.NamedIn N := by
  unfold dropLineFeed at hdrop
  split at hdrop
  · split at hdrop
    · cases hdrop
    · obtain rfl := Option.some.inj hdrop
      trivial
  · exact Option.some.inj hdrop ▸ h

theorem keeps_feed (h : token.NamedIn N) : Keeps N (feed token) := by
  mvcgen [feed] with grind [namedIn_of_dropLineFeed]

end Naming

theorem namedIn_feed {b : Builder} (h : token.NamedIn N) (hb : b.NamedIn N) :
    (feed token b).2.NamedIn N :=
  Naming.keeps_feed h b hb

/-- The tokens of a piece keep the attributes within a set that has all their names. -/
theorem namedIn_feedAll {tokens : List Token} {b : Builder} (h : ∀ t ∈ tokens, t.NamedIn N)
    (hb : b.NamedIn N) : (feedAll tokens b).NamedIn N := by
  induction tokens generalizing b with
  | nil => exact hb
  | cons token rest ih =>
    obtain ⟨htoken, hrest⟩ := List.forall_mem_cons.mp h
    cases token with
    | endTag name =>
      have hordinary : { b with content := .ordinary : Builder }.NamedIn N :=
        ⟨hb.forest, hb.formatting⟩
      exact ih hrest (namedIn_feed htoken hordinary)
    | text | nul | startTag | comment | doctype | eof => exact ih hrest (namedIn_feed htoken hb)

/-- The names that attributes can get from a text: a part of it, or a spelling of foreign
content. -/
def Names.of (text : List Char) : Names :=
  ⟨fun name => Written text name ∨ name ∈ foreignSpellings, fun _ => .inr⟩

theorem Token.WrittenIn.namedIn {text : List Char} (h : token.WrittenIn text) :
    token.NamedIn (.of text) := by
  cases token with
  | startTag tag => exact fun a ha => .inl (h tag rfl a ha)
  | text | nul | endTag | comment | doctype | eof => trivial

theorem behind_suffix (content : Content) (tokens : List Token) (rest : List Char) :
    behind content tokens rest <:+ rest := by
  unfold behind
  split
  · split
    · exact List.suffix_cons _ _
    · exact List.suffix_rfl
  · exact List.suffix_rfl

theorem namedIn_readAll {text : List Char} (fuel : Nat) {cs : List Char} {b : Builder}
    (hcs : cs <:+ text) (hb : b.NamedIn (.of text)) :
    (readAll fuel cs b).NamedIn (.of text) := by
  induction fuel generalizing cs b with
  | zero => exact hb
  | succ fuel ih =>
    rw [readAll]
    split
    · exact namedIn_feed trivial hb
    · next tokens rest hnext =>
      have hcut := (cutOff_next? hnext).1.mono hcs
      refine ih ((behind_suffix _ _ _).trans hcut.rest)
        (namedIn_feedAll (fun t ht => (hcut.written t ht).namedIn) ?_)
      split
      · exact ⟨hb.forest, hb.formatting⟩
      · exact hb

/-- **Reading a text makes no attribute names up**: each stands in the text, or foreign content
spells it so. -/
theorem namedIn_read (text : String) :
    (read text).AllValues (ValueNamedIn (.of (normalizeInput text.toList))) :=
  (namedIn_readAll _ List.suffix_rfl Builder.namedIn_start).forest

end Stencil.Html

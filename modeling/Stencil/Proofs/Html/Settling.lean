import Mathlib
import Stencil.Proofs.Html.Rules

/-!
# Each look at a token leaves fewer to be taken

A rule may hand its token on: to another mode, or to the mode that suits the document after some
elements have been closed. Why this comes to an end is not seen from one rule, since modes hand
tokens to each other in circles. `Builder.looks` bounds how often a token can still be looked at,
and every rule that asks for another look leaves fewer behind (`Settling.advances_look`): either it
has closed an **enclosure**, a table, a template or a `select`, or it has opened none and the mode
has come closer to the one that the token belongs to (`looks_lt`).

Two facts about the state are needed for this, and every rule keeps them (`Builder.Sound`). The mode
to which the text of an element returns is one that holds elements; and no remembered formatting
element is an enclosure, so that none is opened when these are opened again.

What a step does is said in three degrees. A step is **steady** if it leaves the mode alone and
remembers no enclosure; it is **closing** if it opens no enclosure either; and a rule **advances**
if it ends in a sound state with fewer looks to be taken, or asks for no other.
-/

namespace Stencil.Html
open Markup Std.Do

set_option mvcgen.warning false

variable {token : Token} {tag : Tag} {name : String}

/-! ## What steps leave alone -/

/-- A tag of an element that is no enclosure. -/
def Tag.IsPlain (tag : Tag) : Prop := isEnclosure (.html tag.name) = false

/-- A boundary, or an element that is no enclosure. -/
@[grind]
def Formatting.IsPlain : Formatting → Prop
  | .marker => True
  | .element _ tag => tag.IsPlain

/-- No remembered element is an enclosure, so that no enclosure is opened again. -/
def Builder.IsPlain (b : Builder) : Prop := ∀ e ∈ b.formatting, e.IsPlain

/-- The mode stays, and no enclosure comes to be remembered. -/
@[mk_iff]
structure Builder.Steady (b b' : Builder) : Prop where
  mode : b'.mode = b.mode
  returnMode : b'.returnMode = b.returnMode
  plain : b.IsPlain → b'.IsPlain

theorem Builder.IsPlain.of_find? {b : Builder} (hb : b.IsPlain) {p : Formatting → Bool}
    {id : NodeId} (h : b.formatting.find? p = some (.element id tag)) : tag.IsPlain :=
  hb _ (List.mem_of_find?_eq_some h)

theorem isEnclosure_html (name : String) :
    isEnclosure (.html name) = (name == "select" || name == "table" || name == "template") := by
  simp only [isEnclosure, oneOf, QName.html, List.contains_cons, List.contains_nil,
    beq_self_eq_true, Bool.true_and, Bool.or_false, Bool.or_assoc]

theorem isEnclosure_of_isNamed {q : QName} (h : isNamed name q)
    (hname : isEnclosure (.html name)) : isEnclosure q := by
  simp only [isNamed, isEnclosure, oneOf, Bool.and_eq_true, beq_iff_eq] at h hname ⊢
  exact ⟨h.1, h.2 ▸ hname.2⟩

theorem countP_popThrough (name : String) (stack : List Frame) :
    let rest := (stack.dropWhile fun f => !isNamed name f.name).drop 1
    if stack.any (fun f => isNamed name f.name) then
      isEnclosure (.html name) →
        rest.countP (fun f => isEnclosure f.name) < stack.countP fun f => isEnclosure f.name
    else rest = [] := by
  induction stack with
  | nil => rfl
  | cons f stack ih =>
    cases hf : isNamed name f.name with
    | true =>
      simp only [List.any_cons, List.dropWhile_cons, hf, Bool.true_or, if_true, Bool.not_true,
        Bool.false_eq_true, if_false, List.drop_succ_cons, List.drop_zero]
      intro hname
      have hcount : isEnclosure f.name := isEnclosure_of_isNamed hf hname
      simp [hcount]
    | false =>
      simp only [List.any_cons, List.dropWhile_cons, hf, Bool.false_or, Bool.not_false, if_true]
      split at ih
      · next hany =>
        rw [if_pos hany]
        intro hname
        exact Nat.lt_of_lt_of_le (ih hname) (List.sublist_cons_self f stack).countP_le
      · next hany =>
        rw [if_neg hany]
        exact ih

theorem suitableMode_of_nil {b : Builder} (h : b.open_ = []) : suitableMode b = .inBody := by
  rw [suitableMode, h, suitableMode.go]

theorem enclosures_of_nil {b : Builder} (h : b.open_ = []) : b.enclosures = 0 := by
  rw [Builder.enclosures, h, List.countP_nil]

/-- A mode in which there is more than text. -/
def Mode.HoldsElements (mode : Mode) : Prop := mode ≠ .text ∧ mode ≠ .inTableText

/-- Behind a text comes a mode in which there is more, and no remembered element is an enclosure. -/
@[mk_iff]
structure Builder.Sound (b : Builder) : Prop where
  returns : b.returnMode.HoldsElements
  plain : b.IsPlain

/-! ## Looks -/

theorem mem_headTags {name : String} : name ∈ headTags ↔
    name = "base" ∨ name = "basefont" ∨ name = "bgsound" ∨ name = "link" ∨ name = "meta" ∨
      name = "noframes" ∨ name = "script" ∨ name = "style" ∨ name = "template" ∨
      name = "title" := by
  simp [headTags]

theorem isPlain_of_mem_formattingTags {tag : Tag} (h : tag.name ∈ formattingTags) :
    tag.IsPlain := by
  have hall : ∀ name ∈ formattingTags, isEnclosure (.html name) = false := by decide
  exact hall tag.name h

theorem tableDepth_le (token : Token) : token.tableDepth ≤ 3 := by
  unfold Token.tableDepth
  split
  · split_ifs <;> omega
  · omega

theorem detours_le (mode : Mode) (token : Token) : mode.detours token ≤ 7 := by
  have hdepth := tableDepth_le token
  unfold Mode.detours
  split <;> (try split) <;> omega

theorem detours_lt {mode : Mode} (h : mode ≠ .text ∧ mode ≠ .inTableText) :
    mode.detours token < 7 := by
  have hdepth := tableDepth_le token
  cases mode <;> simp [Mode.detours] at h ⊢ <;> (try split) <;> omega

/-- A step leads to fewer looks if it closes an enclosure, or opens none and comes to a mode from
which there are fewer. -/
theorem looks_lt {b s : Builder} {token : Token}
    (h : s.enclosures < b.enclosures ∨
      s.enclosures ≤ b.enclosures ∧ s.mode.detours token < b.mode.detours token) :
    s.looks token < b.looks token := by
  have hs := detours_le s.mode token
  unfold Builder.looks
  omega

theorem detours_afterBody (mode : Mode) (h : mode ≠ .afterBody) :
    Mode.detours .afterBody (.endTag "html") < mode.detours (.endTag "html") := by
  cases mode <;> simp_all [Mode.detours, Token.tableDepth]

/-- The tags that the rule of the head handles wherever it is asked to. -/
def Token.IsForHead : Token → Prop
  | .startTag tag => tag.name ∈ headTags
  | .endTag name => name = "template"
  | _ => False

/-- The reply asks for nothing more, or for another look at the same token in a state with the
property. -/
def Reply.Asks (token : Token) (P : Prop) (r : Reply) : Prop := r = .done ∨ r = .again token ∧ P

namespace Settling

attribute [scoped grind =] Builder.sound_iff Builder.IsPlain Builder.enclosures Builder.inTemplate
  Tag.IsPlain isEnclosure_html mem_headTags
attribute [scoped grind] Reply.Asks Mode.HoldsElements Token.IsForHead
attribute [scoped grind →] suitableMode_of_nil enclosures_of_nil isPlain_of_mem_formattingTags
attribute [scoped grind →] Builder.IsPlain.of_find?
attribute [scoped grind =] Builder.steady_iff

/-- A step that leaves the mode alone. -/
abbrev Steady {α : Type} (b : Builder) (step : Build α) : Prop :=
  ⦃fun s => ⌜s = b⌝⦄ step ⦃⇓ _ s => ⌜b.Steady s⌝⦄

/-- A step that also opens no enclosure. -/
abbrev Closing {α : Type} (b : Builder) (step : Build α) : Prop :=
  ⦃fun s => ⌜s = b⌝⦄ step ⦃⇓ _ s => ⌜b.Steady s ∧ s.enclosures ≤ b.enclosures⌝⦄

variable (b : Builder)

/-! A program whose last step has the very postcondition that is wanted would be finished by that
step, as if it started in the state in which the program does. So the postcondition is put in other
words where such a program is run. -/

theorem steady_of {α : Type} {step : Build α}
    (h : ⦃fun s => ⌜s = b⌝⦄ step ⦃⇓ _ s => ⌜True ∧ b.Steady s⌝⦄) : Steady b step := by
  intro s hs
  exact (h s hs).2

theorem closing_of {α : Type} {step : Build α}
    (h : ⦃fun s => ⌜s = b⌝⦄ step ⦃⇓ _ s => ⌜s.enclosures ≤ b.enclosures ∧ b.Steady s⌝⦄) :
    Closing b step := by
  intro s hs
  exact (h s hs).symm

/-! ## Nodes -/

@[scoped spec]
theorem closing_editForest (f : Forest → Forest) : Closing b (editForest f) := by
  mvcgen [editForest] with grind [Builder.IsPlain, Builder.enclosures]

@[scoped spec]
theorem closing_createNode (v : Value) : Closing b (createNode v) := by
  mvcgen [createNode] with grind [Builder.IsPlain, Builder.enclosures]

@[scoped spec]
theorem closing_createElement (name : QName) (attributes : List Attribute) :
    Closing b (createElement name attributes) := by
  mvcgen [createElement] with grind

@[scoped spec]
theorem closing_contentOwner (f : Frame) : Closing b (contentOwner f) := by
  mvcgen [contentOwner] with grind

@[scoped spec]
theorem closing_placeOutside (stack : List Frame) : Closing b (placeOutside stack) := by
  induction stack generalizing b with
  | nil =>
    mvcgen [placeOutside]
    grind
  | cons f rest ih =>
    unfold placeOutside
    mvcgen [ih]
    case vc6 _ _ heq => exact heq ▸ ih b
    all_goals grind

@[scoped spec]
theorem closing_placeFor (target : Option Frame) : Closing b (placeFor target) := by
  mvcgen [placeFor] with grind

@[scoped spec]
theorem closing_putNode (place : Place) (id : NodeId) : Closing b (putNode place id) := by
  cases place with
  | last parent => exact closing_editForest b (·.append parent id)
  | before sibling => exact closing_editForest b (·.insertBefore sibling id)

@[scoped spec]
theorem closing_putText (place : Place) (chars : List Char) : Closing b (putText place chars) := by
  have hjoin (id : NodeId) (text : String) :
      Closing b (editForest (·.setValue id fun _ => .text text)) := closing_editForest b _
  have hnew : Closing b (do putNode place (← createNode (.text (String.ofList chars)))) := by
    apply closing_of
    mvcgen with grind
  -- The step looks at a node and its value at once, so it is taken apart by hand.
  intro s hs
  show b.Steady ((putText place chars).run s).2 ∧
    ((putText place chars).run s).2.enclosures ≤ b.enclosures
  rw [putText, StateT.run_bind, StateT.run_get, pure_bind]
  dsimp only
  split
  · exact hjoin _ _ s hs
  · exact hnew s hs

@[scoped spec]
theorem closing_appendText (chars : List Char) : Closing b (appendText chars) := by
  apply closing_of
  mvcgen [appendText] with grind

@[scoped spec]
theorem closing_appendComment (content : String) : Closing b (appendComment content) := by
  apply closing_of
  mvcgen [appendComment] with grind

@[scoped spec]
theorem closing_appendCommentTo (parent : NodeId) (content : String) :
    Closing b (appendCommentTo parent content) := by
  apply closing_of
  mvcgen [appendCommentTo] with grind

/-! ## Open elements -/

/-- A step that leaves only open elements open. -/
theorem closing_editOpen (f : List Frame → List Frame) (h : ∀ stack, (f stack).Sublist stack) :
    Closing b (editOpen f) := by
  rintro s (rfl : s = b)
  exact ⟨⟨rfl, rfl, id⟩, (h s.open_).countP_le⟩

@[scoped spec]
theorem steady_editOpen (f : List Frame → List Frame) : Steady b (editOpen f) := by
  rintro s (rfl : s = b)
  exact ⟨rfl, rfl, id⟩

@[scoped spec]
theorem closing_pop : Closing b pop :=
  closing_editOpen b _ fun stack => List.drop_sublist 1 stack

@[scoped spec]
theorem closing_popWhile (p : QName → Bool) : Closing b (popWhile p) :=
  closing_editOpen b _ fun _ => List.dropWhile_sublist _

@[scoped spec]
theorem closing_popThrough (p : QName → Bool) : Closing b (popThrough p) :=
  closing_editOpen b _ fun _ => (List.drop_sublist 1 _).trans (List.dropWhile_sublist _)

/-- An enclosure that is open is closed; without one everything is. -/
@[scoped spec]
theorem popThroughNamed_spec (name : String) :
    ⦃fun s => ⌜s = b⌝⦄ popThroughNamed name
    ⦃⇓ _ s => ⌜b.Steady s ∧ s.enclosures ≤ b.enclosures ∧
      if b.open_.any (fun f => isNamed name f.name) then
        isEnclosure (.html name) → s.enclosures < b.enclosures
      else s.open_ = []⌝⦄ := by
  rintro s (rfl : s = b)
  refine ⟨⟨rfl, rfl, id⟩, ((List.drop_sublist 1 _).trans (List.dropWhile_sublist _)).countP_le, ?_⟩
  exact countP_popThrough name s.open_

@[scoped spec]
theorem closing_removeOpen (id : NodeId) : Closing b (removeOpen id) :=
  closing_editOpen b _ fun _ => List.filter_sublist

@[scoped spec]
theorem closing_closeImpliedExcept (name : String) : Closing b (closeImpliedExcept name) :=
  closing_popWhile b _

@[scoped spec]
theorem closing_closeImplied : Closing b closeImplied := closing_popWhile b _

@[scoped spec]
theorem closing_closeParagraph : Closing b closeParagraph := by
  apply closing_of
  mvcgen [closeParagraph] with grind

@[scoped spec]
theorem closing_closeParagraphInScope : Closing b closeParagraphInScope := by
  apply closing_of
  mvcgen [closeParagraphInScope] with grind

@[scoped spec]
theorem closing_framesNotOk : Closing b framesNotOk := by
  mvcgen [framesNotOk] with grind [Builder.IsPlain, Builder.enclosures]

@[scoped spec]
theorem closing_addElement (name : QName) (attributes : List Attribute) :
    Closing b (addElement name attributes) := by
  mvcgen [addElement] with grind

@[scoped spec]
theorem closing_addTag : Closing b (addTag tag) := by
  mvcgen [addTag] with grind

/-- An element that is opened is counted if it is an enclosure. -/
@[scoped spec]
theorem steady_openElement (name : QName) (attributes : List Attribute) :
    ⦃fun s => ⌜s = b⌝⦄ openElement name attributes
    ⦃⇓ _ s => ⌜b.Steady s ∧ (isEnclosure name = false → s.enclosures ≤ b.enclosures)⌝⦄ := by
  mvcgen [openElement, editOpen] with grind [Builder.IsPlain, Builder.enclosures]

@[scoped spec]
theorem steady_openTag : Steady b (openTag tag) := by
  mvcgen [openTag] with grind

@[scoped spec]
theorem steady_openImplied (name : String) :
    ⦃fun s => ⌜s = b⌝⦄ openImplied name
    ⦃⇓ _ s => ⌜b.Steady s ∧ (isEnclosure (.html name) = false → s.enclosures ≤ b.enclosures)⌝⦄ := by
  mvcgen [openImplied] with grind

/-! ## Formatting elements -/

/-- A step that remembers no enclosure. -/
theorem closing_editFormatting (f : List Formatting → List Formatting)
    (h : ∀ list, (∀ e ∈ list, e.IsPlain) → ∀ e ∈ f list, e.IsPlain) :
    Closing b (editFormatting f) := by
  rintro s (rfl : s = b)
  exact ⟨⟨rfl, rfl, h s.formatting⟩, Nat.le_refl _⟩

@[scoped spec]
theorem closing_remember (entry : Formatting) (h : entry.IsPlain) :
    Closing b (editFormatting (entry :: ·)) := by
  apply closing_editFormatting
  intro list hlist
  exact List.forall_mem_cons.mpr ⟨h, hlist⟩

@[scoped spec]
theorem closing_pushMarker : Closing b pushMarker := closing_remember b .marker trivial

@[scoped spec]
theorem closing_clearToMarker : Closing b clearToMarker := by
  apply closing_editFormatting
  intro list hlist e he
  exact hlist e ((List.dropWhile_suffix _).subset ((List.drop_suffix 1 _).subset he))

@[scoped spec]
theorem closing_forgetFormatting (id : NodeId) : Closing b (forgetFormatting id) := by
  apply closing_editFormatting
  intro list hlist e he
  exact hlist e (List.mem_of_mem_filter he)

@[scoped spec]
theorem closing_replaceFormatting (id : NodeId) (entry : Formatting) (h : entry.IsPlain) :
    Closing b (replaceFormatting id entry) := by
  apply closing_editFormatting
  intro list hlist e he
  obtain rfl | hold := mem_replaced he
  · exact h
  · exact hlist e hold

@[scoped spec]
theorem closing_insertAfter (id : NodeId) (entry : Formatting) (h : entry.IsPlain) :
    Closing b (editFormatting (insertAfter id entry)) := by
  apply closing_editFormatting
  intro list hlist e he
  obtain rfl | hold := mem_insertAfter he
  · exact h
  · exact hlist e hold

@[scoped spec]
theorem recentFormatting_spec :
    ⦃fun s => ⌜s = b⌝⦄ recentFormatting
    ⦃⇓ r s => ⌜(b.IsPlain → ∀ x ∈ r, x.2.IsPlain) ∧ s = b⌝⦄ := by
  rintro s (rfl : s = b)
  exact ⟨fun hb x hx => hb _ (mem_formatting_of_recent hx), rfl⟩

@[scoped spec]
theorem closing_reopen (entries : List (NodeId × Tag)) (h : ∀ x ∈ entries, x.2.IsPlain) :
    Closing b (reopen entries) := by
  induction entries generalizing b with
  | nil =>
    mvcgen [reopen]
    grind
  | cons entry rest ih =>
    obtain ⟨htag, hrest⟩ := List.forall_mem_cons.mp h
    have hnext b := ih b hrest
    apply closing_of
    mvcgen [reopen, hnext] with grind [Tag.IsPlain]

@[scoped spec]
theorem closing_reconstructFormatting (hb : b.IsPlain) : Closing b reconstructFormatting := by
  apply closing_of
  mvcgen [reconstructFormatting] with grind [List.takeWhile_subset]

@[scoped spec]
theorem steady_openFormatting (hb : b.IsPlain) (h : tag.IsPlain) :
    Steady b (openFormatting tag) := by
  apply steady_of
  mvcgen [openFormatting] with grind

@[scoped spec]
theorem steady_closeOrdinary (name : String) : Steady b (closeOrdinary name) := by
  apply steady_of
  mvcgen [closeOrdinary] with grind

/-! ## Misnested formatting -/

@[scoped spec]
theorem closing_walkBetween (block : NodeId) (count : Nat) (frames : List Frame) (acc : Between)
    (hb : b.IsPlain) : Closing b (walkBetween block count frames acc) := by
  induction frames generalizing b count acc with
  | nil =>
    mvcgen [walkBetween]
    grind
  | cons f rest ih =>
    unfold walkBetween
    apply closing_of
    mvcgen [ih] with grind

@[scoped spec]
theorem steady_adoptOnce (name : String) (hb : b.IsPlain) : Steady b (adoptOnce name) := by
  apply steady_of
  -- The loop moves the children of the furthest block one by one.
  mvcgen [adoptOnce] invariants
  · ⇓ _ s => ⌜b.Steady s⌝
  with grind

@[scoped spec]
theorem steady_adoptRounds (name : String) (n : Nat) (hb : b.IsPlain) :
    Steady b (adoptRounds name n) := by
  induction n generalizing b with
  | zero =>
    mvcgen [adoptRounds]
    grind
  | succ n ih =>
    unfold adoptRounds
    apply steady_of
    mvcgen [ih] with grind

@[scoped spec]
theorem steady_adopt (name : String) (hb : b.IsPlain) : Steady b (adopt name) := by
  apply steady_of
  mvcgen [adopt] with grind

@[scoped spec]
theorem steady_closeOpenLink (hb : b.IsPlain) : Steady b closeOpenLink := by
  apply steady_of
  mvcgen [closeOpenLink] with grind

@[scoped spec]
theorem done_spec : ⦃fun s => ⌜s = b⌝⦄ done ⦃⇓ r s => ⌜r = .done ∧ s = b⌝⦄ := by
  mvcgen [done]

@[scoped spec]
theorem retry_spec (token : Token) :
    ⦃fun s => ⌜s = b⌝⦄ retry token ⦃⇓ r s => ⌜r = .again token ∧ s = b⌝⦄ := by
  mvcgen [retry]

@[scoped spec]
theorem setMode_spec (mode : Mode) :
    ⦃fun s => ⌜s = b⌝⦄ setMode mode ⦃⇓ _ s => ⌜s = { b with mode := mode }⌝⦄ := by
  mvcgen [setMode] with grind

@[scoped spec]
theorem retryIn_spec (mode : Mode) (token : Token) :
    ⦃fun s => ⌜s = b⌝⦄ retryIn mode token
    ⦃⇓ r s => ⌜r = .again token ∧ s = { b with mode := mode }⌝⦄ := by
  mvcgen [retryIn] with grind

@[scoped spec]
theorem resetMode_spec :
    ⦃fun s => ⌜s = b⌝⦄ resetMode ⦃⇓ _ s => ⌜s = { b with mode := suitableMode b }⌝⦄ := by
  mvcgen [resetMode] with grind

/-- The rule ends in a sound state, and if it asks for the token to be looked at again the state has
the property. -/
abbrev Yields (b : Builder) (token : Token) (P : Builder → Prop) (rule : Build Reply) : Prop :=
  ⦃fun s => ⌜s = b⌝⦄ rule ⦃⇓ r s => ⌜s.Sound ∧ r.Asks token (P s)⌝⦄

/-- The rule leaves fewer looks. -/
abbrev Advances (b : Builder) (token : Token) (rule : Build Reply) : Prop :=
  Yields b token (fun s => s.looks token < b.looks token) rule

/-- The rule asks for nothing more. -/
abbrev Finishes (b : Builder) (rule : Build Reply) : Prop :=
  ⦃fun s => ⌜s = b⌝⦄ rule ⦃⇓ r s => ⌜s.Sound ∧ r = .done⌝⦄

variable {b} (hb : b.Sound)
include hb

@[scoped spec]
theorem sound_readContent (content : Content) (hm : b.mode.HoldsElements) :
    ⦃fun s => ⌜s = b⌝⦄ readContent content ⦃⇓ _ s => ⌜s.Sound⌝⦄ := by
  mvcgen [readContent] with grind

@[scoped spec]
theorem finishes_openRaw (hm : b.mode.HoldsElements) : Finishes b (openRaw tag) := by
  mvcgen [openRaw] with grind

@[scoped spec]
theorem finishes_openText (hm : b.mode.HoldsElements) : Finishes b (openText tag) := by
  mvcgen [openText] with grind

omit hb in
@[scoped spec]
theorem closing_addMissingAttributes (id : NodeId) (attributes : List Attribute) :
    Closing b (addMissingAttributes id attributes) := by
  unfold addMissingAttributes
  exact closing_editForest b _

@[scoped spec]
theorem finishes_mergeRoot : Finishes b (mergeRoot tag) := by
  mvcgen [mergeRoot] with grind

/-- What comes of closing an enclosure: there is one less, or nothing is open any more. -/
@[scoped spec]
theorem leave_spec (name : String) (h : isEnclosure (.html name)) :
    Yields b token (fun s => s.enclosures < b.enclosures ∨ s.enclosures = 0 ∧ s.mode = .inBody)
      (leave name token) := by
  mvcgen [leave] with grind

@[scoped spec]
theorem sound_closeTemplate :
    ⦃fun s => ⌜s = b⌝⦄ closeTemplate
    ⦃⇓ _ s => ⌜s.Sound ∧ (b.inTemplate → s.enclosures < b.enclosures)⌝⦄ := by
  mvcgen [closeTemplate] with grind

/-! ## Before the body -/

theorem advances_ruleInitial (hm : b.mode = .initial) : Advances b token (ruleInitial token) := by
  mvcgen [ruleInitial] with grind [looks_lt, Mode.detours]

omit hb in
@[scoped spec]
theorem closing_openRoot (attributes : List Attribute) : Closing b (openRoot attributes) := by
  mvcgen [openRoot, editOpen] with grind

theorem advances_ruleBeforeHtml (hm : b.mode = .beforeHtml) :
    Advances b token (ruleBeforeHtml token) := by
  mvcgen [ruleBeforeHtml] with grind [looks_lt, Mode.detours]

@[scoped spec]
theorem sound_openHead (attributes : List Attribute) :
    ⦃fun s => ⌜s = b⌝⦄ openHead attributes
    ⦃⇓ _ s => ⌜s.Sound ∧ s.mode = .inHead ∧ s.enclosures ≤ b.enclosures⌝⦄ := by
  mvcgen [openHead] with grind

theorem advances_ruleBeforeHead (hm : b.mode = .beforeHead) :
    Advances b token (ruleBeforeHead token) := by
  mvcgen [ruleBeforeHead] with grind [looks_lt, Mode.detours]

/-- The head keeps what is for it wherever its rule is asked, and hands on the rest. -/
@[scoped spec]
theorem yields_ruleInHead (hm : b.mode.HoldsElements) :
    Yields b token
      (fun s => ¬ token.IsForHead ∧ s.mode = .afterHead ∧ s.enclosures ≤ b.enclosures)
      (ruleInHead token) := by
  mvcgen [ruleInHead] with grind

theorem advances_ruleInHead (hm : b.mode = .inHead) : Advances b token (ruleInHead token) := by
  intro s hs
  have hyields : Yields b token _ (ruleInHead token) :=
    yields_ruleInHead hb (by simp [Mode.HoldsElements, hm])
  obtain ⟨hsound, hdone | ⟨hagain, -, hmode, hle⟩⟩ := hyields s hs
  · exact ⟨hsound, .inl hdone⟩
  · have hcloser : Mode.detours .afterHead token < Mode.detours .inHead token := Nat.lt_succ_self 2
    exact ⟨hsound, .inr ⟨hagain, looks_lt (.inr ⟨hle, by rwa [hmode, hm]⟩)⟩⟩

theorem advances_ruleAfterHead (hm : b.mode = .afterHead) :
    Advances b token (ruleAfterHead token) := by
  mvcgen [ruleAfterHead] with grind [looks_lt, Mode.detours]

/-! ## In the body -/

/-- At the end of the text an open template is closed before anything else. -/
@[scoped spec]
theorem yields_endInTemplate :
    Yields b .eof (fun s => s.enclosures < b.enclosures) endInTemplate := by
  mvcgen [endInTemplate] with grind

@[scoped spec]
theorem finishes_openForeign (name : QName) : Finishes b (openForeign name tag) := by
  mvcgen [openForeign] with grind

omit hb in
@[scoped spec]
theorem closing_closeListItem (names : List String) : Closing b (closeListItem names) := by
  apply closing_of
  mvcgen [closeListItem] with grind

omit hb in
@[scoped spec]
theorem closing_popIfNamed (name : String) : Closing b (popIfNamed name) := by
  mvcgen [popIfNamed] with grind

@[scoped spec]
theorem finishes_addVoid : Finishes b (addVoid tag) := by
  mvcgen [addVoid] with grind

@[scoped spec]
theorem finishes_startTagInBody (hm : b.mode.HoldsElements) : Finishes b (startTagInBody tag) := by
  mvcgen [startTagInBody] with grind

/-- The end tag of the document is the only one that the body hands on. -/
@[scoped spec]
theorem yields_endTagInBody (name : String) (hm : b.mode.HoldsElements) :
    Yields b (.endTag name)
      (fun s => name = "html" ∧ s.mode = .afterBody ∧ s.enclosures ≤ b.enclosures)
      (endTagInBody name) := by
  mvcgen [endTagInBody] with grind

/-! ## Text in tables -/

/-- Text in the body opens nothing but what was remembered. -/
theorem closing_ruleInBody_text (blank : Bool) (chars : List Char) :
    Closing b (ruleInBody (.text blank chars)) := by
  apply closing_of
  mvcgen [ruleInBody] with grind

theorem closing_moveOutOfTable_text (blank : Bool) (chars : List Char) :
    Closing b (moveOutOfTable (.text blank chars)) := by
  mvcgen [moveOutOfTable, closing_ruleInBody_text] with grind

@[scoped spec]
theorem closing_flushTableText (texts : List (Bool × List Char)) (outside : Bool) :
    Closing b (flushTableText texts outside) := by
  induction texts generalizing b with
  | nil =>
    mvcgen [flushTableText]
    grind
  | cons entry rest ih =>
    unfold flushTableText
    apply closing_of
    mvcgen [ih, closing_moveOutOfTable_text] with grind

theorem advances_ruleInTableText (hm : b.mode = .inTableText) :
    Advances b token (ruleInTableText token) := by
  mvcgen [ruleInTableText] with grind [looks_lt, Mode.detours, detours_lt]

theorem advances_ruleText (hm : b.mode = .text) : Advances b token (ruleText token) := by
  mvcgen [ruleText] with grind [looks_lt, Mode.detours, detours_lt]

/-! ## The rules of the body in other modes -/

/-- The end tag of the document leads from the body to the mode behind it. That is closer than any
mode but itself, so the rule must not be asked from there. -/
@[scoped spec]
theorem advances_ruleInBody (hm : b.mode.HoldsElements)
    (hend : token = .endTag "html" → b.mode ≠ .afterBody) :
    Advances b token (ruleInBody token) := by
  mvcgen [ruleInBody] with grind [looks_lt, detours_afterBody]

@[scoped spec]
theorem advances_moveOutOfTable (hm : b.mode.HoldsElements)
    (hend : token = .endTag "html" → b.mode ≠ .afterBody) :
    Advances b token (moveOutOfTable token) := by
  mvcgen [moveOutOfTable] with grind [Builder.looks]

/-! ## In tables -/

omit hb in
@[scoped spec]
theorem closing_closeToTable : Closing b closeToTable := closing_popWhile b _

omit hb in
@[scoped spec]
theorem closing_closeToRowGroup : Closing b closeToRowGroup := closing_popWhile b _

omit hb in
@[scoped spec]
theorem closing_closeToRow : Closing b closeToRow := closing_popWhile b _

/-- Text comes closer when it is gathered: the mode that gathers text keeps it. -/
@[scoped spec]
theorem advances_gatherTableText
    (hm : b.mode = .inTable ∨ b.mode = .inTableBody ∨ b.mode = .inRow)
    (ht : token = .nul ∨ ∃ blank chars, token = .text blank chars) :
    Advances b token (gatherTableText token) := by
  mvcgen [gatherTableText] with grind [looks_lt, Mode.detours]

/-- A table opens the part that a tag needs, and hands the tag on to it. From inside a part its rule
must not be asked about such a tag, which would lead out of the part and back in. -/
@[scoped spec]
theorem advances_ruleInTable
    (hm : b.mode = .inTable ∨ b.mode = .inTableBody ∨ b.mode = .inRow)
    (hpart : b.mode ≠ .inTable →
      ∀ tag, token = .startTag tag → tag.name ∉ ["col", "td", "th", "tr"]) :
    Advances b token (ruleInTable token) := by
  mvcgen [ruleInTable] with grind [looks_lt, Mode.detours, Token.tableDepth]

theorem advances_ruleInCaption (hm : b.mode = .inCaption) :
    Advances b token (ruleInCaption token) := by
  mvcgen [ruleInCaption] with grind [looks_lt, Mode.detours, Token.tableDepth]

theorem advances_ruleInColumnGroup (hm : b.mode = .inColumnGroup) :
    Advances b token (ruleInColumnGroup token) := by
  mvcgen [ruleInColumnGroup] with grind [looks_lt, Mode.detours, Token.tableDepth]

theorem advances_ruleInTableBody (hm : b.mode = .inTableBody) :
    Advances b token (ruleInTableBody token) := by
  mvcgen [ruleInTableBody] with grind [looks_lt, Mode.detours, Token.tableDepth]

theorem advances_ruleInRow (hm : b.mode = .inRow) : Advances b token (ruleInRow token) := by
  mvcgen [ruleInRow] with grind [looks_lt, Mode.detours, Token.tableDepth]

theorem advances_ruleInCell (hm : b.mode = .inCell) : Advances b token (ruleInCell token) := by
  mvcgen [ruleInCell] with grind [looks_lt, Mode.detours, Token.tableDepth, rowParts]

/-! ## In a `select`, in templates and outside the body -/

@[scoped spec]
theorem advances_ruleInSelect (hm : b.mode = .inSelect ∨ b.mode = .inSelectInTable) :
    Advances b token (ruleInSelect token) := by
  mvcgen [ruleInSelect] with grind [looks_lt, Mode.detours]

theorem advances_ruleInSelectInTable (hm : b.mode = .inSelectInTable) :
    Advances b token (ruleInSelectInTable token) := by
  mvcgen [ruleInSelectInTable] with grind [looks_lt, Mode.detours]

theorem advances_ruleInTemplate (hm : b.mode = .inTemplate) :
    Advances b token (ruleInTemplate token) := by
  mvcgen [ruleInTemplate] with grind [looks_lt, Mode.detours, Token.tableDepth]

theorem advances_ruleAfterBody (hm : b.mode = .afterBody) :
    Advances b token (ruleAfterBody token) := by
  mvcgen [ruleAfterBody] with grind [looks_lt, Mode.detours]

theorem advances_ruleInFrameset (hm : b.mode = .inFrameset) :
    Advances b token (ruleInFrameset token) := by
  mvcgen [ruleInFrameset] with grind

theorem advances_ruleAfterFrameset (hm : b.mode = .afterFrameset) :
    Advances b token (ruleAfterFrameset token) := by
  mvcgen [ruleAfterFrameset] with grind

theorem advances_ruleAfterAfterBody (hm : b.mode = .afterAfterBody) :
    Advances b token (ruleAfterAfterBody token) := by
  mvcgen [ruleAfterAfterBody] with grind [looks_lt, Mode.detours]

theorem advances_ruleAfterAfterFrameset (hm : b.mode = .afterAfterFrameset) :
    Advances b token (ruleAfterAfterFrameset token) := by
  mvcgen [ruleAfterAfterFrameset] with grind

/-- Whatever the mode, its rule leaves fewer looks. -/
@[scoped spec]
theorem advances_rule (mode : Mode) (hm : b.mode = mode) : Advances b token (rule mode token) := by
  cases mode with
  | initial => exact advances_ruleInitial hb hm
  | beforeHtml => exact advances_ruleBeforeHtml hb hm
  | beforeHead => exact advances_ruleBeforeHead hb hm
  | inHead => exact advances_ruleInHead hb hm
  | afterHead => exact advances_ruleAfterHead hb hm
  | inBody =>
    exact advances_ruleInBody hb (by simp [hm, Mode.HoldsElements]) (by simp [hm])
  | text => exact advances_ruleText hb hm
  | inTable => exact advances_ruleInTable hb (.inl hm) (fun h => absurd hm h)
  | inTableText => exact advances_ruleInTableText hb hm
  | inCaption => exact advances_ruleInCaption hb hm
  | inColumnGroup => exact advances_ruleInColumnGroup hb hm
  | inTableBody => exact advances_ruleInTableBody hb hm
  | inRow => exact advances_ruleInRow hb hm
  | inCell => exact advances_ruleInCell hb hm
  | inSelect => exact advances_ruleInSelect hb (.inl hm)
  | inSelectInTable => exact advances_ruleInSelectInTable hb hm
  | inTemplate => exact advances_ruleInTemplate hb hm
  | afterBody => exact advances_ruleAfterBody hb hm
  | inFrameset => exact advances_ruleInFrameset hb hm
  | afterFrameset => exact advances_ruleAfterFrameset hb hm
  | afterAfterBody => exact advances_ruleAfterAfterBody hb hm
  | afterAfterFrameset => exact advances_ruleAfterAfterFrameset hb hm

/-! ## Foreign content -/

omit hb in
theorem advances_of {rule : Build Reply}
    (h : ⦃fun s => ⌜s = b⌝⦄ rule
      ⦃⇓ r s => ⌜r.Asks token (s.looks token < b.looks token) ∧ s.Sound⌝⦄) :
    Advances b token rule := by
  intro s hs
  exact (h s hs).symm

@[scoped spec]
theorem advances_leaveForeign : Advances b token (leaveForeign token) := by
  apply advances_of
  mvcgen [leaveForeign] with grind [Builder.looks]

@[scoped spec]
theorem advances_endForeign (name : String) (first : Bool) (stack : List Frame) :
    Advances b (.endTag name) (endForeign name first stack) := by
  induction stack generalizing first with
  | nil =>
    mvcgen [endForeign]
    grind
  | cons f rest ih =>
    cases rest with
    | nil =>
      mvcgen [endForeign]
      grind
    | cons g rest =>
      unfold endForeign
      mvcgen [ih] with grind

@[scoped spec]
theorem advances_ruleForeign : Advances b token (ruleForeign token) := by
  mvcgen [ruleForeign] with grind

@[scoped spec]
theorem advances_look : Advances b token (look token) := by
  mvcgen [look] with grind

end Settling

end Stencil.Html

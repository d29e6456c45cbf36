import Mathlib
import Stencil.Html.Builder
import Stencil.Proofs.Html.Token
import Stencil.Proofs.Markup.Values

/-!
# Building steps bring no attribute names of their own

An element of an HTML document has its attributes from a start tag, and their names are those of the
tag or the ones that foreign content spells in a way of its own. The formatting elements keep their
tags, and elements are made from them again later; so the invariant speaks of both, of the forest
and of the remembered tags. Each building step is shown to keep it.

A step is run symbolically on the lemmas of the steps that it takes; what is left to show then is
that the attributes, tags and forests that it hands on satisfy the invariant.
-/

namespace Stencil.Html
open Markup Std.Do

set_option mvcgen.warning false

/-! ## Names of attributes -/

/-- The names that attributes of foreign content get in the place of the written ones. -/
def foreignSpellings : List String :=
  "definitionURL" :: svgAttributeNames ++ foreignAttributes.map fun a => a.2.base

/-- A set of attribute names that has all the spellings of foreign content. -/
structure Names where
  has : String → Prop
  foreign : ∀ name ∈ foreignSpellings, has name

variable {N : Names} {tag : Tag} {attributes : List Attribute} {name : String}

/-- The attributes of the tag bear names of the set. -/
def Tag.NamedIn (N : Names) (tag : Tag) : Prop := ∀ a ∈ tag.attributes, N.has a.1

/-- The attributes of the token bear names of the set; only start tags have any. -/
@[grind]
def Token.NamedIn (N : Names) : Token → Prop
  | .startTag tag => tag.NamedIn N
  | _ => True

/-- All these attributes bear names of the set. -/
def NamedIn (N : Names) (attributes : List Attribute) : Prop :=
  ∀ a ∈ attributes, N.has a.name.base

/-- The attributes of the node bear names of the set; only elements have any. -/
@[grind]
def ValueNamedIn (N : Names) : Value → Prop
  | .element e => NamedIn N e.attributes
  | _ => True

theorem namedIn_nil : NamedIn N [] := nofun

@[grind ←]
theorem namedIn_plainAttributes (h : tag.NamedIn N) : NamedIn N tag.plainAttributes := by
  intro a ha
  obtain ⟨⟨name, value⟩, hmem, rfl⟩ := List.mem_map.mp ha
  exact h _ hmem

theorem has_respell {spellings : List String} (h : N.has name)
    (hsub : spellings ⊆ foreignSpellings) : N.has (respell spellings name) := by
  unfold respell
  cases hfind : spellings.find? fun s => Text.lowerLetters s == name with
  | none => exact h
  | some s => exact N.foreign s (hsub (List.mem_of_find?_eq_some hfind))

theorem has_lookup (h : N.has name) :
    N.has ((foreignAttributes.lookup name).getD (.plain name)).base := by
  cases hl : foreignAttributes.lookup name with
  | none => exact h
  | some q =>
    obtain ⟨before, behind, he, -⟩ := List.lookup_eq_some_iff.mp hl
    have hmem : (name, q) ∈ foreignAttributes := by
      rw [he]
      exact List.mem_append_right _ List.mem_cons_self
    exact N.foreign _
      (List.mem_cons_of_mem _ (List.mem_append_right _ (List.mem_map.mpr ⟨_, hmem, rfl⟩)))

@[grind ←]
theorem namedIn_foreignAttributes (h : tag.NamedIn N) (space : Space) :
    NamedIn N (tag.foreignAttributes space) := by
  intro a ha
  obtain ⟨⟨name, value⟩, hmem, rfl⟩ := List.mem_map.mp ha
  have hname : N.has name := h _ hmem
  cases space with
  | svg =>
    exact has_lookup
      (has_respell hname fun _ hs => List.mem_cons_of_mem _ (List.mem_append_left _ hs))
  | mathml =>
    exact has_lookup
      (has_respell hname (List.cons_subset.mpr ⟨List.mem_cons_self, List.nil_subset _⟩))
  | none | html | xlink | xml | xmlns => exact has_lookup hname

theorem mem_of_mem_put {soFar : List Attribute} {a b : Attribute}
    (h : b ∈ mergeAttributes.put soFar a) : b = a ∨ b ∈ soFar := by
  unfold mergeAttributes.put at h
  split at h
  · obtain ⟨c, hc, he⟩ := List.mem_map.mp h
    split at he
    · exact .inl he.symm
    · exact .inr (he ▸ hc)
  · rcases List.mem_append.mp h with hold | hnew
    · exact .inr hold
    · exact .inl (List.mem_singleton.mp hnew)

theorem mem_of_mem_mergeAttributes {a : Attribute} (h : a ∈ mergeAttributes attributes) :
    a ∈ attributes := by
  have hfold (soFar rest : List Attribute) (h : a ∈ rest.foldl mergeAttributes.put soFar) :
      a ∈ soFar ∨ a ∈ rest := by
    induction rest generalizing soFar with
    | nil => exact .inl h
    | cons b rest ih =>
      obtain hput | hrest := ih _ h
      · obtain rfl | hs := mem_of_mem_put hput
        · exact .inr List.mem_cons_self
        · exact .inl hs
      · exact .inr (List.mem_cons_of_mem b hrest)
  exact (hfold [] attributes h).resolve_left List.not_mem_nil

/-! ## Remembered tags -/

theorem mem_replaced {id : NodeId} {entry e : Formatting} {list : List Formatting}
    (h : e ∈ list.map fun e => if e.isFor id then entry else e) : e = entry ∨ e ∈ list := by
  obtain ⟨old, hold, rfl⟩ := List.mem_map.mp h
  split
  · exact .inl rfl
  · exact .inr hold

theorem mem_insertAfter {id : NodeId} {entry e : Formatting} {list : List Formatting}
    (h : e ∈ insertAfter id entry list) : e = entry ∨ e ∈ list := by
  induction list with
  | nil => exact .inr h
  | cons old rest ih =>
    rw [insertAfter] at h
    split at h
    · exact List.mem_cons.mp h
    · obtain rfl | hrest := List.mem_cons.mp h
      · exact .inr List.mem_cons_self
      · exact (ih hrest).imp_right (List.mem_cons_of_mem old)

theorem mem_formatting_of_recent {b : Builder} {x : NodeId × Tag}
    (hx : x ∈ (recentFormatting b).1) : .element x.1 x.2 ∈ b.formatting := by
  obtain ⟨e, he, hsome⟩ := List.mem_filterMap.mp hx
  have hmem := List.takeWhile_subset _ he
  cases e with
  | marker => cases hsome
  | element id tag =>
    obtain rfl := Option.some.inj hsome
    exact hmem

/-! ## The invariant -/

/-- The attributes of the tag that is remembered bear names of the set. -/
@[grind]
def Formatting.NamedIn (N : Names) : Formatting → Prop
  | .marker => True
  | .element _ tag => tag.NamedIn N

/-- All attributes of the document that is being built bear names of the set, and so do those of the
tags that are remembered. -/
@[mk_iff]
structure Builder.NamedIn (N : Names) (b : Builder) : Prop where
  forest : b.forest.AllValues (ValueNamedIn N)
  formatting : ∀ e ∈ b.formatting, e.NamedIn N

attribute [grind =] Builder.namedIn_iff

@[grind →]
theorem Builder.NamedIn.of_find? {b : Builder} (hb : b.NamedIn N) {p : Formatting → Bool}
    {id : NodeId} (h : b.formatting.find? p = some (.element id tag)) : tag.NamedIn N :=
  hb.formatting _ (List.mem_of_find?_eq_some h)

theorem Builder.namedIn_start : Builder.start.NamedIn N :=
  ⟨Forest.allValues_empty trivial, nofun⟩

namespace Naming

/-- The step keeps the attributes within the set. -/
abbrev Keeps {α : Type} (N : Names) (step : Build α) : Prop :=
  ⦃fun b => ⌜b.NamedIn N⌝⦄ step ⦃⇓ _ b => ⌜b.NamedIn N⌝⦄

/-! ## Nodes -/

@[scoped spec]
theorem keeps_editForest (f : Forest → Forest)
    (h : ∀ g, g.AllValues (ValueNamedIn N) → (f g).AllValues (ValueNamedIn N)) :
    Keeps N (editForest f) := by
  mvcgen [editForest] with
  | vc1 b hb _ => exact ⟨h _ hb.forest, hb.formatting⟩

@[scoped spec]
theorem keeps_createNode (v : Value) (h : ValueNamedIn N v) : Keeps N (createNode v) := by
  mvcgen [createNode] with
  | vc1 b hb _ => exact ⟨hb.forest.create h, hb.formatting⟩

@[scoped spec]
theorem keeps_createElement (name : QName) (h : NamedIn N attributes) :
    Keeps N (createElement name attributes) := by
  mvcgen [createElement]
  · intro a ha
    exact h a (mem_of_mem_mergeAttributes ha)
  · intro g hg
    exact hg.append _ _

@[scoped spec]
theorem keeps_contentOwner (f : Frame) : Keeps N (contentOwner f) := by
  mvcgen [contentOwner]

@[scoped spec]
theorem keeps_placeOutside (stack : List Frame) : Keeps N (placeOutside stack) := by
  induction stack with
  | nil => mvcgen [placeOutside]
  | cons f rest ih =>
    unfold placeOutside
    mvcgen [ih] with
    | vc6 outer _ heq => exact heq ▸ ih

@[scoped spec]
theorem keeps_placeFor (target : Option Frame) : Keeps N (placeFor target) := by
  mvcgen [placeFor]

@[scoped spec]
theorem keeps_putNode (place : Place) (id : NodeId) : Keeps N (putNode place id) := by
  cases place with
  | last parent =>
    refine keeps_editForest (·.append parent id) ?_
    intro g hg
    exact hg.append parent id
  | before sibling =>
    refine keeps_editForest (·.insertBefore sibling id) ?_
    intro g hg
    exact hg.insertBefore sibling id

@[scoped spec]
theorem keeps_putText (place : Place) (chars : List Char) : Keeps N (putText place chars) := by
  have hjoin (id : NodeId) (s : String) :
      Keeps N (editForest (·.setValue id fun _ => .text s)) := by
    apply keeps_editForest
    intro g hg
    apply hg.setValue
    intro v _
    show ValueNamedIn N (.text s)
    trivial
  have hnew : Keeps N (do putNode place (← createNode (.text (String.ofList chars)))) := by
    mvcgen
  -- The step looks at a node and its value at once, so it is taken apart by hand.
  intro b hb
  show ((putText place chars).run b).2.NamedIn N
  rw [putText, StateT.run_bind, StateT.run_get, pure_bind]
  dsimp only
  split
  · exact hjoin _ _ b hb
  · exact hnew b hb

@[scoped spec]
theorem keeps_appendText (chars : List Char) : Keeps N (appendText chars) := by
  mvcgen [appendText]

@[scoped spec]
theorem keeps_appendComment (content : String) : Keeps N (appendComment content) := by
  mvcgen [appendComment]

@[scoped spec]
theorem keeps_appendCommentTo (parent : NodeId) (content : String) :
    Keeps N (appendCommentTo parent content) := by
  mvcgen [appendCommentTo]
  intro _ _ g hg
  exact hg.append _ _

/-! ## Open elements -/

@[scoped spec]
theorem keeps_editOpen (f : List Frame → List Frame) : Keeps N (editOpen f) := by
  mvcgen [editOpen] with
  | vc1 b hb _ => exact ⟨hb.forest, hb.formatting⟩

@[scoped spec]
theorem keeps_pop : Keeps N pop := keeps_editOpen _

@[scoped spec]
theorem keeps_popWhile (p : QName → Bool) : Keeps N (popWhile p) := keeps_editOpen _

@[scoped spec]
theorem keeps_popThrough (p : QName → Bool) : Keeps N (popThrough p) := keeps_editOpen _

@[scoped spec]
theorem keeps_popThroughNamed (name : String) : Keeps N (popThroughNamed name) :=
  keeps_popThrough _

@[scoped spec]
theorem keeps_removeOpen (id : NodeId) : Keeps N (removeOpen id) := keeps_editOpen _

@[scoped spec]
theorem keeps_closeImpliedExcept (name : String) : Keeps N (closeImpliedExcept name) :=
  keeps_popWhile _

@[scoped spec]
theorem keeps_closeImplied : Keeps N closeImplied := keeps_popWhile _

@[scoped spec]
theorem keeps_closeParagraph : Keeps N closeParagraph := by
  mvcgen [closeParagraph]

@[scoped spec]
theorem keeps_setMode (mode : Mode) : Keeps N (setMode mode) := by
  mvcgen [setMode] with
  | vc1 b hb _ => exact ⟨hb.forest, hb.formatting⟩

@[scoped spec]
theorem keeps_framesNotOk : Keeps N framesNotOk := by
  mvcgen [framesNotOk] with
  | vc1 b hb _ => exact ⟨hb.forest, hb.formatting⟩

@[scoped spec]
theorem keeps_addElement (name : QName) (h : NamedIn N attributes) :
    Keeps N (addElement name attributes) := by
  mvcgen [addElement]

@[scoped spec]
theorem keeps_openElement (name : QName) (h : NamedIn N attributes) :
    Keeps N (openElement name attributes) := by
  mvcgen [openElement]

@[scoped spec]
theorem keeps_openTag (h : tag.NamedIn N) : Keeps N (openTag tag) := by
  mvcgen [openTag]
  exact namedIn_plainAttributes h

@[scoped spec]
theorem keeps_openImplied (name : String) : Keeps N (openImplied name) := by
  mvcgen [openImplied]
  exact namedIn_nil

@[scoped spec]
theorem keeps_addTag (h : tag.NamedIn N) : Keeps N (addTag tag) := by
  mvcgen [addTag]
  exact namedIn_plainAttributes h

@[scoped spec]
theorem keeps_closeParagraphInScope : Keeps N closeParagraphInScope := by
  mvcgen [closeParagraphInScope]

/-! ## Formatting elements -/

theorem keeps_editFormatting (f : List Formatting → List Formatting)
    (h : ∀ list, (∀ e ∈ list, e.NamedIn N) → ∀ e ∈ f list, e.NamedIn N) :
    Keeps N (editFormatting f) := by
  mvcgen [editFormatting] with
  | vc1 b hb _ => exact ⟨hb.forest, h _ hb.formatting⟩

@[scoped spec]
theorem keeps_remember (entry : Formatting) (h : entry.NamedIn N) :
    Keeps N (editFormatting (entry :: ·)) := by
  apply keeps_editFormatting
  intro list hlist
  exact List.forall_mem_cons.mpr ⟨h, hlist⟩

@[scoped spec]
theorem keeps_pushMarker : Keeps N pushMarker := keeps_remember .marker trivial

@[scoped spec]
theorem keeps_clearToMarker : Keeps N clearToMarker := by
  apply keeps_editFormatting
  intro list hlist e he
  exact hlist e ((List.dropWhile_suffix _).subset ((List.drop_suffix 1 _).subset he))

@[scoped spec]
theorem keeps_forgetFormatting (id : NodeId) : Keeps N (forgetFormatting id) := by
  apply keeps_editFormatting
  intro list hlist e he
  exact hlist e (List.mem_of_mem_filter he)

@[scoped spec]
theorem keeps_replaceFormatting (id : NodeId) (entry : Formatting) (h : entry.NamedIn N) :
    Keeps N (replaceFormatting id entry) := by
  apply keeps_editFormatting
  intro list hlist e he
  obtain rfl | hold := mem_replaced he
  · exact h
  · exact hlist e hold

@[scoped spec]
theorem keeps_insertAfter (id : NodeId) (entry : Formatting) (h : entry.NamedIn N) :
    Keeps N (editFormatting (insertAfter id entry)) := by
  apply keeps_editFormatting
  intro list hlist e he
  obtain rfl | hold := mem_insertAfter he
  · exact h
  · exact hlist e hold

/-- The tags that are remembered bear names of the set. -/
@[scoped spec]
theorem recentFormatting_spec :
    ⦃fun b => ⌜b.NamedIn N⌝⦄ recentFormatting
    ⦃⇓ r b => ⌜(∀ x ∈ r, x.2.NamedIn N) ∧ b.NamedIn N⌝⦄ := by
  intro b hb
  exact ⟨fun x hx => hb.formatting _ (mem_formatting_of_recent hx), hb⟩

@[scoped spec]
theorem keeps_reopen (entries : List (NodeId × Tag)) (h : ∀ x ∈ entries, x.2.NamedIn N) :
    Keeps N (reopen entries) := by
  induction entries with
  | nil => mvcgen [reopen]
  | cons entry rest ih =>
    obtain ⟨htag, hrest⟩ := List.forall_mem_cons.mp h
    have hnext := ih hrest
    mvcgen [reopen, hnext]
    exact namedIn_plainAttributes htag

@[scoped spec]
theorem keeps_reconstructFormatting : Keeps N reconstructFormatting := by
  mvcgen [reconstructFormatting] with grind [List.takeWhile_subset]

@[scoped spec]
theorem keeps_openFormatting (h : tag.NamedIn N) : Keeps N (openFormatting tag) := by
  mvcgen [openFormatting] with grind

@[scoped spec]
theorem keeps_closeOrdinary (name : String) : Keeps N (closeOrdinary name) := by
  mvcgen [closeOrdinary]

/-! ## Misnested formatting -/

/-- The elements that replace those between are made from remembered tags. -/
@[scoped spec]
theorem keeps_walkBetween (block : NodeId) (count : Nat) (frames : List Frame) (acc : Between) :
    Keeps N (walkBetween block count frames acc) := by
  induction frames generalizing count acc with
  | nil => mvcgen [walkBetween]
  | cons f rest ih =>
    unfold walkBetween
    mvcgen [ih] with grind [Forest.AllValues.detach, Forest.AllValues.append]

@[scoped spec]
theorem keeps_adoptOnce (name : String) : Keeps N (adoptOnce name) := by
  -- The loop moves the children of the furthest block one by one.
  mvcgen [adoptOnce] invariants
  · ⇓ _ b => ⌜b.NamedIn N⌝
  with grind [Forest.AllValues.append, Forest.AllValues.detach]

@[scoped spec]
theorem keeps_adoptRounds (name : String) (n : Nat) : Keeps N (adoptRounds name n) := by
  induction n with
  | zero => mvcgen [adoptRounds]
  | succ n ih =>
    unfold adoptRounds
    mvcgen [ih]

@[scoped spec]
theorem keeps_adopt (name : String) : Keeps N (adopt name) := by
  mvcgen [adopt]

@[scoped spec]
theorem keeps_closeOpenLink : Keeps N closeOpenLink := by
  mvcgen [closeOpenLink] with grind

end Naming

end Stencil.Html

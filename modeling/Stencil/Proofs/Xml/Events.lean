import Mathlib.Data.List.Forall2
import Stencil.Document
import Stencil.Proofs.Xml.Items

/-!
# A document lists the events of its source

The reader does not look ahead: it turns each item into an event and applies it. So what it has
built lists, in document order, the events that came so far, with the ends of the open elements
still missing (`Building.exists_step`, and `Building.exists_run` for all of them). The events alone
say which elements those are (`openBehind`, `Unclosed`). At the end of the source nothing is open
exactly if every start has its end (`Balanced`); then the document lists all events, and otherwise
the innermost open element is reported (`read_of_delivers`).
-/

namespace Stencil.Xml
open Markup Text

variable {source : String} {cs : List Char} {items : List Item} {ts us : List Tree} {e : Element}
  {event : Event} {events inner more : List Event} {b b' : Building} {names names' : List String}
  {position : Nat}

/-! ## Events -/

/-- The names of the elements that are open behind an event, the innermost first. An end that does
not bear the innermost name is rejected. -/
def openBehind (names : List String) : Event → Option (List String)
  | .opens e => some (e.name.base :: names)
  | .leaf _ => some names
  | .closes name =>
    match names with
    | [] => none
    | innermost :: outer => if innermost = name then some outer else none

/-- The events come up to the end of the source: it can be cut into items, each item stands for an
event, and no end is rejected. -/
structure Delivers (source : String) (events : List Event) : Prop where
  converted : ∃ items, itemsOf source = .ok items ∧ items.Forall₂ (·.event = .ok ·) events
  fits : (events.foldlM openBehind []).isSome

/-- Events in which every start has its end. -/
inductive Balanced : List Event → Prop
  | nil : Balanced []
  | leaf {v : Value} {events : List Event} (hrest : Balanced events) : Balanced (.leaf v :: events)
  | element {e : Element} {inner events : List Event} (hinner : Balanced inner)
      (hrest : Balanced events) : Balanced (.opens e :: (inner ++ .closes e.name.base :: events))

theorem Balanced.append (h : Balanced events) (hmore : Balanced more) :
    Balanced (events ++ more) := by
  induction h with
  | nil => exact hmore
  | leaf _ ih => exact .leaf ih
  | element hinner _ _ ih =>
    rw [List.cons_append, List.append_assoc, List.cons_append]
    exact .element hinner ih

/-- Balanced events leave the open elements as they are. -/
theorem Balanced.openBehind (h : Balanced events) (names : List String) :
    events.foldlM openBehind names = some names := by
  induction h generalizing names with
  | nil => rfl
  | leaf _ ih =>
    rw [List.foldlM_cons]
    exact ih names
  | @element e inner events _ _ ihinner ih =>
    rw [List.foldlM_cons, Xml.openBehind, Option.bind_eq_bind, Option.bind_some, List.foldlM_append,
      ihinner, Option.bind_eq_bind, Option.bind_some, List.foldlM_cons, Xml.openBehind, if_pos rfl]
    exact ih names

/-- Events that are balanced but for the starts of the elements with these names, the innermost
first. -/
inductive Unclosed : List Event → List String → Prop
  | outside {events : List Event} (h : Balanced events) : Unclosed events []
  | inside {events inner : List Event} {e : Element} {outer : List String}
      (houter : Unclosed events outer) (hinner : Balanced inner) :
      Unclosed (events ++ .opens e :: inner) (e.name.base :: outer)

namespace Unclosed

theorem append (h : Unclosed events names) (hmore : Balanced more) :
    Unclosed (events ++ more) names := by
  cases h with
  | outside h => exact .outside (h.append hmore)
  | inside houter hinner =>
    rw [List.append_assoc, List.cons_append]
    exact .inside houter (hinner.append hmore)

/-- One event is one step. -/
theorem step (h : Unclosed events names) (hopen : openBehind names event = some names') :
    Unclosed (events ++ [event]) names' := by
  cases event with
  | opens e =>
    obtain rfl := Option.some.inj hopen
    exact .inside h .nil
  | leaf v =>
    obtain rfl := Option.some.inj hopen
    exact h.append (.leaf .nil)
  | closes name =>
    cases h with
    | outside => cases hopen
    | @inside events inner e outer houter hinner =>
      rw [openBehind] at hopen
      split at hopen
      · next hname =>
        obtain rfl := Option.some.inj hopen
        subst hname
        rw [List.append_assoc]
        exact houter.append (.element hinner .nil)
      · cases hopen

theorem run (h : Unclosed events names) (hopen : more.foldlM openBehind names = some names') :
    Unclosed (events ++ more) names' := by
  induction more generalizing events names with
  | nil =>
    obtain rfl := Option.some.inj hopen
    rwa [List.append_nil]
  | cons event more ih =>
    rw [List.foldlM_cons, Option.bind_eq_bind, Option.bind_eq_some_iff] at hopen
    obtain ⟨middle, hstep, hrest⟩ := hopen
    rw [List.append_cons]
    exact ih (h.step hstep) hrest

end Unclosed

/-! ## Listing a tree -/

mutual

/-- A tree in document order: an element's start, its children and its end. -/
def listing : Tree → List Event
  | .node _ value children =>
    match value with
    | .element e => .opens e :: (listingAll children ++ [.closes e.name.base])
    | other => .leaf other :: listingAll children

/-- A list of trees in document order. -/
def listingAll : List Tree → List Event
  | [] => []
  | t :: ts => listing t ++ listingAll ts

end

theorem listingAll_append (ts us : List Tree) :
    listingAll (ts ++ us) = listingAll ts ++ listingAll us := by
  induction ts with
  | nil => rfl
  | cons t ts ih => rw [List.cons_append, listingAll, listingAll, ih, List.append_assoc]

theorem listingAll_singleton (t : Tree) : listingAll [t] = listing t := by
  rw [listingAll, listingAll, List.append_nil]

/-- Numbers are not listed. -/
theorem listingAll_relabelAll (ts : List Tree) (n : NodeId) :
    listingAll (Tree.relabelAll ts n).1 = listingAll ts := by
  induction ts using Tree.listInduction generalizing n with
  | nil => rfl
  | cons i v cs ts ihc iht =>
    rw [Tree.relabelAll_cons_node, listingAll, listingAll, iht]
    cases v <;> simp only [listing, ihc]

/-- An event with an empty tag taken for a start and its end. -/
def Event.spread : Event → List Event
  | .leaf (.element e) => [.opens e, .closes e.name.base]
  | event => [event]

theorem listing_leaf (i : NodeId) (v : Value) : listing (.node i v []) = Event.spread (.leaf v) := by
  cases v <;> rfl

/-! ## Building -/

/-- What is listed before the innermost open element is complete: the start of each open element
behind what is complete around it. -/
def listingPath : List OpenElement → List Event
  | [] => []
  | o :: outer => listingPath outer ++ (listingAll o.before.reverse ++ [.opens o.element])

namespace Building

/-- All that has been built, in document order. -/
def listing (b : Building) : List Event := listingPath b.path ++ listingAll b.before.reverse

/-- The names of the open elements, the innermost first. -/
def openNames (b : Building) : List String := b.path.map (·.element.name.base)

/-- **A step that is taken adds the event to the listing**, and one can be taken unless the event is
an end that is rejected. -/
theorem exists_step (h : openBehind b.openNames event = some names') :
    ∃ b', b.step event = .ok b' ∧ b'.openNames = names' ∧
      b'.listing = b.listing ++ event.spread := by
  obtain ⟨path, before⟩ := b
  cases event with
  | leaf v =>
    refine ⟨_, rfl, Option.some.inj h, ?_⟩
    rw [listing, listing, List.reverse_cons, listingAll_append, listingAll_singleton, listing_leaf,
      List.append_assoc]
  | opens e =>
    refine ⟨_, rfl, Option.some.inj h, ?_⟩
    rw [listing, listing, listingPath, List.append_assoc, List.append_assoc, List.append_assoc]
    rfl
  | closes name =>
    cases path with
    | nil => cases h
    | cons o outer =>
      rw [openNames, List.map_cons, openBehind] at h
      split at h
      · next hname =>
        refine ⟨_, if_pos hname, Option.some.inj h, ?_⟩
        rw [listing, listing, listingPath, List.reverse_cons, listingAll_append,
          listingAll_singleton, Xml.listing, ← hname]
        simp only [Event.spread, List.append_assoc, List.cons_append, List.nil_append]
      · cases h

/-- **The run of the steps**: what has been built lists the events one by one. -/
theorem exists_run (h : events.foldlM openBehind b.openNames = some names') :
    ∃ b', events.foldlM step b = .ok b' ∧ b'.openNames = names' ∧
      b'.listing = b.listing ++ events.flatMap Event.spread := by
  induction events generalizing b with
  | nil =>
    exact ⟨b, rfl, Option.some.inj h, (List.append_nil _).symm⟩
  | cons event events ih =>
    rw [List.foldlM_cons, Option.bind_eq_bind, Option.bind_eq_some_iff] at h
    obtain ⟨middle, hstep, hrest⟩ := h
    obtain ⟨b₁, hb₁, rfl, hlisting₁⟩ := exists_step hstep
    obtain ⟨b', hb', hnames, hlisting⟩ := ih hrest
    refine ⟨b', ?_, hnames, ?_⟩
    · rw [List.foldlM_cons, hb₁]
      exact hb'
    · rw [hlisting, hlisting₁, List.flatMap_cons, List.append_assoc]

end Building

/-! ## Reading -/

theorem exists_of_itemsFrom_cons {c : Char} (h : itemsFrom position (c :: cs) = .ok items) :
    ∃ item rest others, Item.next position c cs = .ok (item, rest) ∧
      itemsFrom (position + (byteLength (c :: cs) - byteLength rest)) rest = .ok others ∧
      items = item :: others := by
  cases hnext : Item.next position c cs with
  | error fault =>
    rw [itemsFrom] at h
    split at h
    · cases h
    · next hok => cases hnext.symm.trans hok
  | ok cut =>
    obtain ⟨item, rest⟩ := cut
    rw [itemsFrom_cons hnext] at h
    obtain ⟨others, hothers, rfl⟩ := exists_of_map_eq_ok h
    exact ⟨item, rest, others, rfl, hothers, rfl⟩

/-- The reader takes the steps of the events and then finishes, or fails at the end of the text. -/
theorem readFrom_of_run (hitems : itemsFrom position cs = .ok items)
    (hevents : items.Forall₂ (·.event = .ok ·) events)
    (hrun : events.foldlM Building.step b = .ok b') :
    readFrom b position cs = b'.finish.mapError (⟨position + byteLength cs, ·⟩) := by
  fun_induction readFrom b position cs generalizing items events with
  | case1 b position _ hfinish | case2 b position _ hfinish =>
    rw [itemsFrom] at hitems
    obtain rfl := Except.ok.inj hitems
    cases hevents
    obtain rfl := Except.ok.inj hrun
    rw [hfinish]
    rfl
  | case3 b position c cs fault hnext =>
    obtain ⟨item, rest, others, hitem, -, -⟩ := exists_of_itemsFrom_cons hitems
    cases hnext.symm.trans hitem
  | case4 b position c cs item rest hnext _ behind cause =>
    rename_i hcause
    obtain ⟨_, _, _, hitem, -, rfl⟩ := exists_of_itemsFrom_cons hitems
    obtain ⟨rfl, rfl⟩ := Prod.mk.inj (Except.ok.inj (hnext.symm.trans hitem))
    cases hevents with
    | cons hevent _ => cases hcause.symm.trans hevent
  | case5 b position c cs item rest hnext _ event hevent cause hcause =>
    obtain ⟨_, _, _, hitem, -, rfl⟩ := exists_of_itemsFrom_cons hitems
    obtain ⟨rfl, rfl⟩ := Prod.mk.inj (Except.ok.inj (hnext.symm.trans hitem))
    cases hevents with
    | cons hevent' _ =>
      obtain rfl := Except.ok.inj (hevent.symm.trans hevent')
      rw [List.foldlM_cons, hcause] at hrun
      cases hrun
  | case6 b position c cs item rest hnext _ behind event hevent b₁ hstep =>
    rename_i ih
    obtain ⟨_, _, _, hitem, hothers, rfl⟩ := exists_of_itemsFrom_cons hitems
    obtain ⟨rfl, rfl⟩ := Prod.mk.inj (Except.ok.inj (hnext.symm.trans hitem))
    cases hevents with
    | cons hevent' hevents =>
      obtain rfl := Except.ok.inj (hevent.symm.trans hevent')
      rw [List.foldlM_cons, hstep] at hrun
      have hsize : behind + byteLength rest = position + byteLength (c :: cs) := by
        obtain ⟨front, hfront⟩ := (Item.cutOff_next hnext).rest
        have := congrArg byteLength hfront
        rw [byteLength_append] at this
        omega
      rw [ih hothers hevents hrun, hsize]

/-- The text of a source behind its byte order mark. -/
def behindMark (source : String) : List Char :=
  match source.toList with
  | '\uFEFF' :: cs => cs
  | cs => cs

/-- What the reader makes of a source whose events come up to its end. -/
theorem read_of_run (hitems : itemsOf source = .ok items)
    (hevents : items.Forall₂ (·.event = .ok ·) events)
    (hrun : events.foldlM Building.step .empty = .ok b) :
    read source =
      (b.finish.mapError (⟨byteLength (behindMark source), ·⟩)).map Forest.ofTrees := by
  have hread : readFrom .empty 0 (behindMark source) = _ := readFrom_of_run hitems hevents hrun
  rw [Nat.zero_add] at hread
  exact congrArg (Except.map Forest.ofTrees) hread

end Stencil.Xml

namespace Stencil.Document
open Markup Xml

variable {source : String} {events : List Event}

/-- **The tree of the events.** If the events of a source come up to its end, the source can be read
exactly if every start has its end, and then the document lists the events one by one. Otherwise the
innermost element that is still open at the end of the source is reported there. -/
theorem read_of_delivers (h : Delivers source events) :
    ((∃ d, read source .xml = .ok d) ↔ Balanced events) ∧
      (∀ d, read source .xml = .ok d →
        listingAll d.forest.document.children = events.flatMap Event.spread) ∧
      (¬ Balanced events → ∃ before e inner, events = before ++ .opens e :: inner ∧ Balanced inner ∧
        read source .xml =
          .error ⟨Text.byteLength (behindMark source), .missingEnd e.name.base⟩) := by
  obtain ⟨⟨items, hitems, hevents⟩, hfits⟩ := h
  obtain ⟨names, hnames⟩ := Option.isSome_iff_exists.mp hfits
  obtain ⟨b, hrun, hopen, hlisting⟩ := Building.exists_run (b := .empty) hnames
  have hunclosed : Unclosed events names := (Unclosed.outside .nil).run hnames
  have hread := congrArg (Except.map (Document.mk .xml)) (read_of_run hitems hevents hrun)
  obtain ⟨path, before⟩ := b
  cases path with
  | nil =>
    obtain rfl : names = [] := hopen.symm
    have hbalanced : Balanced events := by
      cases hunclosed with
      | outside hbalanced => exact hbalanced
    have hok : read source .xml = .ok ⟨.xml, .ofTrees before.reverse⟩ := hread
    refine ⟨iff_of_true ⟨_, hok⟩ hbalanced, ?_, fun h => absurd hbalanced h⟩
    intro d hd
    obtain rfl := Except.ok.inj (hok.symm.trans hd)
    rw [Forest.document_ofTrees, Tree.children_node, listingAll_relabelAll]
    exact hlisting
  | cons o outer =>
    obtain rfl : names = o.element.name.base :: outer.map (·.element.name.base) := hopen.symm
    have hunbalanced : ¬ Balanced events := by
      intro hbalanced
      rw [hbalanced.openBehind] at hnames
      cases hnames
    have herror : read source .xml =
        .error ⟨Text.byteLength (behindMark source), .missingEnd o.element.name.base⟩ := hread
    refine ⟨iff_of_false ?_ hunbalanced, ?_, fun _ => ?_⟩
    · rintro ⟨d, hd⟩
      cases herror.symm.trans hd
    · intro d hd
      cases herror.symm.trans hd
    · generalize hinnermost : o.element.name.base = innermost at hunclosed herror
      cases hunclosed with
      | inside houter hinner => exact ⟨_, _, _, rfl, hinner, herror⟩

/-- The events of a paragraph whose elements are still open. -/
def openParagraph : List Event :=
  [.opens ⟨.plain "p", []⟩, .leaf (.text "1 < 2"), .leaf (.element ⟨.plain "br", []⟩),
    .opens ⟨.plain "b", []⟩]

/-- A paragraph that is complete, and one that ends inside. -/
theorem read_of_delivers_paragraph :
    (∃ d, read "<p>1 &lt; 2<br/><b></b></p>" .xml = .ok d ∧
      listingAll d.forest.document.children =
        [.opens ⟨.plain "p", []⟩, .leaf (.text "1 < 2"), .opens ⟨.plain "br", []⟩, .closes "br",
          .opens ⟨.plain "b", []⟩, .closes "b", .closes "p"]) ∧
      ∃ before e inner, openParagraph = before ++ .opens e :: inner ∧ Balanced inner ∧
        read "<p>1 &lt; 2<br/><b>" .xml = .error ⟨19, .missingEnd e.name.base⟩ := by
  have hitems : itemsOf "<p>1 &lt; 2<br/><b>" =
      .ok [.start ['p'], .text "1 &lt; 2".toList, .empty ['b', 'r'], .start ['b']] := by
    decide +kernel
  have hclosed : itemsOf "<p>1 &lt; 2<br/><b></b></p>" =
      .ok [.start ['p'], .text "1 &lt; 2".toList, .empty ['b', 'r'], .start ['b'], .finish ['b'],
        .finish ['p']] := by
    decide +kernel
  have hopened : Delivers "<p>1 &lt; 2<br/><b>" openParagraph := by
    refine ⟨⟨_, hitems, ?_⟩, by decide⟩
    exact .cons (by decide +kernel) (.cons (by decide +kernel) (.cons (by decide +kernel)
      (.cons (by decide +kernel) .nil)))
  have hcomplete : Delivers "<p>1 &lt; 2<br/><b></b></p>"
      (openParagraph ++ [.closes "b", .closes "p"]) := by
    refine ⟨⟨_, hclosed, ?_⟩, by decide⟩
    exact .cons (by decide +kernel) (.cons (by decide +kernel) (.cons (by decide +kernel)
      (.cons (by decide +kernel) (.cons (by decide +kernel) (.cons (by decide +kernel) .nil)))))
  have hinner : Balanced [.leaf (.text "1 < 2"), .leaf (.element ⟨.plain "br", []⟩),
      .opens ⟨.plain "b", []⟩, .closes "b"] := .leaf (.leaf (.element .nil .nil))
  have hbalanced : Balanced (openParagraph ++ [.closes "b", .closes "p"]) := .element hinner .nil
  have hunbalanced : ¬ Balanced openParagraph := by
    intro h
    cases h.openBehind []
  constructor
  · obtain ⟨hread, hlisting, -⟩ := read_of_delivers hcomplete
    obtain ⟨d, hd⟩ := hread.mpr hbalanced
    exact ⟨d, hd, hlisting d hd⟩
  · exact (read_of_delivers hopened).2.2 hunbalanced

end Stencil.Document

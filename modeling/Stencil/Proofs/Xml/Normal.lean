import Stencil.Proofs.Markup.Shape
import Stencil.Proofs.Text.Cutting
import Stencil.Xml.Writer

/-!
# The normal form of an XML tree

Written text does not show where one text node ends and the next one begins, nor that an empty one
was there, and a CDATA section that holds the terminator is written as several. The normal form of a
tree (`normalize`) has no empty text nodes, no two next to each other and no section with a
terminator. Everything else is as it was.
-/

namespace Stencil.Xml
open Markup Text
open Markup.Tree (listInduction renumberAll)

variable {i : NodeId} {v : Value} {cs ts us : List Tree} {piece : List Char}

/-- Put a text node before trees. An empty one vanishes; one before another text node becomes one
with it. -/
def joinText (i : NodeId) (text : String) (ts : List Tree) : List Tree :=
  if text = "" then ts
  else match ts with
    | .node _ (.text behind) _ :: rest => .node i (.text (text ++ behind)) [] :: rest
    | ts => .node i (.text text) [] :: ts

/-- The values that a value is read back as: a comment for each section that is written. -/
def pieces : Value → List Value
  | .comment c =>
    match cdataContent? c with
    | some content => (cdataSections content.toList).map fun piece =>
      .comment (cdataComment (String.ofList piece))
    | none => [.comment c]
  | v => [v]

/-- The normal form of a list of trees. -/
def normalizeAll : List Tree → List Tree
  | [] => []
  | .node i v cs :: ts =>
    match v with
    | .text t => joinText i t (normalizeAll ts)
    | v => (pieces v).map (fun piece => .node i piece (normalizeAll cs)) ++ normalizeAll ts

/-- The normal form of a tree: that of the trees below its root. -/
def normalize (t : Tree) : Tree := t.withChildren normalizeAll

/-! ## Joining texts -/

theorem joinText_empty (i : NodeId) (ts : List Tree) : joinText i "" ts = ts := if_pos rfl

/-- The trees do not begin with a text node. -/
def NoTextFirst (ts : List Tree) : Prop := ∀ t ∈ ts.head?, ∀ text, t.value ≠ .text text

theorem noTextFirst_or (ts : List Tree) :
    NoTextFirst ts ∨ ∃ j behind cs rest, ts = .node j (.text behind) cs :: rest := by
  cases ts with
  | nil => exact .inl fun t ht => nomatch ht
  | cons t rest =>
    obtain ⟨j, v, cs⟩ := t
    by_cases hv : ∃ behind, v = .text behind
    · obtain ⟨behind, rfl⟩ := hv
      exact .inr ⟨j, behind, cs, rest, rfl⟩
    · refine .inl fun t ht text htext => hv ⟨text, ?_⟩
      obtain rfl := Option.some.inj ht
      exact htext

theorem joinText_of_noTextFirst (h : NoTextFirst ts) (i : NodeId) (text : String) :
    joinText i text ts = joinText i text [] ++ ts := by
  by_cases htext : text = ""
  · subst htext
    rw [joinText_empty, joinText_empty]
    rfl
  · unfold joinText
    rw [if_neg htext, if_neg htext]
    split
    · exact absurd rfl (h _ rfl _)
    · rfl

theorem joinText_of_ne {text : String} (h : text ≠ "") (i j : NodeId) (behind : String)
    (cs rest : List Tree) : joinText i text (.node j (.text behind) cs :: rest) =
      .node i (.text (text ++ behind)) [] :: rest := if_neg h

theorem joinText_singleton {text : String} (h : text ≠ "") (i : NodeId) :
    joinText i text [] = [.node i (.text text) []] := if_neg h

/-- Texts are joined one after the other or at once. -/
theorem joinText_joinText (i : NodeId) (s t : String) (ts : List Tree) :
    joinText i s (joinText i t ts) = joinText i (s ++ t) ts := by
  by_cases hs : s = ""
  · rw [hs, joinText_empty, String.empty_append]
  by_cases ht : t = ""
  · rw [ht, joinText_empty, String.append_empty]
  have hst : s ++ t ≠ "" := fun h => hs (String.append_eq_empty_iff.mp h).1
  -- Either there is nothing to join with behind, or both sides join with the same text.
  rcases noTextFirst_or ts with h | ⟨j, behind, cs, rest, rfl⟩
  · rw [joinText_of_noTextFirst h, joinText_singleton ht, List.singleton_append, joinText_of_ne hs,
      joinText_of_noTextFirst h, joinText_singleton hst, List.singleton_append]
  · rw [joinText_of_ne ht, joinText_of_ne hs, joinText_of_ne hst, String.append_assoc]

theorem renumberAll_joinText (φ : NodeId → NodeId) (i : NodeId) (text : String) (ts : List Tree) :
    renumberAll φ (joinText i text ts) = joinText (φ i) text (renumberAll φ ts) := by
  by_cases htext : text = ""
  · rw [htext, joinText_empty, joinText_empty]
  rcases noTextFirst_or ts with h | ⟨j, behind, cs, rest, rfl⟩
  · have h' : NoTextFirst (renumberAll φ ts) := by
      cases ts with
      | nil => exact fun t ht => nomatch ht
      | cons t ts =>
        intro u hu text hvalue
        obtain rfl := Option.some.inj hu
        rw [Tree.value_renumber] at hvalue
        exact h t rfl text hvalue
    rw [joinText_of_noTextFirst h, joinText_of_noTextFirst h', joinText_singleton htext,
      joinText_singleton htext]
    rfl
  · rw [joinText_of_ne htext, renumberAll, renumberAll, Tree.renumber, Tree.renumber,
      joinText_of_ne htext]
    rfl

/-! ## Sections -/

theorem cdataSections_ne_nil (cs : List Char) : cdataSections cs ≠ [] := by
  fun_induction cdataSections cs <;> simp

/-- The pieces are a cut of the text. -/
theorem flatten_cdataSections (cs : List Char) : (cdataSections cs).flatten = cs := by
  fun_induction cdataSections cs with
  | case1 => rfl
  | case2 rest ih => rw [List.flatten_cons, ih]; rfl
  | case3 c rest _ piece pieces hpieces ih =>
    rw [hpieces, List.flatten_cons] at ih
    rw [List.flatten_cons, List.cons_append, ih]
  | case4 c rest _ hpieces => exact absurd hpieces (cdataSections_ne_nil rest)

/-- **No piece holds the terminator.** -/
theorem occursIn_of_mem_cdataSections (cs : List Char) :
    ∀ piece ∈ cdataSections cs, occursIn [']', ']', '>'] piece = false := by
  fun_induction cdataSections cs with
  | case1 => simp [occursIn]
  | case2 rest ih => exact List.forall_mem_cons.mpr ⟨by decide, ih⟩
  | case3 c rest hnot piece pieces hpieces ih =>
    rw [hpieces] at ih
    obtain ⟨hpiece, hlater⟩ := List.forall_mem_cons.mp ih
    refine List.forall_mem_cons.mpr ⟨?_, hlater⟩
    rw [occursIn, hpiece, Bool.or_false, Bool.eq_false_iff]
    intro hstart
    -- The piece is where the rest begins, so the terminator would begin here.
    obtain ⟨behind, hbehind⟩ := startsWith_iff.mp hstart
    have hrest := flatten_cdataSections rest
    rw [hpieces, List.flatten_cons] at hrest
    obtain ⟨rfl, hpiece⟩ := List.cons.inj hbehind
    refine hnot (behind ++ pieces.flatten) rfl ?_
    rw [← hrest, ← hpiece]
    rfl
  | case4 c rest _ hpieces => exact absurd hpieces (cdataSections_ne_nil rest)

/-- A text without the terminator is one piece. -/
theorem cdataSections_of_occursIn {cs : List Char} (h : occursIn [']', ']', '>'] cs = false) :
    cdataSections cs = [cs] := by
  fun_induction cdataSections cs with
  | case1 => rfl
  | case2 rest ih => cases h
  | case3 c rest _ piece pieces hpieces ih =>
    rw [occursIn, Bool.or_eq_false_iff] at h
    have hrest := ih h.2
    rw [hpieces] at hrest
    obtain ⟨rfl, rfl⟩ := List.cons.inj hrest
    rfl
  | case4 c rest _ hpieces => exact absurd hpieces (cdataSections_ne_nil rest)

theorem cdataContent?_cdataComment (content : String) :
    cdataContent? (cdataComment content) = some content := by
  have hstem : afterStem? (cdataComment content) "[CDATA[" = some (content ++ "]]") := by
    have hdrop : dropStem? "[CDATA[".toList (cdataComment content).toList =
        some (content ++ "]]").toList := by
      rw [dropStem?_eq_some_iff, cdataComment, String.toList_append, String.toList_append,
        String.toList_append, List.append_assoc]
    rw [afterStem?, hdrop, Option.map_some, String.ofList_toList]
  have htail : beforeTail? (content ++ "]]") "]]" = some content := by
    have hdrop : dropTail? "]]".toList (content ++ "]]").toList = some content.toList :=
      dropTail?_eq_some_iff.mpr String.toList_append
    rw [beforeTail?, hdrop, Option.map_some, String.ofList_toList]
  rw [cdataContent?, hstem, Option.bind_some, htail]

/-! ## Normal forms -/

theorem normalizeAll_text (i : NodeId) (t : String) (cs ts : List Tree) :
    normalizeAll (.node i (.text t) cs :: ts) = joinText i t (normalizeAll ts) := by
  rw [normalizeAll]

theorem normalizeAll_cons (h : ∀ t, v ≠ .text t) (i : NodeId) (cs ts : List Tree) :
    normalizeAll (.node i v cs :: ts) =
      (pieces v).map (fun piece => .node i piece (normalizeAll cs)) ++ normalizeAll ts := by
  rw [normalizeAll]
  exact h

theorem pieces_of_some {c content : String} (h : cdataContent? c = some content) :
    pieces (.comment c) = (cdataSections content.toList).map fun piece =>
      .comment (cdataComment (String.ofList piece)) := by
  rw [pieces, h]

theorem pieces_of_none {c : String} (h : cdataContent? c = none) :
    pieces (.comment c) = [.comment c] := by
  rw [pieces, h]

theorem pieces_of_ne_comment (h : ∀ c, v ≠ .comment c) : pieces v = [v] := by
  cases v with
  | comment c => exact absurd rfl (h c)
  | _ => rfl

theorem pieces_ne_text (h : ∀ t, v ≠ .text t) : ∀ piece ∈ pieces v, ∀ t, piece ≠ .text t := by
  by_cases hcomment : ∃ c, v = .comment c
  · obtain ⟨c, rfl⟩ := hcomment
    cases hc : cdataContent? c with
    | none => simp [pieces_of_none hc]
    | some content => simp [pieces_of_some hc]
  · rw [pieces_of_ne_comment fun c hc => hcomment ⟨c, hc⟩]
    simpa using h

theorem pieces_ne_nil (v : Value) : pieces v ≠ [] := by
  by_cases hcomment : ∃ c, v = .comment c
  · obtain ⟨c, rfl⟩ := hcomment
    cases hc : cdataContent? c with
    | none => simp [pieces_of_none hc]
    | some content =>
      rw [pieces_of_some hc]
      exact fun h => cdataSections_ne_nil _ (List.map_eq_nil_iff.mp h)
  · rw [pieces_of_ne_comment fun c hc => hcomment ⟨c, hc⟩]
    exact List.cons_ne_nil _ _

theorem renumberAll_pieces (φ : NodeId → NodeId) (i : NodeId) (values : List Value)
    (cs : List Tree) : renumberAll φ (values.map fun piece => .node i piece cs) =
      values.map fun piece => .node (φ i) piece (renumberAll φ cs) := by
  rw [Tree.renumberAll_eq_map, List.map_map]
  refine List.map_congr_left ?_
  intro piece _
  rw [Function.comp_apply, Tree.renumber]

end Stencil.Xml

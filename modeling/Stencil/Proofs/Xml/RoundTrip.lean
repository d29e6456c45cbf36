import Stencil.Document
import Stencil.Proofs.Xml.Item
import Stencil.Proofs.Xml.Normal

/-!
# Reading what was written

A written XML document is read back as its normal form (`read_write`). The reader works item by item
on a stack of open elements, the writer tree by tree, so the invariant is about a list of trees in
any context: behind a text that is still pending and before any rest that begins with a tag, reading
what is written for the trees adds their normal form, with the pending text joined to it, to the
innermost open element (`reads_writeAll`). The pending text is what lets the induction run over text
nodes, which leave no trace of where they end.
-/

namespace Stencil.Xml
open Markup Text
open Markup.Tree (listInduction renumberAll preorderAll)

variable {b b' b'' : Building} {c : Char} {cs rest last : List Char} {ts us : List Tree}
  {e : Element} {v : Value} {i : NodeId}

/-! ## Documents -/

/-- What a node below the document may be. -/
inductive Regular : Value → Prop
  | element {e : Element} (h : Nameable e) : Regular (.element e)
  | text (t : String) : Regular (.text t)
  | section (content : String) : Regular (.comment (cdataComment content))
  | comment {c : String} (h : contains c "-->" = false) : Regular (.comment c)
  | instruction {target data : String} (hne : target ≠ "")
      (htarget : ∀ c ∈ target.toList, isBlank c = false ∧ c ≠ '?') (hdata : trimmed data = data)
      (hclosed : contains data "?>" = false) : Regular (.instruction target data)
  | doctype {name : String} (hne : name ≠ "") (htrim : trimmed name = name)
      (hname : ∀ c ∈ name.toList, c ≠ '<' ∧ c ≠ '>') : Regular (.doctype name "" "")

/-- The target of an instruction does not begin with the character that ends one. -/
def OpensInstruction (v : Value) : Prop :=
  ∀ target data, v = .instruction target data → target.toList.head? ≠ some '>'

/-- An XML document: its nodes are regular, only elements have children, and its text does not begin
with a byte order mark. -/
structure RegularDocument (d : Document) : Prop where
  mode : d.mode = .xml
  root : d.forest.document.value = .document
  values : ∀ t ∈ d.forest.document.descendants, Regular t.value
  leaves : ∀ t ∈ d.forest.document.descendants, t.children ≠ [] → t.value.isElement
  mark : d.write.toList.head? ≠ some '\uFEFF'

/-! ## Runs of the reader -/

/-- Reading goes on from `cs` with `b` as from `rest` with `b'`. -/
def Reads (b : Building) (cs : List Char) (b' : Building) (rest : List Char) : Prop :=
  ∀ position, ∃ behind, readFrom b position cs = readFrom b' behind rest

theorem Reads.refl (b : Building) (cs : List Char) : Reads b cs b cs :=
  fun position => ⟨position, rfl⟩

theorem Reads.trans (h : Reads b cs b' rest) (h' : Reads b' rest b'' last) :
    Reads b cs b'' last := by
  intro position
  obtain ⟨middle, h⟩ := h position
  obtain ⟨behind, h'⟩ := h' middle
  exact ⟨behind, h.trans h'⟩

/-- One item is one step. -/
theorem Reads.item {item : Item} {event : Event}
    (hnext : ∀ position, Item.next position c cs = .ok (item, rest))
    (hevent : item.event = .ok event) (hstep : b.step event = .ok b') :
    Reads b (c :: cs) b' rest := by
  intro position
  refine ⟨position + (byteLength (c :: cs) - byteLength rest), ?_⟩
  rw [readFrom]
  split
  · next fault h => cases (hnext position).symm.trans h
  · next item' rest' h =>
    obtain ⟨rfl, rfl⟩ := Prod.mk.inj (Except.ok.inj ((hnext position).symm.trans h))
    rw [hevent]
    dsimp only
    rw [hstep]

/-- The building with trees added behind those of the innermost open element. -/
def Building.add (b : Building) (ts : List Tree) : Building :=
  { b with before := ts.reverse ++ b.before }

theorem Building.add_add (b : Building) (ts us : List Tree) : (b.add ts).add us = b.add (ts ++ us) := by
  rw [add, add, add, List.reverse_append, List.append_assoc]

theorem Building.step_leaf (b : Building) (v : Value) :
    b.step (.leaf v) = .ok (b.add [.node 0 v []]) := rfl

/-! ## Leaves -/

/-- A pending text ends before a tag. -/
theorem reads_text (b : Building) (text : String) (hrest : ∀ d ∈ rest.head?, d = '<') :
    Reads b (text.toList.flatMap escapeText ++ rest) (b.add (joinText 0 text [])) rest := by
  -- An empty text is written as nothing and adds nothing.
  by_cases htext : text = ""
  · subst htext
    exact Reads.refl _ _
  rw [joinText_singleton htext]
  have hmem : ∀ d ∈ text.toList.flatMap escapeText, d ≠ '<' := fun d hd => ne_of_mem_escapedText hd
  have hdecode := decode_escapeText text.toList
  cases hcs : text.toList.flatMap escapeText with
  | nil =>
    rw [hcs] at hdecode
    -- A text that is not empty is not written as nothing, since it is read back.
    have hnil := Except.ok.inj ((decode_escapeText []).symm.trans hdecode)
    exact absurd (String.toList_injective hnil.symm) htext
  | cons c cs =>
    rw [hcs] at hmem hdecode
    refine Reads.item (fun position => Item.next_text position hmem hrest) ?_ (b.step_leaf _)
    rw [Item.event, hdecode]
    dsimp only
    rw [String.ofList_toList]

theorem reads_comment (b : Building) {comment : String} (h : contains comment "-->" = false) :
    Reads b (("<!--" ++ comment ++ "-->").toList ++ rest) (b.add [.node 0 (.comment comment) []])
      rest := by
  have htext : ("<!--" ++ comment ++ "-->").toList ++ rest =
      '<' :: '!' :: '-' :: '-' :: (comment.toList ++ '-' :: '-' :: '>' :: rest) := by
    simp [String.toList_append]
  rw [htext]
  refine Reads.item (fun position => Item.next_comment position h rest) rfl ?_
  rw [Building.step_leaf, String.ofList_toList]

theorem reads_section (b : Building) {piece : List Char}
    (h : occursIn [']', ']', '>'] piece = false) :
    Reads b (("<![CDATA[" ++ String.ofList piece ++ "]]>").toList ++ rest)
      (b.add [.node 0 (.comment (cdataComment (String.ofList piece))) []]) rest := by
  have htext : ("<![CDATA[" ++ String.ofList piece ++ "]]>").toList ++ rest =
      '<' :: '!' :: '[' :: 'C' :: 'D' :: 'A' :: 'T' :: 'A' :: '[' ::
        (piece ++ ']' :: ']' :: '>' :: rest) := by
    simp [String.toList_append]
  rw [htext]
  exact Reads.item (fun position => Item.next_section position h rest) rfl (b.step_leaf _)

/-- Consecutive sections are read as consecutive comments. -/
theorem reads_sections {pieces : List (List Char)}
    (h : ∀ piece ∈ pieces, occursIn [']', ']', '>'] piece = false) (b : Building) :
    Reads b ((String.join (pieces.map fun piece =>
        "<![CDATA[" ++ String.ofList piece ++ "]]>")).toList ++ rest)
      (b.add (pieces.map fun piece =>
        .node 0 (.comment (cdataComment (String.ofList piece))) [])) rest := by
  induction pieces generalizing b with
  | nil => exact Reads.refl _ _
  | cons piece pieces ih =>
    obtain ⟨hpiece, hpieces⟩ := List.forall_mem_cons.mp h
    rw [List.map_cons, String.join_cons, String.toList_append, List.append_assoc]
    refine (reads_section b hpiece).trans ?_
    have hlater := ih hpieces (b.add [.node 0 (.comment (cdataComment (String.ofList piece))) []])
    rwa [Building.add_add] at hlater

/-- The content of an instruction is read as its target and its data. -/
theorem instructionValue_eq {target data : List Char} (hne : target ≠ [])
    (htarget : ∀ c ∈ target, isBlank c = false) (hdata : trim data = data) :
    instructionValue (if data = [] then target else target ++ ' ' :: data) =
      .instruction (String.ofList target) (String.ofList data) := by
  have hword : ∀ c ∈ target, (!isBlank c) = true := by
    intro c hc
    rw [htarget c hc]
    rfl
  cases data with
  | nil =>
    rw [if_pos rfl, instructionValue, trim_of_forall htarget]
    rw [List.takeWhile_eq_self_iff.mpr hword, List.dropWhile_eq_nil_iff.mpr hword, trim_nil]
  | cons d data =>
    -- Neither end is a blank, so only the blank between the two words cuts.
    have htrim : trim (target ++ ' ' :: d :: data) = target ++ ' ' :: d :: data := by
      cases target with
      | nil => exact absurd rfl hne
      | cons c target =>
        have happend : trim (c :: (target ++ [' ']) ++ d :: data) =
            c :: (target ++ [' ']) ++ d :: data :=
          trim_append_cons (htarget c List.mem_cons_self) hdata
        simpa using happend
    rw [if_neg (List.cons_ne_nil d data), instructionValue, htrim,
      takeWhile_append_cons hword (by decide), dropWhile_append_cons hword (by decide),
      trim_cons_of_isBlank (by decide), hdata]

/-- The content that is written for an instruction. -/
def instructionText (target data : String) : List Char :=
  if data.toList = [] then target.toList else target.toList ++ ' ' :: data.toList

theorem toList_leafText_instruction (target data : String) :
    (leafText (.instruction target data)).toList =
      '<' :: '?' :: (instructionText target data ++ ['?', '>']) := by
  have hempty : data.isEmpty ↔ data.toList = [] := by
    rw [String.isEmpty_iff, ← String.toList_inj]
    rfl
  rw [leafText, instructionText]
  by_cases h : data.toList = []
  · rw [if_pos (hempty.mpr h), if_pos h]
    simp [String.toList_append]
  · rw [if_neg fun he => h (hempty.mp he), if_neg h]
    simp [String.toList_append]

theorem reads_instruction (b : Building) {target data : String} (hne : target ≠ "")
    (htarget : ∀ c ∈ target.toList, isBlank c = false ∧ c ≠ '?') (hdata : trimmed data = data)
    (hclosed : contains data "?>" = false) (hopens : target.toList.head? ≠ some '>') :
    Reads b ((leafText (.instruction target data)).toList ++ rest)
      (b.add [.node 0 (.instruction target data) []]) rest := by
  have hne : target.toList ≠ [] := fun h => hne (String.toList_injective h)
  have htrim : trim data.toList = data.toList := by
    rw [← String.toList_ofList (l := trim data.toList)]
    exact congrArg String.toList hdata
  have hmark : '?' ∉ target.toList := fun h => (htarget '?' h).2 rfl
  -- The target holds no `?`, so a terminator would be in the data.
  have hcontent : occursIn ['?', '>'] (instructionText target data) = false := by
    rw [instructionText]
    split
    · have hnone : occursIn ['?', '>'] (target.toList ++ []) = occursIn ['?', '>'] [] :=
        occursIn_append_of_not_mem hmark
      rwa [List.append_nil] at hnone
    · rw [occursIn_append_of_not_mem hmark, occursIn_cons_of_ne (by decide)]
      exact hclosed
  have hhead : (instructionText target data).head? ≠ some '>' := by
    rw [instructionText]
    split
    · exact hopens
    · rwa [List.head?_append_of_ne_nil _ hne]
  rw [toList_leafText_instruction, List.cons_append, List.cons_append, List.append_assoc]
  refine Reads.item (fun position => Item.next_instruction position hcontent hhead rest) ?_
    (b.step_leaf _)
  rw [Item.event, instructionText,
    instructionValue_eq hne (fun c hc => (htarget c hc).1) htrim, String.ofList_toList,
    String.ofList_toList]

theorem reads_doctype (b : Building) {name : String} (hne : name ≠ "") (htrim : trimmed name = name)
    (hname : ∀ c ∈ name.toList, c ≠ '<' ∧ c ≠ '>') :
    Reads b ((leafText (.doctype name "" "")).toList ++ rest)
      (b.add [.node 0 (.doctype name "" "") []]) rest := by
  have hne : name.toList ≠ [] := fun h => hne (String.toList_injective h)
  have htrimmed : trim name.toList = name.toList := by
    rw [← String.toList_ofList (l := trim name.toList)]
    exact congrArg String.toList htrim
  have htext : (leafText (.doctype name "" "")).toList ++ rest =
      '<' :: '!' :: 'D' :: 'O' :: 'C' :: 'T' :: 'Y' :: 'P' :: 'E' :: ' ' ::
        (name.toList ++ '>' :: rest) := by
    simp [leafText, String.toList_append]
  rw [htext]
  refine Reads.item (fun position => Item.next_doctype position hne htrimmed hname rest) ?_
    (b.step_leaf _)
  rw [Item.event, htrimmed, String.ofList_toList]

/-! ## Elements -/

theorem reads_empty (b : Building) (h : Nameable e) :
    Reads b ((openingText e ++ "/>").toList ++ rest) (b.add [.node 0 (.element e) []]) rest := by
  rw [String.toList_append, toList_openingText, List.append_assoc, List.cons_append]
  refine Reads.item (fun position => Item.next_empty position h rest) ?_ (b.step_leaf _)
  rw [Item.event, element_tagText h]
  rfl

theorem reads_start (b : Building) (h : Nameable e) :
    Reads b ((openingText e ++ ">").toList ++ rest) ⟨⟨e, b.before⟩ :: b.path, []⟩ rest := by
  rw [String.toList_append, toList_openingText, List.append_assoc, List.cons_append]
  have hevent : (Item.start (tagText e)).event = .ok (.opens e) := by
    rw [Item.event, element_tagText h]
    rfl
  exact Reads.item (fun position => Item.next_start position h rest) hevent rfl

theorem reads_finish (b : Building) (h : Nameable e) (children : List Tree) :
    Reads (Building.add ⟨⟨e, b.before⟩ :: b.path, []⟩ children)
      (("</" ++ e.name.base ++ ">").toList ++ rest)
      (b.add [.node 0 (.element e) children]) rest := by
  have htext : ("</" ++ e.name.base ++ ">").toList ++ rest =
      '<' :: '/' :: (e.name.base.toList ++ '>' :: rest) := by
    simp [String.toList_append]
  rw [htext]
  refine Reads.item (fun position => Item.next_finish position h.name.2 rest) rfl ?_
  rw [String.ofList_toList]
  simp [Building.step, Building.add]

/-! ## Trees -/

/-- Trees that can be written and read back. -/
structure Legible (ts : List Tree) : Prop where
  values : ∀ t ∈ preorderAll ts, Regular t.value
  targets : ∀ t ∈ preorderAll ts, OpensInstruction t.value
  leaves : ∀ t ∈ preorderAll ts, t.children ≠ [] → t.value.isElement

theorem Legible.of_subset (h : Legible ts) (hus : preorderAll us ⊆ preorderAll ts) : Legible us where
  values t ht := h.values t (hus ht)
  targets t ht := h.targets t (hus ht)
  leaves t ht := h.leaves t (hus ht)

theorem Legible.below (h : Legible (.node i v ts :: us)) : Legible ts := by
  refine h.of_subset ?_
  intro t ht
  rw [Tree.preorderAll_cons, Tree.preorder_node]
  exact List.mem_append_left _ (List.mem_cons_of_mem _ ht)

theorem Legible.behind (h : Legible (.node i v ts :: us)) : Legible us := by
  refine h.of_subset ?_
  intro t ht
  rw [Tree.preorderAll_cons]
  exact List.mem_append_right _ ht

/-- Leaves are read as written, sections as their pieces. -/
theorem reads_leaf (b : Building) (hv : Regular v) (hopens : OpensInstruction v)
    (helement : v.isElement = false) (htext : ∀ t, v ≠ .text t) :
    Reads b ((leafText v).toList ++ rest) (b.add ((pieces v).map fun piece => .node 0 piece []))
      rest := by
  -- A comment may look like a section without being meant as one; both are written alike.
  have hsection : ∀ c content, cdataContent? c = some content →
      Reads b ((leafText (.comment c)).toList ++ rest)
        (b.add ((pieces (.comment c)).map fun piece => .node 0 piece [])) rest := by
    intro c content hc
    rw [pieces_of_some hc, List.map_map, leafText, hc]
    exact reads_sections (occursIn_of_mem_cdataSections content.toList) b
  cases hv with
  | element h => cases helement
  | text t => exact absurd rfl (htext t)
  | «section» content => exact hsection _ content (cdataContent?_cdataComment content)
  | @comment c h =>
    cases hc : cdataContent? c with
    | some content => exact hsection c content hc
    | none =>
      rw [pieces_of_none hc, leafText, hc]
      exact reads_comment b h
  | instruction hne htarget hdata hclosed =>
    exact reads_instruction b hne htarget hdata hclosed (hopens _ _ rfl)
  | doctype hne htrim hname => exact reads_doctype b hne htrim hname

theorem write_leaf (hv : Regular v) (helement : v.isElement = false) (i : NodeId)
    (cs : List Tree) : write (.node i v cs) = leafText v := by
  cases hv with
  | element h => cases helement
  | _ => rfl

theorem exists_leafText_comment (c : String) :
    ∃ more, (leafText (.comment c)).toList = '<' :: more := by
  rw [leafText]
  split
  · next content _ =>
    cases hpieces : cdataSections content.toList with
    | nil => exact absurd hpieces (cdataSections_ne_nil _)
    | cons piece pieces =>
      rw [List.map_cons, String.join_cons]
      simp only [String.toList_append]
      exact ⟨_, rfl⟩
  · simp only [String.toList_append]
    exact ⟨_, rfl⟩

/-- What is written for a node other than a text begins with a tag. -/
theorem exists_write (hv : Regular v) (htext : ∀ t, v ≠ .text t) (i : NodeId) (cs : List Tree) :
    ∃ more, (write (.node i v cs)).toList = '<' :: more := by
  cases hv with
  | @element e h =>
    rw [write]
    split <;> simp only [String.toList_append, toList_openingText, List.cons_append] <;>
      exact ⟨_, rfl⟩
  | text t => exact absurd rfl (htext t)
  | «section» content => exact exists_leafText_comment _
  | comment h => exact exists_leafText_comment _
  | instruction hne htarget hdata hclosed => exact ⟨_, toList_leafText_instruction _ _⟩
  | doctype hne htrim hname =>
    rw [write, leafText]
    · simp only [String.toList_append]
      exact ⟨_, rfl⟩
    all_goals simp

/-- What is written for the trees is read as their normal form, in any context. -/
def ReadBack (ts : List Tree) : Prop :=
  ∀ (b : Building) (rest : List Char), (∀ d ∈ rest.head?, d = '<') →
    Reads b ((writeAll ts).toList ++ rest) (b.add (renumberAll (fun _ => 0) (normalizeAll ts))) rest

theorem reads_element (b : Building) (he : Nameable e) (i : NodeId) {below : List Tree}
    (hbelow : ReadBack below) :
    Reads b ((write (.node i (.element e) below)).toList ++ rest)
      (b.add [.node 0 (.element e) (renumberAll (fun _ => 0) (normalizeAll below))]) rest := by
  by_cases hempty : below = []
  · subst hempty
    rw [write, if_pos List.isEmpty_nil, normalizeAll]
    exact reads_empty b he
  · have htext : (write (.node i (.element e) below)).toList ++ rest =
        (openingText e ++ ">").toList ++ ((writeAll below).toList ++
          (("</" ++ e.name.base ++ ">").toList ++ rest)) := by
      rw [write, if_neg (by simpa using hempty)]
      simp only [String.toList_append, List.append_assoc]
    have hend : ∀ d ∈ (("</" ++ e.name.base ++ ">").toList ++ rest).head?, d = '<' := by
      simp [String.toList_append]
    rw [htext]
    exact (reads_start b he).trans ((hbelow _ _ hend).trans (reads_finish b he _))

/-- A node other than a text is read as its pieces, if what is below it is read. -/
theorem reads_write {below : List Tree} (h : Legible (.node i v below :: ts))
    (htext : ∀ t, v ≠ .text t) (b : Building) (hbelow : ReadBack below) :
    Reads b ((write (.node i v below)).toList ++ rest)
      (b.add ((pieces v).map fun piece =>
        .node 0 piece (renumberAll (fun _ => 0) (normalizeAll below)))) rest := by
  have hv : Regular v := h.values _ List.mem_cons_self
  cases helement : v.isElement with
  | true =>
    cases hv with
    | element he => exact reads_element b he i hbelow
    | _ => cases helement
  | false =>
    -- Only an element may have children, so nothing is lost.
    have hnone : below = [] := by
      by_cases hempty : below = []
      · exact hempty
      · exact absurd (h.leaves _ List.mem_cons_self hempty) (by simp [helement])
    subst hnone
    rw [write_leaf hv helement, normalizeAll]
    exact reads_leaf b hv (h.targets _ List.mem_cons_self) helement htext

theorem noTextFirst_pieces (htext : ∀ t, v ≠ .text t) (i : NodeId) (cs ts : List Tree) :
    NoTextFirst ((pieces v).map (fun piece => .node i piece cs) ++ ts) := by
  cases hpieces : pieces v with
  | nil => exact absurd hpieces (pieces_ne_nil v)
  | cons piece more =>
    intro t ht text hvalue
    obtain rfl := Option.some.inj ht
    exact pieces_ne_text htext piece (hpieces ▸ List.mem_cons_self) text hvalue

/-- **Reading what is written for trees adds their normal form**, behind a text that is still pending
and before a tag. -/
theorem reads_writeAll (h : Legible ts) (hrest : ∀ d ∈ rest.head?, d = '<') (pending : String)
    (b : Building) :
    Reads b (pending.toList.flatMap escapeText ++ ((writeAll ts).toList ++ rest))
      (b.add (joinText 0 pending (renumberAll (fun _ => 0) (normalizeAll ts)))) rest := by
  induction ts using listInduction generalizing pending b rest with
  | nil =>
    rw [writeAll, normalizeAll]
    exact reads_text b pending hrest
  | cons i v below ts ihbelow ihts =>
    have hv : Regular v := h.values _ List.mem_cons_self
    by_cases htext : ∃ t, v = .text t
    · -- A text stays pending together with the one before it.
      obtain ⟨t, rfl⟩ := htext
      have hlater := ihts h.behind hrest (pending ++ t) b
      have hwrite : (writeAll (.node i (.text t) below :: ts)).toList =
          t.toList.flatMap escapeText ++ (writeAll ts).toList := by
        rw [writeAll, String.toList_append, write_leaf hv rfl, leafText, escapedText,
          String.toList_ofList]
      rw [normalizeAll_text, renumberAll_joinText, joinText_joinText, hwrite, List.append_assoc]
      rwa [String.toList_append, List.flatMap_append, List.append_assoc] at hlater
    · -- The pending text ends here, the node is read, and nothing is pending behind it.
      have htext : ∀ t, v ≠ .text t := fun t ht => htext ⟨t, ht⟩
      obtain ⟨more, hmore⟩ := exists_write hv htext i below
      rw [normalizeAll_cons htext, Tree.renumberAll_append, renumberAll_pieces,
        joinText_of_noTextFirst (noTextFirst_pieces htext _ _ _), writeAll, String.toList_append,
        List.append_assoc]
      have hbegin : ∀ d ∈ ((write (.node i v below)).toList ++ ((writeAll ts).toList ++ rest)).head?,
          d = '<' := by
        rw [hmore]
        simp
      have hpending := reads_text b pending hbegin
      have hbelow : ReadBack below := by
        intro b rest hrest
        simpa [joinText_empty] using ihbelow h.below hrest "" b
      have hnode : Reads (b.add (joinText 0 pending [])) _ _ ((writeAll ts).toList ++ rest) :=
        reads_write h htext _ hbelow
      have hlater := ihts h.behind hrest ""
        ((b.add (joinText 0 pending [])).add ((pieces v).map fun piece =>
          .node 0 piece (renumberAll (fun _ => 0) (normalizeAll below))))
      rw [joinText_empty, Building.add_add, Building.add_add, List.append_assoc,
        String.toList_empty, List.flatMap_nil, List.nil_append] at hlater
      rw [Building.add_add] at hnode
      exact hpending.trans (hnode.trans hlater)

/-! ## Documents -/

theorem RegularDocument.legible {d : Document} (h : RegularDocument d)
    (htargets : ∀ t ∈ d.forest.document.descendants, OpensInstruction t.value) :
    Legible d.forest.document.children where
  values := h.values
  targets := htargets
  leaves := h.leaves

theorem bare_document_ofTrees (ts : List Tree) :
    (Forest.ofTrees ts).document.bare = .node 0 .document (renumberAll (fun _ => 0) ts) := by
  rw [Forest.document_ofTrees, Tree.bare, Tree.renumber, Tree.bareAll_relabelAll]

theorem readFrom_nil (ts : List Tree) (position : Nat) :
    readFrom (Building.empty.add ts) position [] = .ok ts := by
  have hfinish : (Building.empty.add ts).finish = .ok ts := by
    rw [Building.add, Building.empty, Building.finish, List.append_nil, List.reverse_reverse]
  rw [readFrom, hfinish]

/-- Written trees are read as their normal form, without numbers. -/
theorem read_writeAll (h : Legible ts) (hmark : (writeAll ts).toList.head? ≠ some '\uFEFF') :
    Xml.read (writeAll ts) =
      .ok (Forest.ofTrees (renumberAll (fun _ => 0) (normalizeAll ts))) := by
  have hrun : Reads .empty ("".toList.flatMap escapeText ++ ((writeAll ts).toList ++ []))
      (Building.empty.add (joinText 0 "" (renumberAll (fun _ => 0) (normalizeAll ts)))) [] :=
    reads_writeAll h (by simp) "" .empty
  rw [joinText_empty, String.toList_empty, List.flatMap_nil, List.nil_append,
    List.append_nil] at hrun
  obtain ⟨behind, hrun⟩ := hrun 0
  rw [readFrom_nil] at hrun
  rw [Xml.read]
  split
  · next cs hcs =>
    rw [hcs] at hmark
    exact absurd rfl hmark
  · rw [hrun]
    rfl

/-- **A written XML document is read back as its normal form.** -/
theorem read_write {d : Document} (h : RegularDocument d)
    (htargets : ∀ t ∈ d.forest.document.descendants, OpensInstruction t.value) :
    ∃ d', Document.read d.write .xml = .ok d' ∧ d'.mode = .xml ∧ d'.forest.detached = [] ∧
      d'.forest.document.bare = (normalize d.forest.document).bare := by
  have hlegible := h.legible htargets
  obtain ⟨i, v, children, hdocument⟩ : ∃ i v cs, d.forest.document = .node i v cs := by
    cases d.forest.document with
    | node i v cs => exact ⟨i, v, cs, rfl⟩
  have hroot := h.root
  rw [hdocument] at hlegible hroot ⊢
  rw [Tree.children_node] at hlegible
  obtain rfl : v = .document := hroot
  have hwrite : d.write = writeAll children := by
    rw [Document.write, h.mode, hdocument]
    dsimp only
    rw [write]
  have hmark := h.mark
  rw [hwrite] at hmark ⊢
  refine ⟨_, by rw [Document.read, read_writeAll hlegible hmark]; rfl, rfl, rfl, ?_⟩
  rw [bare_document_ofTrees, Tree.renumberAll_renumberAll]
  rfl

/-- A document with each kind of node: markup characters in an attribute and in texts, one of them
empty, a section with a terminator and an element with nothing but an empty text. -/
def feed : Document :=
  ⟨.xml, Forest.ofTrees [
    .node 0 (.instruction "xml" "version=\"1.0\"") [],
    .node 0 (.doctype "feed" "" "") [],
    .node 0 (.element ⟨.plain "feed", [⟨.plain "title", "<\"&'>"⟩, ⟨.plain "x:id", ""⟩]⟩) [
      .node 0 (.text "1 < 2") [], .node 0 (.text "") [], .node 0 (.text " & 3") [],
      .node 0 (.comment (cdataComment "a]]>b")) [],
      .node 0 (.comment " - note -") [],
      .node 0 (.element ⟨.plain "link", []⟩) [.node 0 (.text "") []]]]⟩

theorem read_write_feed :
    RegularDocument feed ∧ (∀ t ∈ feed.forest.document.descendants, OpensInstruction t.value) ∧
      ∃ d', Document.read feed.write .xml = .ok d' ∧ d'.mode = .xml ∧ d'.forest.detached = [] ∧
        d'.forest.document.bare = .node 0 .document [
          .node 0 (.instruction "xml" "version=\"1.0\"") [],
          .node 0 (.doctype "feed" "" "") [],
          .node 0 (.element ⟨.plain "feed", [⟨.plain "title", "<\"&'>"⟩, ⟨.plain "x:id", ""⟩]⟩) [
            .node 0 (.text "1 < 2 & 3") [],
            .node 0 (.comment (cdataComment "a]]")) [], .node 0 (.comment (cdataComment ">b")) [],
            .node 0 (.comment " - note -") [],
            .node 0 (.element ⟨.plain "link", []⟩) []]] := by
  have hvalues : feed.forest.document.descendants.map Tree.value = [
      .instruction "xml" "version=\"1.0\"", .doctype "feed" "" "",
      .element ⟨.plain "feed", [⟨.plain "title", "<\"&'>"⟩, ⟨.plain "x:id", ""⟩]⟩,
      .text "1 < 2", .text "", .text " & 3", .comment (cdataComment "a]]>b"),
      .comment " - note -", .element ⟨.plain "link", []⟩, .text ""] := rfl
  have hregular : ∀ v ∈ feed.forest.document.descendants.map Tree.value, Regular v := by
    rw [hvalues]
    simp only [List.forall_mem_cons]
    refine ⟨.instruction (by decide) (by simp; decide) (by decide +kernel) (by decide),
      .doctype (by decide) (by decide +kernel) (by simp),
      .element ⟨⟨rfl, by decide⟩, ?_, by decide⟩, .text _, .text _, .text _, .section _,
      .comment (by decide), .element ⟨⟨rfl, by decide⟩, fun a ha => (nomatch ha), by decide⟩,
      .text _, fun v hv => nomatch hv⟩
    simp only [List.forall_mem_cons]
    exact ⟨⟨rfl, by decide⟩, ⟨rfl, by decide⟩, fun a ha => nomatch ha⟩
  have h : RegularDocument feed := by
    refine ⟨rfl, rfl, fun t ht => hregular _ (List.mem_map_of_mem ht), ?_, ?_⟩
    · have hleaves : ∀ t ∈ feed.forest.document.descendants,
          t.children.isEmpty = false → t.value.isElement = true := by decide +kernel
      exact fun t ht hchildren => hleaves t ht (List.isEmpty_eq_false_iff.mpr hchildren)
    · decide +kernel
  have hopens : ∀ v ∈ feed.forest.document.descendants.map Tree.value, OpensInstruction v := by
    rw [hvalues]
    simp only [List.forall_mem_cons]
    refine ⟨?_, ?_, ?_, ?_, ?_, ?_, ?_, ?_, ?_, ?_, fun v hv => nomatch hv⟩ <;>
      rintro target data ⟨⟩
    decide
  have htargets : ∀ t ∈ feed.forest.document.descendants, OpensInstruction t.value :=
    fun t ht => hopens _ (List.mem_map_of_mem ht)
  refine ⟨h, htargets, ?_⟩
  obtain ⟨d', hread, hmode, hdetached, hbare⟩ := read_write h htargets
  refine ⟨d', hread, hmode, hdetached, hbare.trans ?_⟩
  have hnote : cdataContent? " - note -" = none := by decide +kernel
  simp [feed, Tree.relabelAll, Tree.relabel, normalize, Tree.withChildren,
    normalizeAll, pieces, joinText, cdataContent?_cdataComment, hnote, cdataSections, Tree.bare,
    Tree.renumber, renumberAll]

/-- A document with one instruction whose target begins with `>`: what is written for it looks like
an instruction that ends where it begins. -/
def angledInstruction : Document :=
  ⟨.xml, Forest.ofTrees [.node 0 (.instruction ">x" "") []]⟩

theorem not_read_write_of_angle :
    RegularDocument angledInstruction ∧
      ¬ ∃ d', Document.read angledInstruction.write .xml = .ok d' := by
  have hwrite : angledInstruction.write = "<?>x?>" := by decide +kernel
  have hread : Document.read "<?>x?>" .xml = .error ⟨0, .openInstruction⟩ := by
    -- The terminator stands where the content should begin.
    have hnext : Item.next 0 '<' ['?', '>', 'x', '?', '>'] = .error ⟨0, .openInstruction⟩ := rfl
    have hrun : readFrom .empty 0 ['<', '?', '>', 'x', '?', '>'] =
        .error ⟨0, .openInstruction⟩ := by
      rw [readFrom]
      split
      · next fault h =>
        obtain rfl := Except.error.inj (hnext.symm.trans h)
        rfl
      · next h => cases hnext.symm.trans h
    show ((readFrom .empty 0 ['<', '?', '>', 'x', '?', '>']).map Forest.ofTrees).map _ = _
    rw [hrun]
    rfl
  have hnodes : angledInstruction.forest.document.descendants =
      [.node 1 (.instruction ">x" "") []] := rfl
  refine ⟨⟨rfl, rfl, ?_, ?_, ?_⟩, ?_⟩
  · rw [hnodes]
    intro t ht
    obtain rfl := List.mem_singleton.mp ht
    exact .instruction (by decide) (by simp; decide) (by decide) (by decide)
  · rw [hnodes]
    intro t ht hchildren
    obtain rfl := List.mem_singleton.mp ht
    exact absurd rfl hchildren
  · rw [hwrite]
    decide
  · rw [hwrite, hread]
    rintro ⟨d', ⟨⟩⟩

end Stencil.Xml

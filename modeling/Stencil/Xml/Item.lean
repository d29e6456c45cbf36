import Stencil.Text.Blank
import Stencil.Text.Search
import Stencil.Xml.Fault

/-!
# The items of an XML text

A template is a sequence of items: runs of text, tags, comments, CDATA sections, processing
instructions and document type declarations. `Item.next` cuts one item off and returns what
follows, which is always shorter. Items keep their content as written; references and attributes
are not looked at yet. The keyword `DOCTYPE` is read in any case, `CDATA` in capitals alone.
-/

namespace Stencil.Xml

/-- One piece of an XML text. The content of a tag is what stands between its angle brackets,
without the slash. -/
inductive Item where
  | text (content : List Char)
  | start (content : List Char)
  | empty (content : List Char)
  | finish (name : List Char)
  | comment (content : List Char)
  | section (content : List Char)
  | instruction (content : List Char)
  | doctype (content : List Char)
  deriving Repr, DecidableEq

/-- The quote that is open behind a character, given the one that is open before it. -/
def quoteAfter (quote : Option Char) (c : Char) : Option Char :=
  match quote with
  | some q => if c = q then none else some q
  | none => if c = '"' ∨ c = '\'' then some c else none

/-- The part before the `>` that ends a tag and the part behind it. A `>` between quotes does not
end the tag; `quote` is the quote that is open. -/
def splitTag? (quote : Option Char) : List Char → Option (List Char × List Char)
  | [] => none
  | c :: cs =>
    if quote = none ∧ c = '>' then some ([], cs)
    else (splitTag? (quoteAfter quote c) cs).map fun (inner, rest) => (c :: inner, rest)

/-- The part before the `>` that ends a declaration and the part behind it; `depth` more pairs of
angle brackets are open. -/
def splitDeclaration? (depth : Nat) : List Char → Option (List Char × List Char)
  | [] => none
  | c :: cs =>
    if c = '>' ∧ depth = 0 then some ([], cs)
    else
      let depth' := if c = '<' then depth + 1 else if c = '>' then depth - 1 else depth
      (splitDeclaration? depth' cs).map fun (inner, rest) => (c :: inner, rest)

theorem length_lt_of_splitTag? {quote : Option Char} {cs inner rest : List Char}
    (h : splitTag? quote cs = some (inner, rest)) : rest.length < cs.length := by
  induction cs generalizing quote inner rest with
  | nil => simp [splitTag?] at h
  | cons c cs ih =>
    rw [splitTag?] at h
    split at h
    · simp only [Option.some.injEq, Prod.mk.injEq] at h
      simp [← h.2]
    · obtain ⟨⟨before, behind⟩, hp, he⟩ := Option.map_eq_some_iff.mp h
      simp only [Prod.mk.injEq] at he
      have := ih hp
      simp only [List.length_cons, ← he.2]
      omega

theorem length_lt_of_splitDeclaration? {depth : Nat} {cs inner rest : List Char}
    (h : splitDeclaration? depth cs = some (inner, rest)) : rest.length < cs.length := by
  induction cs generalizing depth inner rest with
  | nil => simp [splitDeclaration?] at h
  | cons c cs ih =>
    rw [splitDeclaration?] at h
    split at h
    · simp only [Option.some.injEq, Prod.mk.injEq] at h
      simp [← h.2]
    · obtain ⟨⟨before, behind⟩, hp, he⟩ := Option.map_eq_some_iff.mp h
      simp only [Prod.mk.injEq] at he
      have := ih hp
      simp only [List.length_cons, ← he.2]
      omega

/-- What follows the keyword of a document type declaration, which is read in any case. -/
def behindDoctype? (cs : List Char) : Option (List Char) :=
  let keyword := ['D', 'O', 'C', 'T', 'Y', 'P', 'E']
  if (cs.take keyword.length).map Text.upperChar = keyword then some (cs.drop keyword.length)
  else none

namespace Item
open Text

/-! ## Cutting

Each function gets the text behind the characters that select it and the offset of the `<`. -/

/-- What starts with `<![`. -/
def nextSection (position : Nat) (cs : List Char) : Except Fault (Item × List Char) :=
  match (dropStem? ['C', 'D', 'A', 'T', 'A', '['] cs).bind (splitFirst? [']', ']', '>']) with
  | some (content, rest) => .ok (.section content, rest)
  | none => .error ⟨position, .openSection⟩

/-- What starts with `<!-`. -/
def nextComment (position : Nat) (cs : List Char) : Except Fault (Item × List Char) :=
  match (dropStem? ['-'] cs).bind (splitFirst? ['-', '-', '>']) with
  | some (content, rest) => .ok (.comment content, rest)
  | none => .error ⟨position, .openComment⟩

/-- What starts with `<!D` or `<!d`; the letter is in the text. -/
def nextDoctype (position : Nat) (cs : List Char) : Except Fault (Item × List Char) :=
  match splitDeclaration? 0 cs with
  | none => .error ⟨position, .openDoctype⟩
  | some (inner, rest) =>
    match behindDoctype? inner with
    | none => .error ⟨position, .openDoctype⟩
    | some behind =>
      let content := behind.dropWhile isXmlBlank
      if content.isEmpty then .error ⟨position + 2 + byteLength inner, .unnamedDoctype⟩
      else .ok (.doctype content, rest)

/-- What starts with `<!`. -/
def nextDeclaration (position : Nat) : List Char → Except Fault (Item × List Char)
  | '[' :: cs => nextSection position cs
  | '-' :: cs => nextComment position cs
  | 'D' :: cs => nextDoctype position ('D' :: cs)
  | 'd' :: cs => nextDoctype position ('d' :: cs)
  | _ => .error ⟨position, .unknownMarkup⟩

/-- What starts with `<?`. The two marks of an instruction cannot share one question mark. -/
def nextInstruction (position : Nat) (cs : List Char) : Except Fault (Item × List Char) :=
  if cs.head? = some '>' then .error ⟨position, .openInstruction⟩
  else
    match splitFirst? ['?', '>'] cs with
    | some (content, rest) => .ok (.instruction content, rest)
    | none => .error ⟨position, .openInstruction⟩

/-- What starts with `</`. Blanks behind the name are dropped unless there is nothing else. -/
def nextEnd (position : Nat) (cs : List Char) : Except Fault (Item × List Char) :=
  match splitTag? none cs with
  | none => .error ⟨position, .openTag⟩
  | some (content, rest) =>
    let name := dropWhileEnd isXmlBlank content
    .ok (.finish (if name.isEmpty then content else name), rest)

/-- What starts with any other character behind the `<`. -/
def nextStart (position : Nat) (cs : List Char) : Except Fault (Item × List Char) :=
  match splitTag? none cs with
  | none => .error ⟨position, .openTag⟩
  | some (content, rest) =>
    match dropTail? ['/'] content with
    | some content => .ok (.empty content, rest)
    | none => .ok (.start content, rest)

/-- What starts with `<`. -/
def nextMarkup (position : Nat) : List Char → Except Fault (Item × List Char)
  | '!' :: cs => nextDeclaration position cs
  | '?' :: cs => nextInstruction position cs
  | '/' :: cs => nextEnd position cs
  | cs => nextStart position cs

/-- Cut the first item off the text `c :: cs`. -/
def next (position : Nat) (c : Char) (cs : List Char) : Except Fault (Item × List Char) :=
  if c = '<' then nextMarkup position cs
  else .ok (.text (c :: cs.takeWhile (· != '<')), cs.dropWhile (· != '<'))

/-! ## The rest is shorter -/

variable {position : Nat} {cs rest : List Char} {item : Item}

theorem length_le_of_bind_splitFirst? {stem needle content : List Char}
    (h : (dropStem? stem cs).bind (splitFirst? needle) = some (content, rest)) :
    rest.length ≤ cs.length := by
  obtain ⟨inside, hi, hs⟩ := Option.bind_eq_some_iff.mp h
  refine Nat.le_trans (length_le_of_splitFirst? hs) ?_
  rw [dropStem?_eq_some_iff.mp hi, List.length_append]
  omega

theorem length_le_of_nextSection (h : nextSection position cs = .ok (item, rest)) :
    rest.length ≤ cs.length := by
  rw [nextSection] at h
  split at h
  · rename_i hs
    simp only [Except.ok.injEq, Prod.mk.injEq] at h
    exact h.2 ▸ length_le_of_bind_splitFirst? hs
  · simp at h

theorem length_le_of_nextComment (h : nextComment position cs = .ok (item, rest)) :
    rest.length ≤ cs.length := by
  rw [nextComment] at h
  split at h
  · rename_i hs
    simp only [Except.ok.injEq, Prod.mk.injEq] at h
    exact h.2 ▸ length_le_of_bind_splitFirst? hs
  · simp at h

theorem length_le_of_nextDoctype (h : nextDoctype position cs = .ok (item, rest)) :
    rest.length ≤ cs.length := by
  rw [nextDoctype] at h
  split at h
  · simp at h
  · rename_i hs
    have := length_lt_of_splitDeclaration? hs
    split at h
    · simp at h
    · dsimp only at h
      split at h
      · simp at h
      · simp only [Except.ok.injEq, Prod.mk.injEq] at h
        rw [← h.2]
        omega

theorem length_le_of_nextDeclaration (h : nextDeclaration position cs = .ok (item, rest)) :
    rest.length ≤ cs.length := by
  unfold nextDeclaration at h
  split at h
  · have := length_le_of_nextSection h; simp only [List.length_cons]; omega
  · have := length_le_of_nextComment h; simp only [List.length_cons]; omega
  · exact length_le_of_nextDoctype h
  · exact length_le_of_nextDoctype h
  · simp at h

theorem length_le_of_nextInstruction (h : nextInstruction position cs = .ok (item, rest)) :
    rest.length ≤ cs.length := by
  rw [nextInstruction] at h
  split at h
  · simp at h
  · split at h
    · rename_i hs
      simp only [Except.ok.injEq, Prod.mk.injEq] at h
      exact h.2 ▸ length_le_of_splitFirst? hs
    · simp at h

theorem length_le_of_nextEnd (h : nextEnd position cs = .ok (item, rest)) :
    rest.length ≤ cs.length := by
  rw [nextEnd] at h
  split at h
  · simp at h
  · rename_i hs
    simp only [Except.ok.injEq, Prod.mk.injEq] at h
    exact h.2 ▸ Nat.le_of_lt (length_lt_of_splitTag? hs)

theorem length_le_of_nextStart (h : nextStart position cs = .ok (item, rest)) :
    rest.length ≤ cs.length := by
  rw [nextStart] at h
  split at h
  · simp at h
  · rename_i hs
    have := Nat.le_of_lt (length_lt_of_splitTag? hs)
    split at h <;>
    · simp only [Except.ok.injEq, Prod.mk.injEq] at h
      exact h.2 ▸ this

theorem length_le_of_nextMarkup (h : nextMarkup position cs = .ok (item, rest)) :
    rest.length ≤ cs.length := by
  unfold nextMarkup at h
  split at h
  · have := length_le_of_nextDeclaration h; simp only [List.length_cons]; omega
  · have := length_le_of_nextInstruction h; simp only [List.length_cons]; omega
  · have := length_le_of_nextEnd h; simp only [List.length_cons]; omega
  · exact length_le_of_nextStart h

/-- Cutting an item off leaves less. -/
theorem length_lt_of_next {c : Char} (h : next position c cs = .ok (item, rest)) :
    rest.length < (c :: cs).length := by
  rw [next] at h
  split at h
  · have := length_le_of_nextMarkup h
    simp only [List.length_cons]
    omega
  · simp only [Except.ok.injEq, Prod.mk.injEq] at h
    have := (List.dropWhile_sublist (· != '<') (l := cs)).length_le
    rw [← h.2, List.length_cons]
    omega

end Item

end Stencil.Xml

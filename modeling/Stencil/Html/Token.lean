import Stencil.Text.Blank
import Stencil.Html.NamedCharacters

/-!
# HTML tokens

`Token.next?` takes the next piece off the front of an HTML text and gives its tokens: mostly one,
none for a tag without a name, and several for a CDATA section. What counts as markup depends on the
content that is being read: ordinary content, the text of an element such as `title` or `style`,
which ends only at the end tag of that element, a script, or plain text to the end. In foreign
content (`svg`, `math`) a CDATA section is text; elsewhere it is a comment.

Runs of text are told apart by whether they are blank, since most places of a document treat blank
text differently. A NUL character in ordinary content and in a CDATA section is a token of its own;
everywhere else it becomes U+FFFD.
-/

namespace Stencil.Html

/-- A tag: its name and attributes in lower case, the first of equally named attributes alone. -/
structure Tag where
  name : String
  attributes : List (String × String)
  selfClosing : Bool
  deriving Repr, DecidableEq, Inhabited

/-- A document type declaration; `broken` if it was not written properly. -/
structure Doctype where
  name : Option String
  publicId : Option String
  systemId : Option String
  broken : Bool
  deriving Repr, DecidableEq, Inhabited

/-- A token of an HTML text; `eof` stands for its end. -/
inductive Token where
  | text (blank : Bool) (chars : List Char)
  | nul
  | startTag (tag : Tag)
  | endTag (name : String)
  | comment (text : String)
  | doctype (doctype : Doctype)
  | eof
  deriving Repr, DecidableEq, Inhabited

/-- What is being read: ordinary content; the text of the element `name` with or without character
references; a script; or plain text up to the end. -/
inductive Content where
  | ordinary
  | references (name : String)
  | raw (name : String)
  | script
  | plain
  deriving Repr, DecidableEq, Inhabited

/-- The replacement character. -/
def replacement : Char := '\ufffd'

/-- A NUL becomes the replacement character. -/
def noNul (c : Char) : Char := if c.toNat = 0 then replacement else c

/-- The byte order mark, which says nothing where it stands in front of a text. -/
def byteOrderMark : Char := '\ufeff'

/-- Line ends become single line feeds, and a leading byte order mark is dropped. -/
def normalizeInput (cs : List Char) : List Char :=
  match cs with
  | c :: rest => if c = byteOrderMark then lines rest else lines (c :: rest)
  | [] => []
where
  /-- A carriage return, with the line feed behind it if there is one, becomes a line feed. -/
  lines : List Char → List Char
    | [] => []
    | '\r' :: '\n' :: rest => '\n' :: lines rest
    | '\r' :: rest => '\n' :: lines rest
    | c :: rest => c :: lines rest

/-! ## Character references -/

/-- The characters that the numbers `0x80` to `0x9F` stand for, zero where it is the number. -/
def c1Characters : List Nat :=
  [0x20AC, 0, 0x201A, 0x0192, 0x201E, 0x2026, 0x2020, 0x2021, 0x02C6, 0x2030, 0x0160, 0x2039,
    0x0152, 0, 0x017D, 0, 0, 0x2018, 0x2019, 0x201C, 0x201D, 0x2022, 0x2013, 0x2014, 0x02DC,
    0x2122, 0x0161, 0x203A, 0x0153, 0, 0x017E, 0x0178]

/-- The character that a numeric reference stands for. -/
def numberedCharacter (n : Nat) : Char :=
  if n = 0 ∨ 0x10FFFF < n ∨ (0xD800 ≤ n ∧ n ≤ 0xDFFF) then replacement
  else if 0x80 ≤ n ∧ n ≤ 0x9F then
    match c1Characters[n - 0x80]? with
    | some 0 => Char.ofNat n
    | some m => Char.ofNat m
    | none => Char.ofNat n
  else Char.ofNat n

/-- Drop a semicolon at the front. -/
def dropSemicolon : List Char → List Char
  | ';' :: rest => rest
  | cs => cs

/-- A numeric reference behind `&#`. -/
def numericReference? (cs : List Char) : Option (List Char × List Char) :=
  let hex := match cs with
    | 'x' :: _ => true
    | 'X' :: _ => true
    | _ => false
  let body := if hex then cs.drop 1 else cs
  let digit := if hex then Text.isHexDigit else Text.isDigit
  let digits := body.takeWhile digit
  if digits.isEmpty then none
  else
    let n := if hex then Text.hexadecimalValue digits else Text.decimalValue digits
    some ([numberedCharacter n], dropSemicolon (body.dropWhile digit))

/-- What a text behind an ampersand begins with: the characters of a reference, or the ampersand
itself. In an attribute value an old name without semicolon is no reference if a letter, a digit or
an equals sign follows it. -/
def reference (inAttribute : Bool) (cs : List Char) : List Char × List Char :=
  match cs with
  | '#' :: rest => (numericReference? rest).getD (['&'], cs)
  | c :: _ =>
    if !(Text.isLetter c || Text.isDigit c) then (['&'], cs)
    else
      match NamedCharacter.longest? cs with
      | none => (['&'], cs)
      | some (chars, closed, rest) =>
        let joined := match rest with
          | d :: _ => d == '=' || Text.isLetter d || Text.isDigit d
          | [] => false
        if inAttribute && !closed && joined then (['&'], cs) else (chars, rest)
  | [] => (['&'], [])

/-- A text with its character references replaced and without NUL characters. -/
def decodeText : (fuel : Nat) → List Char → List Char
  | 0, _ => []
  | _ + 1, [] => []
  | fuel + 1, '&' :: cs =>
    let (chars, rest) := reference false cs
    chars ++ decodeText fuel rest
  | fuel + 1, c :: cs => noNul c :: decodeText fuel cs

/-! ## Tags -/

/-- Blanks, the slash and the closing angle bracket end a tag name. -/
def endsTagName (c : Char) : Bool := Text.isMarkupBlank c || c == '/' || c == '>'

/-- The same and the equals sign end an attribute name. -/
def endsAttributeName (c : Char) : Bool := endsTagName c || c == '='

/-- A name as it is kept: letters in lower case, no NUL. -/
def nameText (cs : List Char) : String :=
  String.ofList (cs.map fun c => noNul (Text.lowerChar c))

/-- An attribute value up to the first character that ends it, which stays. -/
def attributeValue (ends : Char → Bool) : (fuel : Nat) → (soFar : List Char) → List Char →
    List Char × List Char
  | 0, soFar, cs => (soFar.reverse, cs)
  | _ + 1, soFar, [] => (soFar.reverse, [])
  | fuel + 1, soFar, c :: cs =>
    if ends c then (soFar.reverse, c :: cs)
    else if c = '&' then
      let (chars, rest) := reference true cs
      attributeValue ends fuel (chars.reverse ++ soFar) rest
    else attributeValue ends fuel (noNul c :: soFar) cs

/-- The value behind an equals sign, and the text behind it. Nothing is given if the text ends
inside quotes. -/
def valueAfterEquals (cs : List Char) : Option (List Char × List Char) :=
  let quotedBy (quote : Char) (rest : List Char) : Option (List Char × List Char) :=
    match attributeValue (· == quote) (rest.length + 1) [] rest with
    | (_, []) => none
    | (value, _ :: after) => some (value, after)
  match cs.dropWhile Text.isMarkupBlank with
  | '"' :: rest => quotedBy '"' rest
  | '\'' :: rest => quotedBy '\'' rest
  | rest =>
    some (attributeValue (fun c => Text.isMarkupBlank c || c == '>') (rest.length + 1) [] rest)

/-- Add an attribute unless one of its name is there already. -/
def addAttribute (soFar : List (String × String)) (name value : String) :
    List (String × String) :=
  if soFar.any (·.1 == name) then soFar else (name, value) :: soFar

/-- The attributes of a tag up to and including its closing angle bracket, whether a slash stands
before it, and the text behind. Nothing is given if the text ends inside the tag. -/
def tagEnd : (fuel : Nat) → (soFar : List (String × String)) → List Char →
    Option (List (String × String) × Bool × List Char)
  | 0, _, _ => none
  | fuel + 1, soFar, cs =>
    match cs.dropWhile Text.isMarkupBlank with
    | [] => none
    | '>' :: rest => some (soFar.reverse, false, rest)
    | '/' :: rest =>
      match rest with
      | '>' :: after => some (soFar.reverse, true, after)
      | _ => tagEnd fuel soFar rest
    | c :: rest =>
      let name := nameText (c :: rest.takeWhile fun d => !endsAttributeName d)
      let after := (rest.dropWhile fun d => !endsAttributeName d).dropWhile Text.isMarkupBlank
      match after with
      | '=' :: value =>
        match valueAfterEquals value with
        | none => none
        | some (chars, left) =>
          tagEnd fuel (addAttribute soFar name (String.ofList chars)) left
      | _ => tagEnd fuel (addAttribute soFar name "") after

/-- A tag from its name on. -/
def tagBody (cs : List Char) : Option (Tag × List Char) :=
  let name := cs.takeWhile fun c => !endsTagName c
  let rest := cs.dropWhile fun c => !endsTagName c
  (tagEnd (rest.length + 1) [] rest).map fun (attributes, selfClosing, after) =>
    (⟨nameText name, attributes, selfClosing⟩, after)

/-! ## Comments and declarations -/

/-- The characters of a text up to the first `>`, and the text behind it. -/
def untilBracket (cs : List Char) : List Char × List Char :=
  (cs.takeWhile (· != '>'), (cs.dropWhile (· != '>')).drop 1)

/-- The comment that a misplaced declaration or instruction becomes. -/
def bogusComment (cs : List Char) : Token × List Char :=
  let (body, rest) := untilBracket cs
  (.comment (String.ofList (body.map noNul)), rest)

/-- The content of a comment up to its `-->` or `--!>`. A comment that is not closed ends with the
text, and loses an unfinished closing mark. -/
def commentBody : (soFar : List Char) → List Char → List Char × List Char
  | soFar, [] =>
    let cut := match soFar with
      | '!' :: '-' :: '-' :: before => before
      | '-' :: '-' :: before => before
      | '-' :: before => before
      | all => all
    (cut.reverse, [])
  | soFar, '-' :: '-' :: '>' :: rest => (soFar.reverse, rest)
  | soFar, '-' :: '-' :: '!' :: '>' :: rest => (soFar.reverse, rest)
  | soFar, c :: cs => commentBody (noNul c :: soFar) cs

/-- A comment behind its opening mark; `<!-->` and `<!--->` are closed at once. -/
def comment (cs : List Char) : Token × List Char :=
  let (body, rest) := match cs with
    | '>' :: rest => ([], rest)
    | '-' :: '>' :: rest => ([], rest)
    | _ => commentBody [] cs
  (.comment (String.ofList body), rest)

/-- A quoted identifier of a document type: its text, whether the quote closes it, and the text
behind. A `>` ends an identifier that is not closed. -/
def quotedIdentifier (quote : Char) (cs : List Char) : String × Bool × List Char :=
  let body := cs.takeWhile fun c => c != quote && c != '>'
  let rest := cs.dropWhile fun c => c != quote && c != '>'
  let text := String.ofList (body.map noNul)
  match rest with
  | c :: after => (text, c == quote, if c == quote then after else c :: after)
  | [] => (text, false, [])

/-- The declaration with the text up to its `>` skipped. -/
def finishDoctype (d : Doctype) (cs : List Char) : Token × List Char :=
  (.doctype d, (untilBracket cs).2)

/-- The end of a document type that holds all its identifiers. -/
def doctypeTail (d : Doctype) (cs : List Char) : Token × List Char :=
  match cs.dropWhile Text.isMarkupBlank with
  | [] => (.doctype { d with broken := true }, [])
  | rest => finishDoctype d rest

/-- A system identifier; `needed` if its keyword was written. -/
def systemIdentifier (d : Doctype) (needed : Bool) (cs : List Char) : Token × List Char :=
  match cs.dropWhile Text.isMarkupBlank with
  | [] => (.doctype { d with broken := true }, [])
  | c :: rest =>
    if c = '"' ∨ c = '\'' then
      let (text, closed, after) := quotedIdentifier c rest
      let d' := { d with systemId := some text }
      if closed then doctypeTail d' after else finishDoctype { d' with broken := true } after
    else if c = '>' then (.doctype { d with broken := d.broken || needed }, rest)
    else finishDoctype { d with broken := true } (c :: rest)

/-- A public identifier and what may follow it. -/
def publicIdentifier (d : Doctype) (cs : List Char) : Token × List Char :=
  match cs.dropWhile Text.isMarkupBlank with
  | [] => (.doctype { d with broken := true }, [])
  | c :: rest =>
    if c = '"' ∨ c = '\'' then
      let (text, closed, after) := quotedIdentifier c rest
      let d' := { d with publicId := some text }
      if closed then systemIdentifier d' false after
      else finishDoctype { d' with broken := true } after
    else finishDoctype { d with broken := true } (c :: rest)

/-- A document type behind its keyword. -/
def doctype (cs : List Char) : Token × List Char :=
  let d : Doctype := ⟨none, none, none, false⟩
  match cs.dropWhile Text.isMarkupBlank with
  | [] => (.doctype { d with broken := true }, [])
  | '>' :: rest => (.doctype { d with broken := true }, rest)
  | body =>
    let ends (c : Char) : Bool := Text.isMarkupBlank c || c == '>'
    let d := { d with name := some (nameText (body.takeWhile fun c => !ends c)) }
    match (body.dropWhile fun c => !ends c).dropWhile Text.isMarkupBlank with
    | [] => (.doctype { d with broken := true }, [])
    | '>' :: rest => (.doctype d, rest)
    | rest =>
      let keyword := (rest.take 6).map Text.lowerChar
      if keyword = "public".toList then publicIdentifier d (rest.drop 6)
      else if keyword = "system".toList then systemIdentifier d true (rest.drop 6)
      else finishDoctype { d with broken := true } rest

/-! ## Text that only an end tag ends -/

/-- Whether a text is the end tag of `name`, from its angle bracket on. -/
def startsEndTag (name : String) (cs : List Char) : Bool :=
  match cs with
  | '<' :: '/' :: rest =>
    let word := rest.takeWhile Text.isLetter
    String.ofList (word.map Text.lowerChar) == name &&
      (match rest.dropWhile Text.isLetter with
        | c :: _ => endsTagName c
        | [] => false)
  | _ => false

/-- The text before the end tag of `name`, and the rest from that end tag on. -/
def untilEndTag (name : String) : List Char → List Char × List Char
  | [] => ([], [])
  | c :: cs =>
    if startsEndTag name (c :: cs) then ([], c :: cs)
    else
      let (before, rest) := untilEndTag name cs
      (c :: before, rest)

/-- Where in a script one is: outside comments, inside one, or inside a script tag within one. -/
inductive ScriptPlace where
  | outside
  | escaped
  | nested
  deriving DecidableEq

/-- Whether the letters behind `cs` are the word `script` with a delimiter after it. -/
def scriptWord (cs : List Char) : Bool :=
  String.ofList ((cs.takeWhile Text.isLetter).map Text.lowerChar) == "script" &&
    (match cs.dropWhile Text.isLetter with
      | c :: _ => endsTagName c
      | [] => false)

/-- The text of a script, and the rest from its end tag on. Inside a comment of a script, an end
tag ends the script unless a start tag of a script comes before it. -/
def untilScriptEnd : ScriptPlace → (dashes : Nat) → List Char → List Char × List Char
  | _, _, [] => ([], [])
  | place, dashes, c :: cs =>
    let go (p : ScriptPlace) (n : Nat) : List Char × List Char :=
      let (before, rest) := untilScriptEnd p n cs
      (c :: before, rest)
    match place with
    | .outside =>
      if startsEndTag "script" (c :: cs) then ([], c :: cs)
      else if c = '<' ∧ Text.startsWith ['!', '-', '-'] cs then go .escaped 0
      else go .outside 0
    | .escaped =>
      if startsEndTag "script" (c :: cs) then ([], c :: cs)
      else if c = '<' ∧ scriptWord cs then go .nested 0
      else if c = '-' then go .escaped (dashes + 1)
      else if c = '>' ∧ 2 ≤ dashes then go .outside 0
      else go .escaped 0
    | .nested =>
      if c = '<' ∧ Text.startsWith ['/'] cs && scriptWord (cs.drop 1) then go .escaped 0
      else if c = '-' then go .nested (dashes + 1)
      else if c = '>' ∧ 2 ≤ dashes then go .outside 0
      else go .nested 0

/-! ## Tokens -/

/-- Text as a token. -/
def textToken (chars : List Char) : Token := .text (chars.all Text.isMarkupBlank) chars

/-- Whether an angle bracket with this text behind it begins markup. -/
def opensMarkup : List Char → Bool
  | c :: rest =>
    c == '!' || c == '?' || Text.isLetter c || (c == '/' && !rest.isEmpty)
  | [] => false

/-- A run of ordinary text that is blank throughout or nowhere. -/
def textRun (blank : Bool) : (fuel : Nat) → (soFar : List Char) → List Char →
    List Char × List Char
  | 0, soFar, cs => (soFar.reverse, cs)
  | _ + 1, soFar, [] => (soFar.reverse, [])
  | fuel + 1, soFar, c :: cs =>
    if c.toNat = 0 ∨ (c = '<' ∧ opensMarkup cs = true) then (soFar.reverse, c :: cs)
    else
      let (chars, rest) := if c = '&' then reference false cs else ([c], cs)
      if chars.all Text.isMarkupBlank == blank then
        textRun blank fuel (chars.reverse ++ soFar) rest
      else (soFar.reverse, c :: cs)

/-- A run of ordinary text at the front of a text that begins with some. -/
def ordinaryText (c : Char) (cs : List Char) : Token × List Char :=
  let first := if c = '&' then (reference false cs).1 else [c]
  let blank := first.all Text.isMarkupBlank
  let (chars, rest) := textRun blank (cs.length + 2) [] (c :: cs)
  (.text blank chars, rest)

/-- The tokens of the text in a CDATA section: runs without NUL, and the NUL characters between
them. -/
def sectionTokens : (soFar : List Char) → List Char → List Token
  | soFar, [] => flush soFar
  | soFar, c :: cs =>
    if c.toNat = 0 then flush soFar ++ .nul :: sectionTokens [] cs
    else sectionTokens (c :: soFar) cs
where
  /-- The run read so far, given in reverse. -/
  flush (soFar : List Char) : List Token :=
    if soFar.isEmpty then [] else [textToken soFar.reverse]

/-- A declaration behind `<!`. -/
def declaration (sections : Bool) (cs : List Char) : List Token × List Char :=
  let single (r : Token × List Char) : List Token × List Char := ([r.1], r.2)
  match Text.dropStem? ['-', '-'] cs with
  | some rest => single (comment rest)
  | none =>
    if (cs.take 7).map Text.lowerChar = "doctype".toList then single (doctype (cs.drop 7))
    else
      match if sections then Text.dropStem? "[CDATA[".toList cs else none with
      | some rest =>
        let (body, after) := (Text.splitFirst? "]]>".toList rest).getD (rest, [])
        (sectionTokens [] body, after)
      | none => single (bogusComment cs)

/-- The tokens of the next piece of ordinary content. An unfinished tag at the end is dropped. -/
def ordinaryTokens? (sections : Bool) : List Char → Option (List Token × List Char)
  | [] => none
  | c :: cs =>
    if c.toNat = 0 then some ([.nul], cs)
    else if c = '<' ∧ opensMarkup cs = true then
      match cs with
      | '!' :: rest => some (declaration sections rest)
      | '/' :: rest =>
        match rest with
        | '>' :: after => some ([], after)
        | d :: _ =>
          if Text.isLetter d then
            (tagBody rest).map fun (tag, after) => ([.endTag tag.name], after)
          else
            let (token, after) := bogusComment rest
            some ([token], after)
        | [] => none
      | '?' :: _ =>
        let (token, after) := bogusComment cs
        some ([token], after)
      | _ => (tagBody cs).map fun (tag, after) => ([.startTag tag], after)
    else
      let (token, rest) := ordinaryText c cs
      some ([token], rest)

/-- The tokens of the next piece of a text that only an end tag ends: the text before it, or the
end tag. -/
def closedTokens? (split : List Char × List Char) (decode : List Char → List Char) :
    Option (List Token × List Char) :=
  match split with
  | ([], '<' :: '/' :: rest) =>
    (tagBody rest).map fun (tag, after) => ([.endTag tag.name], after)
  | ([], _) => none
  | (body, rest) => some ([textToken (decode body)], rest)

/-- The tokens of the next piece of a text, and the rest; nothing at its end. `sections` says
whether CDATA sections are text. -/
def Token.next? (content : Content) (sections : Bool) (cs : List Char) :
    Option (List Token × List Char) :=
  match content with
  | .ordinary => ordinaryTokens? sections cs
  | .references name =>
    closedTokens? (untilEndTag name cs) fun body => decodeText (body.length + 1) body
  | .raw name => closedTokens? (untilEndTag name cs) (·.map noNul)
  | .script => closedTokens? (untilScriptEnd .outside 0 cs) (·.map noNul)
  | .plain => if cs.isEmpty then none else some ([textToken (cs.map noNul)], [])

/-- Whether a text begins with a mistake that counts as something read although no token shows it:
a tag without a name, `</>`, or the number of a character without its semicolon. -/
def beginsWithMistake (cs : List Char) : Bool :=
  match cs with
  | '<' :: '/' :: '>' :: _ => true
  | '&' :: '#' :: body =>
    let (digit, body) : (Char → Bool) × List Char := match body with
      | 'x' :: rest => (Text.isHexDigit, rest)
      | 'X' :: rest => (Text.isHexDigit, rest)
      | _ => (Text.isDigit, body)
    !(Text.startsWith [';'] (body.dropWhile digit))
  | _ => false

end Stencil.Html

import Stencil.Text.Blank
import Stencil.Text.Letters
import Stencil.Text.Search

/-!
# The parts of a selector text

A selector text is cut into tokens, and brackets with what they enclose become one part. Comments
vanish. A bracket that is still open at the end is closed there; a closing bracket without an
opening one is a broken part, as are a string with a line end in it and an address with a quote or a
blank in it.
-/

namespace Stencil.Css

/-- A token, or a bracket with its content. -/
inductive Part where
  | blank
  | ident (name : String)
  | hash (name : String) (isIdent : Bool)
  | string (text : String)
  | number (signed : Bool) (value : Option Int)
  | dimension (value : Option Int) (unit : String)
  | delim (c : Char)
  /-- One of `~=`, `|=`, `^=`, `$=` and `*=`, by its first character. -/
  | comparison (c : Char)
  | colon
  | comma
  /-- A token that no selector uses. -/
  | foreign
  | broken
  /-- Parts between brackets, by the opening one. -/
  | block (bracket : Char) (inner : List Part)
  /-- A name with an opening parenthesis behind it, and the parts up to the closing one. -/
  | call (name : String) (inner : List Part)
  deriving Repr, Inhabited

/-- A token before brackets are paired. -/
inductive Token where
  | part (part : Part)
  | opening (name : Option String) (bracket : Char)
  | closing (bracket : Char)
  deriving Repr, Inhabited

/-! ## Characters -/

/-- A line end. -/
def isLineEnd (c : Char) : Bool := c == '\n' || c == '\r' || c == '\x0c'

/-- Characters that can begin a name on their own. -/
def startsName (c : Char) : Bool :=
  Text.isLetter c || c == '_' || c.toNat == 0 || 128 ≤ c.toNat

/-- Characters that a name can go on with on their own. -/
def continuesName (c : Char) : Bool := startsName c || Text.isDigit c || c == '-'

/-- Whether a name begins at the front of a text. -/
def beginsName (cs : List Char) : Bool :=
  match cs with
  | '-' :: d :: _ => startsName d || d == '-' || d == '\\'
  | '-' :: [] => false
  | '\\' :: d :: _ => !isLineEnd d
  | '\\' :: [] => true
  | c :: _ => startsName c
  | [] => false

/-- Whether a number begins at the front of a text. -/
def beginsNumber (cs : List Char) : Bool :=
  let unsigned := match cs with
    | '+' :: rest => rest
    | '-' :: rest => rest
    | _ => cs
  match unsigned with
  | '.' :: d :: _ => Text.isDigit d
  | c :: _ => Text.isDigit c
  | [] => false

/-- The replacement character. -/
def replacement : Char := '\ufffd'

/-- The character of an escape behind its backslash, and the text behind it. -/
def escape (cs : List Char) : Char × List Char :=
  match cs with
  | [] => (replacement, [])
  | c :: rest =>
    if Text.isHexDigit c then
      let digits := (cs.takeWhile Text.isHexDigit).take 6
      let after := cs.drop digits.length
      let n := Text.hexadecimalValue digits
      let valid := n != 0 && n ≤ 0x10FFFF && !(0xD800 ≤ n && n ≤ 0xDFFF)
      let left := match after with
        | '\r' :: '\n' :: left => left
        | d :: left => if Text.isMarkupBlank d then left else d :: left
        | [] => []
      (if valid then Char.ofNat n else replacement, left)
    else if c.toNat = 0 then (replacement, rest)
    else (c, rest)

/-- The characters of a name, and the text behind it. -/
def name : (fuel : Nat) → (soFar : List Char) → List Char → String × List Char
  | 0, soFar, cs => (String.ofList soFar.reverse, cs)
  | _ + 1, soFar, [] => (String.ofList soFar.reverse, [])
  | fuel + 1, soFar, c :: cs =>
    if c.toNat = 0 then name fuel (replacement :: soFar) cs
    else if continuesName c then name fuel (c :: soFar) cs
    else if c = '\\' ∧ !(cs.head?.any isLineEnd) then
      let (d, rest) := escape cs
      name fuel (d :: soFar) rest
    else (String.ofList soFar.reverse, c :: cs)

/-- A string behind its opening quote: its text, or nothing if a line end breaks it. -/
def stringBody (quote : Char) : (fuel : Nat) → (soFar : List Char) → List Char →
    Option String × List Char
  | 0, soFar, cs => (some (String.ofList soFar.reverse), cs)
  | _ + 1, soFar, [] => (some (String.ofList soFar.reverse), [])
  | fuel + 1, soFar, c :: cs =>
    if c = quote then (some (String.ofList soFar.reverse), cs)
    else if isLineEnd c then (none, c :: cs)
    else if c.toNat = 0 then stringBody quote fuel (replacement :: soFar) cs
    else if c = '\\' then
      match cs with
      | [] => (some (String.ofList soFar.reverse), [])
      | '\r' :: '\n' :: rest => stringBody quote fuel soFar rest
      | d :: rest =>
        if isLineEnd d then stringBody quote fuel soFar rest
        else
          let (e, after) := escape cs
          stringBody quote fuel (e :: soFar) after
    else stringBody quote fuel (c :: soFar) cs

/-- An integer cut to 32 bits. -/
def clamp (n : Int) : Int := max (-2147483648) (min 2147483647 n)

/-- A number, percentage or dimension at the front of a text. -/
def numeric (cs : List Char) : Part × List Char :=
  let (signed, negative, body) : Bool × Bool × List Char := match cs with
    | '+' :: rest => (true, false, rest)
    | '-' :: rest => (true, true, rest)
    | _ => (false, false, cs)
  let whole := body.takeWhile Text.isDigit
  let after := body.dropWhile Text.isDigit
  let (fraction, after1) := match after with
    | '.' :: d :: rest =>
      if Text.isDigit d then (true, rest.dropWhile Text.isDigit) else (false, after)
    | _ => (false, after)
  let (exponent, after2) := match after1 with
    | e :: rest =>
      if e == 'e' || e == 'E' then
        match rest with
        | s :: d :: more =>
          if Text.isDigit s then (true, rest.dropWhile Text.isDigit)
          else if (s == '+' || s == '-') && Text.isDigit d then
            (true, more.dropWhile Text.isDigit)
          else (false, after1)
        | [s] => if Text.isDigit s then (true, []) else (false, after1)
        | [] => (false, after1)
      else (false, after1)
    | [] => (false, after1)
  let magnitude : Int := Text.decimalValue whole
  let value :=
    if fraction || exponent then none else some (clamp (if negative then -magnitude else magnitude))
  match after2 with
  | '%' :: rest => (.foreign, rest)
  | _ =>
    if beginsName after2 then
      let (unit, rest) := name (after2.length + 1) [] after2
      (.dimension value unit, rest)
    else (.number signed value, after2)

/-- The text behind a bad address: up to its closing parenthesis, before which a backslash may
protect a parenthesis or a backslash. -/
def afterBadAddress : List Char → List Char
  | [] => []
  | '\\' :: ')' :: cs => afterBadAddress cs
  | '\\' :: '\\' :: cs => afterBadAddress cs
  | c :: cs => if c = ')' then cs else afterBadAddress cs

/-- Characters that cannot stand in an address without quotes. -/
def spoilsAddress (c : Char) : Bool :=
  c == '"' || c == '\'' || c == '(' || c.toNat == 0x7F ||
    (c.toNat < 0x20 && c.toNat != 0 && !Text.isMarkupBlank c)

/-- The rest of an address without quotes, from its first character on: the part that it is and the
text behind its closing parenthesis. Blanks may stand in front of the parenthesis only. -/
def plainAddress : (fuel : Nat) → List Char → Part × List Char
  | 0, cs => (.foreign, cs)
  | _ + 1, [] => (.foreign, [])
  | fuel + 1, c :: cs =>
    if c = ')' then (.foreign, cs)
    else if Text.isMarkupBlank c then
      match cs.dropWhile Text.isMarkupBlank with
      | [] => (.foreign, [])
      | d :: rest => if d = ')' then (.foreign, rest) else (.broken, afterBadAddress rest)
    else if spoilsAddress c then (.broken, afterBadAddress cs)
    else if c = '\\' then
      if cs.head?.any isLineEnd then (.broken, afterBadAddress cs)
      else plainAddress fuel (escape cs).2
    else plainAddress fuel cs

/-- An address behind `url(`, up to its closing parenthesis; none if it is a quoted one. -/
def address? (cs : List Char) : Option (Part × List Char) :=
  match cs.dropWhile Text.isMarkupBlank with
  | '"' :: _ => none
  | '\'' :: _ => none
  | body => some (plainAddress (body.length + 1) body)

/-- A name at the front of a text, with the parenthesis behind it if there is one. -/
def nameToken (cs : List Char) : Token × List Char :=
  let (n, rest) := name (cs.length + 1) [] cs
  match rest with
  | '(' :: after =>
    if Text.sameLetters n "url" then
      match address? after with
      | some (p, left) => (.part p, left)
      | none => (.opening (some n) '(', after)
    else (.opening (some n) '(', after)
  | _ => (.part (.ident n), rest)

/-- The text behind a comment whose opening mark is taken. -/
def afterComment (cs : List Char) : List Char :=
  match Text.splitFirst? ['*', '/'] cs with
  | some (_, rest) => rest
  | none => []

/-- One token off the front of a text; a comment gives none. -/
def token (c : Char) (cs : List Char) : Option Token × List Char :=
  let all := c :: cs
  let part (p : Part) (rest : List Char) : Option Token × List Char := (some (.part p), rest)
  let numbered : Option Token × List Char :=
    let (p, rest) := numeric all
    (some (.part p), rest)
  let named : Option Token × List Char :=
    let (t, rest) := nameToken all
    (some t, rest)
  let comparison : Option Token × List Char :=
    match cs with
    | '=' :: rest => part (.comparison c) rest
    | _ => part (.delim c) cs
  let string : Option Token × List Char :=
    match stringBody c (cs.length + 1) [] cs with
    | (some s, rest) => part (.string s) rest
    | (none, rest) => part .broken rest
  if Text.isMarkupBlank c then part .blank (cs.dropWhile Text.isMarkupBlank)
  else
    match c with
    | '"' => string
    | '\'' => string
    | '#' =>
      if beginsName cs then
        let (n, rest) := name (cs.length + 1) [] cs
        part (.hash n true) rest
      else if cs.head?.any fun d => Text.isDigit d || d == '-' then
        let (n, rest) := name (cs.length + 1) [] cs
        part (.hash n false) rest
      else part (.delim c) cs
    | '$' => comparison
    | '*' => comparison
    | '^' => comparison
    | '|' => comparison
    | '~' => comparison
    | '(' => (some (.opening none '('), cs)
    | '[' => (some (.opening none '['), cs)
    | '{' => (some (.opening none '{'), cs)
    | ')' => (some (.closing ')'), cs)
    | ']' => (some (.closing ']'), cs)
    | '}' => (some (.closing '}'), cs)
    | '+' => if beginsNumber all then numbered else part (.delim c) cs
    | '.' => if beginsNumber all then numbered else part (.delim c) cs
    | '-' =>
      if beginsNumber all then numbered
      else
        match Text.dropStem? ['-', '>'] cs with
        | some rest => part .foreign rest
        | none => if beginsName all then named else part (.delim c) cs
    | ',' => part .comma cs
    | ':' => part .colon cs
    | ';' => part .foreign cs
    | '/' =>
      match cs with
      | '*' :: rest => (none, afterComment rest)
      | _ => part (.delim c) cs
    | '<' =>
      match Text.dropStem? ['!', '-', '-'] cs with
      | some rest => part .foreign rest
      | none => part (.delim c) cs
    | '@' =>
      if beginsName cs then part .foreign (name (cs.length + 1) [] cs).2 else part (.delim c) cs
    | '\\' => if beginsName all then named else part (.delim c) cs
    | _ =>
      if Text.isDigit c then numbered
      else if startsName c then named
      else part (.delim c) cs

/-- All tokens of a text. -/
def tokens : (fuel : Nat) → List Char → List Token
  | 0, _ => []
  | _ + 1, [] => []
  | fuel + 1, c :: cs =>
    let (t, rest) := token c cs
    match t with
    | some t => t :: tokens fuel rest
    | none => tokens fuel rest

/-! ## Pairing brackets -/

/-- An open bracket with the parts before it, the latest first. -/
structure Pending where
  name : Option String
  bracket : Char
  before : List Part

/-- The bracket that closes an opening one. -/
def closerOf (bracket : Char) : Char :=
  if bracket = '(' then ')' else if bracket = '[' then ']' else '}'

/-- The part that a closed bracket makes of the parts in it, the latest first. -/
def Pending.close (p : Pending) (inner : List Part) : Part :=
  match p.name with
  | some n => .call n inner.reverse
  | none => .block p.bracket inner.reverse

/-- Close all brackets. -/
def closeAll : List Pending → List Part → List Part
  | [], parts => parts.reverse
  | p :: rest, parts => closeAll rest (p.close parts :: p.before)

/-- Pair the brackets of a list of tokens. -/
def pair : List Pending → List Part → List Token → List Part
  | stack, parts, [] => closeAll stack parts
  | stack, parts, .part p :: rest => pair stack (p :: parts) rest
  | stack, parts, .opening n bracket :: rest => pair (⟨n, bracket, parts⟩ :: stack) [] rest
  | stack, parts, .closing c :: rest =>
    match stack with
    | p :: outer =>
      if closerOf p.bracket = c then pair outer (p.close parts :: p.before) rest
      else pair stack (.broken :: parts) rest
    | [] => pair [] (.broken :: parts) rest

/-- The parts of a text. -/
def parts (text : String) : List Part :=
  let cs := text.toList
  pair [] [] (tokens (cs.length + 1) cs)

end Stencil.Css

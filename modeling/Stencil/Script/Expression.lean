import Stencil.Script.Token

/-!
# Expressions in directive lines

Three forms are read: the clause of a loop, `foreach ($list as $key => $item)` with an optional
key; the binding of a component, `$var = $this->_component['name']`; and the index of an item,
`$item['field']`. The first two may stand anywhere in a line, the last one must be all of it.
-/

namespace Stencil.Script

/-- The clause of a loop: where the items are, and the variables for key and item. -/
structure Clause where
  list : String
  key? : Option String
  item : String
  deriving Repr, DecidableEq

/-- The component whose data a script uses, and the variable that holds it. -/
structure Binding where
  var : String
  component : String
  deriving Repr, DecidableEq

/-- What could stand at a place of a clause. -/
inductive Expected where
  | token (token : Token)
  | anyVar
  deriving Repr, DecidableEq

/-- Why a line that mentions a loop has no clause. -/
inductive ClauseFault where
  | absent
  | unexpected (found : Option Token) (expected : List Expected)
  deriving Repr, DecidableEq

/-! ## Loop clauses -/

/-- The rest of a line: its tokens, and where the complaint that it ends too early points. -/
structure Remaining where
  tokens : List (Token × Span)
  atEnd : Span

namespace Remaining

/-- The complaint that the next token, or the end of the line, is none of what is expected. -/
def refuse {α : Type} (r : Remaining) (expected : List Expected) :
    Except (ClauseFault × Span) α :=
  match r.tokens with
  | (t, span) :: _ => .error (.unexpected (some t) expected, span)
  | [] => .error (.unexpected none expected, r.atEnd)

/-- Read one certain token. -/
def token (t : Token) (r : Remaining) : Except (ClauseFault × Span) Remaining :=
  match r.tokens with
  | (u, _) :: rest => if u = t then .ok { r with tokens := rest } else r.refuse [.token t]
  | [] => r.refuse [.token t]

/-- Read a variable. -/
def var (r : Remaining) : Except (ClauseFault × Span) (String × Remaining) :=
  match r.tokens with
  | (.var name, _) :: rest => .ok (name, { r with tokens := rest })
  | _ => r.refuse [.anyVar]

/-- Read what follows the first variable behind `as`: the end of the clause, or an arrow, a second
variable and the end. -/
def clauseEnd (list first : String) (r : Remaining) : Except (ClauseFault × Span) Clause :=
  match r.tokens with
  | (.closeParen, _) :: _ => .ok ⟨list, none, first⟩
  | (.fatArrow, _) :: rest => do
    let (item, r) ← var { r with tokens := rest }
    let _ ← r.token .closeParen
    return ⟨list, some first, item⟩
  | _ => r.refuse [.token .fatArrow, .token .closeParen]

/-- Read a clause behind its keyword. -/
def clause (r : Remaining) : Except (ClauseFault × Span) Clause := do
  let r ← r.token .openParen
  let (list, r) ← r.var
  let r ← r.token .asWord
  let (first, r) ← r.var
  r.clauseEnd list first

end Remaining

/-- The clause behind the first keyword of a line. Without a keyword the whole line is at fault. A
clause that the end of the line cuts off is reported backwards, from the end of the line to the end
of its last token. -/
def clauseOf (line : String) : Except (ClauseFault × Span) Clause :=
  match (tokens line).dropWhile fun (t, _) => t != .foreachWord with
  | [] => .error (.absent, ⟨0, line.utf8ByteSize⟩)
  | keyword :: rest =>
    let last := rest.getLast?.getD keyword
    Remaining.clause ⟨rest, ⟨line.utf8ByteSize, last.2.stop⟩⟩

/-! ## Bindings and indices -/

/-- The binding at the start of a list of tokens. -/
def bindingAt? : List Token → Option Binding
  | .var name :: .equals :: .var this :: .arrow :: .word property :: .openBracket ::
      .quoted component :: .closeBracket :: _ =>
    if this = "this" ∧ property = "_component" then some ⟨name, component⟩ else none
  | _ => none

/-- The first binding in a list of tokens. -/
def firstBinding? : List Token → Option Binding
  | [] => none
  | t :: ts => (bindingAt? (t :: ts)).or (firstBinding? ts)

/-- The first binding in a line. -/
def bindingIn? (line : String) : Option Binding :=
  firstBinding? ((tokens line).map Prod.fst)

/-- The variable and the field of an expression that is an index and nothing else. -/
def indexOf? (expression : String) : Option (String × String) :=
  (tokens? expression).bind fun ts =>
    match ts.map Prod.fst with
    | [.var name, .openBracket, .quoted field, .closeBracket] => some (name, field)
    | _ => none

/-! ## Wording -/

/-- How an expectation is called in messages. -/
def Expected.describe : Expected → String
  | .token t => t.describe
  | .anyVar => "variable"

/-- The wording of a clause fault. -/
def ClauseFault.message : ClauseFault → String
  | .absent => "line mentions foreach but has no `foreach (...)` clause"
  | .unexpected found expected =>
    let subject := match found with
      | some t => s!"unexpected {t.describe}"
      | none => "unexpected end of line"
    let wanted := ", ".intercalate (expected.map Expected.describe)
    s!"{subject} (expected {wanted})"

end Stencil.Script

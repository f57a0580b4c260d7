import Stencil.Cursor
import Stencil.Expr
import Stencil.Text.Plain

set_option autoImplicit false

/-!
# Reading expressions

Alternatives are tried in turn on the next token. One that is not taken gives `none`.
-/
namespace Stencil

structure Dialect where
  helpers : Dict Helper
  /-- Block heads and calls with arguments must name a registered helper. -/
  knownHelpersOnly : Bool := false
  /-- A function that a reference leads to is not called. -/
  noFunctionValues : Bool := false
  deriving Repr, DecidableEq

inductive Argument
  | positional (e : Expr)
  | named (key : String) (e : Expr)

namespace Argument

def positional? : Argument → Option Expr
  | positional e => some e
  | named _ _ => none

def named? : Argument → Option (String × Expr)
  | positional _ => none
  | named key e => some (key, e)

end Argument

namespace Token

def number (text : List Char) : Float :=
  let digits := (text.filter Char.isDigit).foldl (fun n c => 10 * n + (c.toNat - '0'.toNat)) 0
  let places := (text.dropWhile (· ≠ '.')).length - 1
  Decimal.read (text.head? = some '-') digits places

def value? (t : Token) : Option Value :=
  match t.kind, t.text with
  | .trueWord, _ => some (.bool true)
  | .falseWord, _ => some (.bool false)
  | .const, '"' :: inner | .const, '\'' :: inner =>
    some (.string (String.ofList (Text.unescape inner.dropLast)))
  | .const, digits => some (.number (number digits))
  | _, _ => none

end Token

namespace Cursor

def referenceNames (data : Bool) (up : Nat) (required : Bool) (c : Cursor) :
    Except Failure (c.Ahead (Option Reference)) := do
  let ⟨path, d, h⟩ ← c.names?
  match path with
  | some path => return ⟨some ⟨data, up, path.map Prod.snd⟩, d, h⟩
  | none => if required then d.fail .expectedIdentList else return ⟨none, d, h⟩

/-- A reference. An `@` without one after it stays passed. -/
def reference? (c : Cursor) : Except Failure (c.Ahead (Option Reference)) := do
  let ⟨data, d, hd⟩ ← c.skip .atSign
  match ← d.eat .thisWord with
  | some ⟨e, he⟩ =>
    let ⟨dotted, f, hf⟩ ← e.skip .dot
    if dotted then
      let ⟨r, g, hg⟩ ← f.referenceNames data 0 true
      return ⟨r, g, by omega⟩
    else return ⟨some ⟨data, 0, []⟩, f, by omega⟩
  | none =>
    let ⟨(up, required), e, he⟩ ← d.climb 0 false
    match required with
    | some required =>
      let ⟨r, f, hf⟩ ← e.referenceNames data up required
      return ⟨r, f, by omega⟩
    | none => return ⟨some ⟨data, up, []⟩, e, by omega⟩

/-- The head of a call: names or a reference. A single name is a helper if it is registered. -/
def head (dialect : Dialect) (fallback : Option Helper) (c : Cursor) :
    Except Failure (c.Ahead Head) := do
  let ⟨path, d, hd⟩ ← c.names?
  match path with
  | some path =>
    let names := path.map Prod.snd
    let registered := match names with
      | [name] => dialect.helpers.get? name
      | _ => none
    match registered with
    | some h => return ⟨.helper h, d, hd⟩
    | none => return ⟨.value ⟨false, 0, names⟩ fallback, d, hd⟩
  | none =>
    let ⟨r, e, he⟩ ← d.reference?
    match r with
    | some r => return ⟨.value r fallback, e, by omega⟩
    | none => e.fail .invalidExpression

end Cursor

namespace Dialect

def callFallback (d : Dialect) : Option Helper := d.helpers.get? "helperMissing"

def blockFallback (d : Dialect) : Option Helper := d.helpers.get? "blockHelperMissing"

def reference (d : Dialect) (r : Reference) : Expr := .reference r (!d.noFunctionValues)

end Dialect

/-- A call that is read again as a plain reference: its head is no helper and nothing follows. -/
def Call.isBare {ε : Type} (call : Call ε) : Bool :=
  match call.head with
  | .helper _ => false
  | _ => call.args.isEmpty && call.hash.isEmpty

def Call.check {ε : Type} (call : Call ε) (dialect : Dialect) (c : Cursor) :
    Except Failure Unit :=
  match call.head with
  | .helper _ => return
  | _ => if dialect.knownHelpersOnly then c.fail (.unknownHelper call.name) else return

namespace Cursor

mutual

def call (dialect : Dialect) (fallback : Option Helper) (c : Cursor) :
    Except Failure (c.Ahead (Call Expr)) := do
  let ⟨head, d, hd⟩ ← c.head dialect fallback
  let ⟨args, e, he⟩ ← d.arguments dialect
  let call : Call Expr :=
    ⟨c.upTo d, head, args.filterMap Argument.positional?, args.filterMap Argument.named?⟩
  return ⟨call, e, by omega⟩
termination_by 3 * c.rest.length + 1

/-- A call, or a reference where the call has neither a helper nor arguments. -/
def expression (dialect : Dialect) (c : Cursor) : Except Failure (c.Ahead Expr) := do
  let ⟨call, d, hd⟩ ← c.call dialect dialect.callFallback
  if call.isBare then
    let ⟨r, e, he⟩ ← c.reference?
    match r with
    | some r => return ⟨dialect.reference r, e, he⟩
    | none => e.fail .invalidExpression
  else
    call.check dialect d
    return ⟨.call call, d, hd⟩
termination_by 3 * c.rest.length + 2

def operand? (dialect : Dialect) (c : Cursor) : Except Failure (c.Ahead (Option Expr)) := do
  let ⟨r, d, hd⟩ ← c.reference?
  match r with
  | some r => return ⟨some (dialect.reference r), d, hd⟩
  | none =>
    match d.token.value? with
    | some v =>
      let ⟨e, he⟩ ← d.next
      return ⟨some (.const v), e, by omega⟩
    | none =>
      match ← d.eat .leftParen with
      | some ⟨e, he⟩ =>
        let ⟨_, f, hf⟩ ← e.skip .space
        let ⟨inner, g, hg⟩ ← f.expression dialect
        let ⟨i, hi⟩ ← g.expect .rightParen
        return ⟨some inner, i, by omega⟩
      | none => return ⟨none, d, hd⟩
termination_by 3 * c.rest.length

def argument? (dialect : Dialect) (c : Cursor) : Except Failure (c.Ahead (Option Argument)) := do
  let ⟨path, d, hd⟩ ← c.names?
  match path with
  | some [(_, key)] =>
    match ← d.eat .equals with
    | some ⟨e, he⟩ =>
      let ⟨value, f, hf⟩ ← e.operand? dialect
      match value with
      | some value => return ⟨some (.named key value), f, by omega⟩
      | none => f.fail .noValueAfterEq
    | none => return ⟨some (.positional (dialect.reference ⟨false, 0, [key]⟩)), d, hd⟩
  | some path =>
    return ⟨some (.positional (dialect.reference ⟨false, 0, path.map Prod.snd⟩)), d, hd⟩
  | none =>
    let ⟨value, e, he⟩ ← d.operand? dialect
    return ⟨value.map .positional, e, by omega⟩
termination_by 3 * c.rest.length + 1

/-- Arguments, each with white space in front. White space with no argument after it is passed. -/
def arguments (dialect : Dialect) (c : Cursor) : Except Failure (c.Ahead (List Argument)) := do
  match ← c.eat .space with
  | none => return c.here []
  | some ⟨d, hd⟩ =>
    let ⟨arg, e, he⟩ ← d.argument? dialect
    match arg with
    | none => return ⟨[], e, by omega⟩
    | some arg =>
      let ⟨args, f, hf⟩ ← e.arguments dialect
      return ⟨arg :: args, f, by omega⟩
termination_by 3 * c.rest.length

end

end Cursor
end Stencil

import Stencil.Expr.Reader
import Stencil.Tag.Raw

set_option autoImplicit false

/-!
# Reading tags

A tag is read up to the last brace of its closer, which stays the token of the cursor.
-/
namespace Stencil
namespace Cursor

def braces : Nat → (c : Cursor) → Except Failure (c.Ahead Unit)
  | 0, c => return c.here ()
  | n + 1, c => do
    let past ← c.expect .brace
    let ahead ← past.1.braces n
    return (past.ahead ()).goOn ahead

/-- The closer of a tag with two braces and `extra` ones: whether it has a tilde. -/
def closer (extra : Nat) (c : Cursor) : Except Failure (c.Ahead Bool) := do
  let space ← c.skip .space
  let tilde ← space.cursor.skip .tilde
  let braces ← tilde.cursor.braces (extra + 1)
  if braces.cursor.token.kind = .brace then
    return space.goOn (tilde.goOn (braces.map fun _ => tilde.result))
  else braces.cursor.fail (.expectedTagEnd braces.cursor.found)

def atCloser (c : Cursor) : Bool := c.token.kind = .tilde || c.token.kind = .brace

def blockCall (dialect : Dialect) (c : Cursor) : Except Failure (c.Ahead (Call Expr)) := do
  let call ← c.call dialect dialect.blockFallback
  call.result.check dialect call.cursor
  return call

/-- An else marker, for the innermost block in its main body. -/
def otherwiseTag (place : Option Branch) (c : Cursor) : Except Failure (c.Ahead Tag) :=
  match place with
  | none => c.fail .elseOutsideBlock
  | some .inverse => c.fail .multipleElse
  | some .main => return c.here .otherwise

/-- An else marker with a block call in it. -/
def otherwiseOpeningTag (dialect : Dialect) (place : Option Branch) (c : Cursor) :
    Except Failure (c.Ahead Tag) := do
  if place.isNone then c.fail .elseOutsideBlock
  else return (← c.blockCall dialect).map .otherwiseOpening

def valueTag (dialect : Dialect) (escape : Bool) (c : Cursor) : Except Failure (c.Ahead Tag) :=
  Ahead.map (.value escape) <$> c.expression dialect

/-- A tag without a sigil: an else marker or a value. -/
def escapedTag (dialect : Dialect) (place : Option Branch) (c : Cursor) :
    Except Failure (c.Ahead Tag) := do
  match ← c.eat .elseWord with
  | none => c.valueTag dialect true
  | some past =>
    let word := past.ahead ()
    if place = some .inverse then return word.goOn (← word.cursor.otherwiseTag place)
    else
      let space ← word.cursor.skip .space
      if space.result && !space.cursor.atCloser then
        return word.goOn (space.goOn (← space.cursor.otherwiseOpeningTag dialect place))
      else return word.goOn (space.goOn (← space.cursor.otherwiseTag place))

/-- A section for the case that a reference is empty. Without a reference it is an else marker. -/
def negatedTag (dialect : Dialect) (place : Option Branch) (c : Cursor) :
    Except Failure (c.Ahead Tag) := do
  if c.atCloser then c.otherwiseTag place
  else
    let ⟨r, d, hd⟩ ← c.reference?
    match r with
    | none => d.fail .negatedSectionValue
    | some r => return ⟨.opening ⟨c.upTo d, .negated r dialect.blockFallback, [], []⟩, d, hd⟩

def closingTag (c : Cursor) : Except Failure (c.Ahead Tag) := do
  let path ← c.names?
  return path.map fun _ => .closing (c.upTo path.cursor) c.left

def inclusionName (c : Cursor) : Except Failure (c.Ahead String) :=
  Ahead.map (fun path => String.join (path.map fun step => step.1 ++ step.2)) <$> c.names

def inclusionTag (dialect : Dialect) (name : String) (c : Cursor) :
    Except Failure (c.Ahead Tag) := do
  let args ← c.arguments dialect
  return args.map fun args =>
    .inclusion ⟨name, args.filterMap Argument.positional?, args.filterMap Argument.named?⟩

def tag (dialect : Dialect) (place : Option Branch) (sigil : Sigil) (c : Cursor) :
    Except Failure (c.Ahead Tag) :=
  match sigil with
  | .unescaped | .triple => c.valueTag dialect false
  | .opening => Ahead.map .opening <$> c.blockCall dialect
  | .negated => c.negatedTag dialect place
  | .closing => c.closingTag
  | _ => c.escapedTag dialect place

def closed {c : Cursor} (extra : Nat) (tag : c.Ahead Tag) :
    Except Failure (c.Ahead (Tag × Bool)) := do
  let trims ← tag.cursor.closer extra
  return tag.goOn (trims.map fun trims => (tag.result, trims))

def enter (cs : List Char) : Except Failure { c : Cursor // c.rest.length < cs.length } := do
  let ⟨c, hc⟩ ← start cs
  let ⟨_, d, hd⟩ ← c.skip .space
  return ⟨d, by omega⟩

end Cursor

structure TagRead (n : Nat) where
  /-- Nothing for a comment. -/
  tag : Option Tag
  /-- The text after the tag is trimmed. -/
  trims : Bool
  /-- The characters left from the last brace of the tag, or of the opening tag, on. -/
  mark : Option Nat
  rest : List Char
  le : rest.length ≤ n

namespace TagRead

def ofAhead {n : Nat} {c : Cursor} (hc : c.rest.length < n) (ahead : c.Ahead (Tag × Bool)) :
    TagRead n :=
  ⟨some ahead.result.1, ahead.result.2, some ahead.cursor.left, ahead.cursor.rest,
    Nat.le_of_lt (Nat.lt_of_le_of_lt ahead.le hc)⟩

def raw (dialect : Dialect) (cs : List Char) : Except Failure (TagRead cs.length) := do
  let ⟨c, hc⟩ ← Cursor.enter cs
  let ⟨call, d, hd⟩ ← c.blockCall dialect
  let ⟨trims, e, he⟩ ← d.closer 2
  match h : rawBody? call.name.toList e.rest with
  | none => e.fail (.rawEndTagMismatch call.name)
  | some (body, closer) =>
    have := length_lt_of_rawBody? h
    return ⟨some (.raw call (Text.trimIf trims closer.trimsBefore body)), closer.trimsAfter,
      some e.left, closer.rest, by omega⟩

/-- A comment up to its terminator. `left` characters are left from its opening braces on. -/
def comment (left : Nat) (terminator cs : List Char) : Except Failure (TagRead cs.length) :=
  match h : Text.after? terminator cs with
  | none => .error ⟨left, .unterminatedComment⟩
  | some rest => .ok ⟨none, false, none, rest, Text.length_le_of_after? h⟩

def read (dialect : Dialect) (place : Option Branch) (left : Nat) (opener : Opener) :
    Except Failure (TagRead opener.rest.length) :=
  match opener.sigil with
  | .raw => raw dialect opener.rest
  | .comment => comment left "\x7d\x7d".toList opener.rest
  | .longComment => comment left "--\x7d\x7d".toList opener.rest
  | sigil => do
    let ⟨c, hc⟩ ← Cursor.enter opener.rest
    let tag ← c.tag dialect place sigil
    return ofAhead hc (← Cursor.closed sigil.extraBraces tag)

end TagRead

structure Asked (n : Nat) where
  name : String
  /-- The characters left from the name on. -/
  left : Nat
  tag : Except Failure (TagRead n)

def Asked.read (dialect : Dialect) (cs : List Char) : Except Failure (Asked cs.length) := do
  let ⟨c, hc⟩ ← Cursor.enter cs
  let ⟨name, d, hd⟩ ← c.inclusionName
  return ⟨name, c.left,
    TagRead.ofAhead (Nat.lt_of_le_of_lt hd hc) <$>
      (d.inclusionTag dialect name >>= Cursor.closed 0)⟩

end Stencil

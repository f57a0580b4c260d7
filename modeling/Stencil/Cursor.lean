import Stencil.Token

set_option autoImplicit false

/-!
# Cursors

A place inside a tag: the token that is next and the characters after it. Readers return the
cursor they stop at with a proof that it is not behind the one they began with, so that they can
call each other.
-/
namespace Stencil

structure Cursor where
  token : Token
  rest : List Char
  deriving Repr, DecidableEq

namespace Cursor

abbrev Past (c : Cursor) := { d : Cursor // d.rest.length < c.rest.length }

/-- A result and the cursor after it, which is not behind `c`. -/
structure Ahead (c : Cursor) (α : Type) where
  result : α
  cursor : Cursor
  le : cursor.rest.length ≤ c.rest.length

def here {α : Type} (c : Cursor) (result : α) : c.Ahead α := ⟨result, c, Nat.le_refl _⟩

def Past.ahead {c : Cursor} {α : Type} (p : c.Past) (result : α) : c.Ahead α :=
  ⟨result, p.1, Nat.le_of_lt p.2⟩

def Ahead.goOn {c : Cursor} {α β : Type} (a : c.Ahead α) (b : a.cursor.Ahead β) : c.Ahead β :=
  ⟨b.result, b.cursor, Nat.le_trans b.le a.le⟩

def Ahead.map {c : Cursor} {α β : Type} (f : α → β) (a : c.Ahead α) : c.Ahead β :=
  ⟨f a.result, a.cursor, a.le⟩

def chars (c : Cursor) : List Char := c.token.text ++ c.rest

def left (c : Cursor) : Nat := c.chars.length

def found (c : Cursor) : String := String.ofList c.token.text

def fail {α : Type} (c : Cursor) (kind : SyntaxErrorKind) : Except Failure α :=
  .error ⟨c.left, kind⟩

def upTo (c d : Cursor) : String := String.ofList (c.chars.take (c.left - d.left))

def start (cs : List Char) : Except Failure { c : Cursor // c.rest.length < cs.length } :=
  match h : Token.read cs with
  | .ok (token, rest) => .ok ⟨⟨token, rest⟩, Token.length_lt_of_read h⟩
  | .error e => .error e

def next (c : Cursor) : Except Failure c.Past := start c.rest

def eat (kind : TokenKind) (c : Cursor) : Except Failure (Option c.Past) :=
  if c.token.kind = kind then some <$> c.next else .ok none

def skip (kind : TokenKind) (c : Cursor) : Except Failure (c.Ahead Bool) := do
  match ← c.eat kind with
  | some ⟨d, h⟩ => return ⟨true, d, Nat.le_of_lt h⟩
  | none => return c.here false

def expect (kind : TokenKind) (c : Cursor) : Except Failure c.Past := do
  match ← c.eat kind with
  | some past => return past
  | none => c.fail (.unexpectedToken c.found)

/-- Names with the separator before each: the first is given, the others are read. The last
separator must have a name after it. -/
def steps (separator : String) (c : Cursor) : Except Failure (c.Ahead (List (String × String))) :=
  if c.token.kind = .ident then do
    let ⟨d, hd⟩ ← c.next
    if d.token.kind = .dot ∨ d.token.kind = .slash then
      let ⟨e, he⟩ ← d.next
      let ⟨later, f, hf⟩ ← steps d.found e
      return ⟨(separator, c.token.name) :: later, f, by omega⟩
    else return ⟨[(separator, c.token.name)], d, Nat.le_of_lt hd⟩
  else c.fail .expectedIdentAfterSeparator
termination_by c.rest.length

def names? (c : Cursor) : Except Failure (c.Ahead (Option (List (String × String)))) :=
  if c.token.kind = .ident then do
    let ⟨path, d, h⟩ ← c.steps ""
    return ⟨some path, d, h⟩
  else return c.here none

def names (c : Cursor) : Except Failure (c.Ahead (List (String × String))) := do
  let ⟨path, d, h⟩ ← c.names?
  match path with
  | some path => return ⟨path, d, h⟩
  | none => c.fail .expectedIdentList

/-- The steps `..`, `../` and `./` in front of names: the levels they lead out, and unless the
reference ends there, whether they ask for names. -/
def climb (up : Nat) (here : Bool) (c : Cursor) :
    Except Failure (c.Ahead (Nat × Option Bool)) := do
  match ← c.eat .dot with
  | none => return c.here (up, some (here || decide (0 < up)))
  | some ⟨d, hd⟩ =>
    match ← d.eat .dot with
    | some ⟨e, he⟩ =>
      match ← e.eat .slash with
      | some ⟨f, hf⟩ =>
        let ⟨r, g, hg⟩ ← climb (up + 1) here f
        return ⟨r, g, by omega⟩
      | none => return ⟨(up + 1, none), e, by omega⟩
    | none =>
      match ← d.eat .slash with
      | some ⟨e, he⟩ =>
        let ⟨r, f, hf⟩ ← climb up true e
        return ⟨r, f, by omega⟩
      | none => return ⟨(up, none), d, Nat.le_of_lt hd⟩
termination_by c.rest.length

end Cursor
end Stencil

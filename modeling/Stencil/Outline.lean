import Stencil.Tag.Reader

set_option autoImplicit false

/-!
# Outlines of sources

Text and tags are gathered into items. Reading a source asks for each partial as soon as its name
is known, so the answer to that comes before whatever else the source turns out to be.
-/
namespace Stencil

structure OpenBlock where
  call : Call Expr
  chained : Bool
  branch : Branch := .main
  body : List Item := []
  inverse : List Item := []

namespace OpenBlock

def push (item : Item) (b : OpenBlock) : OpenBlock :=
  match b.branch with
  | .main => { b with body := b.body ++ [item] }
  | .inverse => { b with inverse := b.inverse ++ [item] }

def toItem (b : OpenBlock) : Item := .block ⟨b.call, b.body, b.inverse, b.chained⟩

def closeNamed (name : String) (b : OpenBlock) (outer : List OpenBlock) :
    Except SyntaxErrorKind (Item × List OpenBlock) :=
  if b.call.name = name then .ok (b.toItem, outer) else .error (.mismatchedClose b.call.name name)

/-- Closes a block, and with a chained one the block it extends: the item, and the blocks that
stay open. -/
def close (name : String) (b : OpenBlock) :
    List OpenBlock → Except SyntaxErrorKind (Item × List OpenBlock)
  | [] => if b.chained then .error .unbalancedClose else b.closeNamed name []
  | next :: outer =>
    if b.chained then close name (next.push b.toItem) outer else b.closeNamed name (next :: outer)

end OpenBlock

/-- A tree in the making: the finished items, and the open blocks from the innermost out. -/
structure Draft where
  items : List Item := []
  blocks : List OpenBlock := []

namespace Draft

def place (d : Draft) : Option Branch := d.blocks.head?.map OpenBlock.branch

def push (item : Item) (d : Draft) : Draft :=
  match d.blocks with
  | [] => { d with items := d.items ++ [item] }
  | b :: outer => { d with blocks := b.push item :: outer }

def pushText (text : List Char) (d : Draft) : Draft :=
  if text = [] then d else d.push (.text (String.ofList text))

def openBlock (call : Call Expr) (chained : Bool) (d : Draft) : Draft :=
  { d with blocks := { call, chained } :: d.blocks }

def toInverse (d : Draft) : Draft :=
  match d.blocks with
  | [] => d
  | b :: outer => { d with blocks := { b with branch := .inverse } :: outer }

def addTag (tag : Tag) (d : Draft) : Except Failure Draft :=
  match tag with
  | .value true e => .ok (d.push (.escaped e))
  | .value false e => .ok (d.push (.unescaped e))
  | .opening call => .ok (d.openBlock call false)
  | .otherwise => .ok d.toInverse
  | .otherwiseOpening call => .ok (d.toInverse.openBlock call true)
  | .raw call body =>
    let text : List Item := if body = [] then [] else [.text (String.ofList body)]
    .ok (d.push (.block ⟨call, text, [], false⟩))
  | .inclusion i => .ok (d.push (.inclusion i))
  | .closing name left =>
    match d.blocks with
    | [] => .error ⟨left, .unbalancedClose⟩
    | b :: outer =>
      match b.close name outer with
      | .ok (item, blocks) => .ok (push item { d with blocks })
      | .error kind => .error ⟨left, kind⟩

def add (tag : Option Tag) (d : Draft) : Except Failure Draft :=
  match tag with
  | some tag => d.addTag tag
  | none => .ok d

def finish (mark : Nat) (d : Draft) : Except Failure (List Item) :=
  match d.blocks with
  | [] => .ok d.items
  | b :: _ => .error ⟨mark, .blockStillOpen b.call.name⟩

end Draft

inductive Outline
  | finished (items : List Item)
  | failed (f : Failure)
  /-- A partial is asked for, where `left` characters are left, and what comes after that. -/
  | asking (name : String) (left : Nat) (next : Outline)

namespace Outline

def ofExcept : Except Failure (List Item) → Outline
  | .ok items => finished items
  | .error f => failed f

/-- Reads on with text and tags. `trims` and `mark` are those of the tag before. -/
def read (dialect : Dialect) (draft : Draft) (trims : Bool) (mark : Nat) (cs : List Char) :
    Outline :=
  match h : (Text.plain cs).2 with
  | none => ofExcept ((draft.pushText (Text.trimIf trims false (Text.plain cs).1)).finish mark)
  | some inside =>
    let opener := Opener.read inside
    let draft := draft.pushText (Text.trimIf trims opener.trims (Text.plain cs).1)
    let onward (tag : Except Failure (TagRead opener.rest.length)) : Outline :=
      match tag with
      | .error f => failed f
      | .ok r =>
        match draft.add r.tag with
        | .error f => failed f
        | .ok draft =>
          have := Text.length_lt_of_plain h
          have := Opener.read_length inside
          have := r.le
          read dialect draft r.trims (r.mark.getD mark) r.rest
    match opener.sigil with
    | .inclusion =>
      match Asked.read dialect opener.rest with
      | .error f => failed f
      | .ok asked => asking asked.name asked.left (onward asked.tag)
    | _ => onward (TagRead.read dialect draft.place (inside.length + 2) opener)
termination_by cs.length
decreasing_by simp only [opener] at *; omega

def ofSource (dialect : Dialect) (source : String) : Outline :=
  read dialect {} false 0 source.toList

end Outline
end Stencil

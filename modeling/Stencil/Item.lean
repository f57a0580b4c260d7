import Stencil.Expr

set_option autoImplicit false

/-!
# Template items

What a template is made of, in source order.
-/
namespace Stencil

inductive Branch
  | main
  | inverse
  deriving Repr, DecidableEq

structure Block (ι : Type) where
  call : Call Expr
  body : List ι
  inverse : List ι
  /-- Opened by an else tag: it shares the level and the close tag of the block it stands in. -/
  chained : Bool

/-- A partial in place. Its first argument is its context, and the hash is written over that. -/
structure Inclusion where
  name : String
  args : List Expr
  hash : List (String × Expr)

inductive Item
  | text (text : String)
  | escaped (e : Expr)
  | unescaped (e : Expr)
  | block (b : Block Item)
  | inclusion (i : Inclusion)

end Stencil

import Stencil.Value.Basic

set_option autoImplicit false

/-!
# Expressions

What stands inside a tag: constants, references into the context or the `@` data, and calls.
-/
namespace Stencil

/-- A place, `up` levels out, and the names to follow from there. Without names it is the whole
level. -/
structure Reference where
  data : Bool
  up : Nat
  names : List String
  deriving Repr, DecidableEq

inductive Head
  /-- A helper that was registered when the source was read. -/
  | helper (h : Helper)
  /-- The value of a reference if that is a function. If not, the value becomes the first
  argument of the fallback. -/
  | value (r : Reference) (fallback : Option Helper)
  /-- Whether a reference is empty, the argument of the fallback. -/
  | negated (r : Reference) (fallback : Option Helper)
  deriving Repr, DecidableEq

structure Call (ε : Type) where
  /-- The head as written. -/
  name : String
  head : Head
  args : List ε
  hash : List (String × ε)

inductive Expr
  | const (v : Value)
  /-- With `invoke`, a function found there is called. -/
  | reference (r : Reference) (invoke : Bool)
  | call (c : Call Expr)

end Stencil

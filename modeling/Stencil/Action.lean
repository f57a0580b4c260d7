import Stencil.Error
import Stencil.Item

set_option autoImplicit false

/-!
# Actions of helpers

A helper is told about its call and answers with an action: a tree of requests, each with a
continuation for the reply. Requests can render the bodies of the call, call other functions,
report events and use the state of the host.
-/
namespace Stencil

/-- What an environment and its templates report while they work. Lengths are in UTF-8 bytes. -/
inductive Event
  | compilingTemplate (length : Nat)
  | cacheHit (length : Nat)
  | compilingPartial (name : String)
  | undefinedValue (path : String)
  | logged (message value : String)
  deriving Repr, DecidableEq

structure Invocation where
  this : Value
  args : List Value
  /-- The head of the call as written. -/
  name : String
  hash : Object
  data : Object
  isBlock : Bool

inductive Action (σ : Type)
  | done (v : Value)
  | fail (e : TemplateError)
  /-- Renders a body of the call, which is empty where the call has none. With `data`, that takes
  the place of the call's data. -/
  | render (branch : Branch) (context : Value) (data : Option Object)
      (next : Except TemplateError String → Action σ)
  /-- Calls a function with the rest of this call. -/
  | call (f : Helper) (this : Value) (args : List Value)
      (next : Except TemplateError Value → Action σ)
  | report (e : Event) (next : Action σ)
  | read (next : σ → Action σ)
  | write (state : σ) (next : Action σ)

/-- What the functions of the host do, by their handles. -/
abbrev Host (σ : Type) := Nat → Invocation → Action σ

namespace Action
variable {σ : Type}

def ofText : Except TemplateError String → Action σ
  | .ok text => done (.string text)
  | .error e => fail e

def body (branch : Branch) (context : Value) : Action σ := render branch context none ofText

def bodies (text : String) (next : String → Action σ) : List (Value × Object) → Action σ
  | [] => next text
  | (context, data) :: rest =>
    render .main context (some data) fun
      | .ok more => bodies (text ++ more) next rest
      | .error e => fail e

end Action
end Stencil

import Stencil.Builtin
import Stencil.Frame

set_option autoImplicit false

/-!
# Rendering

Rendering walks the items of a template and follows the actions of helpers. It recurses on the
items, except that an inclusion and a function which is called on its own open a further
rendering; how deep those may nest is limited, and reaching the limit gives no result at all.
-/
namespace Stencil

structure World (σ : Type) where
  state : σ
  events : List Event := []

/-- A computation that can end in an error, and then keeps what it changed. -/
abbrev Render (σ : Type) := ExceptT TemplateError (StateT (World σ) Option)

namespace Render
variable {σ : Type} {α : Type}

def tooDeep : Render σ α := fun _ => none

def report (e : Event) : Render σ Unit := modify fun w => { w with events := w.events ++ [e] }

def outcome (x : Render σ α) : Render σ (Except TemplateError α) := ExceptT.lift x.run

end Render

namespace Action
variable {σ : Type}

def run (render : Branch → Value → Option Object → Render σ String)
    (call : Helper → Value → List Value → Render σ Value) : Action σ → Render σ Value
  | done v => pure v
  | fail e => throw e
  | .render branch context data next => do
    let reply ← Render.outcome (render branch context data)
    run render call (next reply)
  | .call f this args next => do
    let reply ← Render.outcome (call f this args)
    run render call (next reply)
  | report e next => do
    Render.report e
    run render call next
  | .read next => do
    let w ← get
    run render call (next w.state)
  | .write state next => do
    modify fun w => { w with state := state }
    run render call next

end Action

def Helper.act {σ : Type} (host : Host σ) (f : Helper) (i : Invocation) : Action σ :=
  match f with
  | .builtin b => b.act i
  | .custom handle => host handle i

structure Renderer (σ : Type) where
  host : Host σ
  /-- The template that a name leads to inside a template with the given links. -/
  partial? : Dict Target → String → Option Template
  /-- A further rendering of items. -/
  nested : Frame → Value → List Item → Render σ String
  /-- A further call, which can render the bodies of the frame. -/
  nestedCall : Frame → Helper → Value → List Value → Render σ Value

namespace Renderer
variable {σ : Type}

/-- The value of a reference. A function that it leads to is called with the frame as it is. -/
def refer (r : Renderer σ) (f : Frame) (this : Value) (ref : Reference) (invoke : Bool) :
    Render σ Value :=
  match ref.data || ref.names.isEmpty, f.find this ref with
  | true, (_, v) => pure v
  | false, (_, .undefined) => do
    Render.report (.undefinedValue (".".intercalate ref.names))
    return .undefined
  | false, (owner, .function g) =>
    if invoke then r.nestedCall f g owner [] else pure (.function g)
  | false, (_, v) => pure v

/-- The helper for a head that is no function, with the value of the head as first argument. -/
def fallBack (name : String) (fallback : Option Helper) (v : Value) :
    Render σ (Helper × List Value) :=
  match fallback with
  | some h => pure (h, [v])
  | none => throw (.missingHelper name)

def callee (r : Renderer σ) (f : Frame) (this : Value) (name : String) :
    Head → Render σ (Helper × List Value)
  | .helper h => pure (h, [])
  | .value ref fallback => do
    match ← r.refer f this ref false with
    | .function g => return (g, [])
    | v => fallBack name fallback v
  | .negated ref fallback => do
    let v ← r.refer f this ref false
    fallBack name fallback (.bool v.isEmpty)

def invoke (r : Renderer σ) (f : Frame) (render : Branch → Value → Option Object → Render σ String)
    (h : Helper) (this : Value) (args : List Value) : Render σ Value :=
  (h.act r.host (f.invocation this args)).run render (r.nestedCall f)

mutual

def eval (r : Renderer σ) (f : Frame) (this : Value) : Expr → Render σ Value
  | .const v => pure v
  | .reference ref invoke => r.refer f this ref invoke
  | .call ⟨name, head, args, hash⟩ => do
    let (h, first) ← r.callee f this name head
    let args ← r.evalArgs f this args
    let hash ← r.evalHash f this hash
    r.invoke (f.enter this name (.ofList hash) none false) (fun _ _ _ => pure "") h this
      (first ++ args)

def evalArgs (r : Renderer σ) (f : Frame) (this : Value) : List Expr → Render σ (List Value)
  | [] => return []
  | e :: rest => do
    let v ← r.eval f this e
    let vs ← r.evalArgs f this rest
    return v :: vs

def evalHash (r : Renderer σ) (f : Frame) (this : Value) :
    List (String × Expr) → Render σ (List (String × Value))
  | [] => return []
  | (key, e) :: rest => do
    let v ← r.eval f this e
    let vs ← r.evalHash f this rest
    return (key, v) :: vs

end

/-- The context of an inclusion: its first argument or the context around it, as an object with
the hash written over it if there is one. -/
def inclusionContext (r : Renderer σ) (f : Frame) (this : Value) (i : Inclusion) :
    Render σ Value := do
  let context ← match i.args with
    | [] => pure this
    | e :: _ => r.eval f this e
  if i.hash.isEmpty then return context
  else
    let fields : Object := match context with
      | .object fields => fields
      | _ => ⟨[]⟩
    let hash ← r.evalHash f this i.hash
    return .object (fields.extend hash)

def renderInclusion (r : Renderer σ) (f : Frame) (this : Value) (i : Inclusion) :
    Render σ String := do
  match r.partial? f.links i.name with
  | none => throw (.missingPartial i.name)
  | some template =>
    let context ← r.inclusionContext f this i
    r.nested (f.included context template.links) context template.items

mutual

def renderItem (r : Renderer σ) (f : Frame) (this : Value) : Item → Render σ String
  | .text text => pure text
  | .escaped e => do
    let v ← r.eval f this e
    return v.escaped
  | .unescaped e => do
    let v ← r.eval f this e
    return v.text
  | .block ⟨call, body, inverse, chained⟩ => do
    let (h, first) ← r.callee f this call.name call.head
    let args ← r.evalArgs f this call.args
    let hash ← r.evalHash f this call.hash
    let inner := f.enter this call.name (.ofList hash) (some (body, inverse)) chained
    let render (branch : Branch) (context : Value) (data : Option Object) : Render σ String :=
      match branch with
      | .main => r.render (inner.withData data) context body
      | .inverse => r.render (inner.withData data) context inverse
    let v ← r.invoke inner render h this (first ++ args)
    return v.text
  | .inclusion i => r.renderInclusion f this i

def render (r : Renderer σ) (f : Frame) (this : Value) : List Item → Render σ String
  | [] => return ""
  | item :: items => do
    let text ← r.renderItem f this item
    let rest ← r.render f this items
    return text ++ rest

end

/-- A call inside another rendering: the bodies of the frame are rendered anew. -/
def callAnew (r : Renderer σ) (f : Frame) (h : Helper) (this : Value) (args : List Value) :
    Render σ Value :=
  r.invoke f (fun branch context data => r.nested (f.withData data) context (f.body branch)) h
    this args

end Renderer

def renderer {σ : Type} (host : Host σ) (partial? : Dict Target → String → Option Template) :
    Nat → Renderer σ
  | 0 => ⟨host, partial?, fun _ _ _ => Render.tooDeep, fun _ _ _ _ => Render.tooDeep⟩
  | depth + 1 =>
    ⟨host, partial?, fun f this items => (renderer host partial? depth).render f this items,
      fun f h this args => (renderer host partial? depth).callAnew f h this args⟩

/-- The text of a template for a context, which is also the root of the data. -/
def Template.render {σ : Type} (t : Template) (host : Host σ)
    (partial? : Dict Target → String → Option Template) (depth : Nat) (context : Value)
    (seed : Object) : Render σ String :=
  (renderer host partial? depth).render (Frame.root context seed t.links) context t.items

end Stencil

import Stencil.Compile
import Stencil.Render

set_option autoImplicit false

/-!
# Environments

A registry of helpers and partials, defaults for the flags, and a cache of compiled templates by
their source text. Options given with a call are laid over the registry for that call; what is
compiled under them is not remembered, except in the cache.
-/
namespace Stencil

/-- A registered partial: its source is compiled when it is first asked for. -/
inductive Partial
  | source (text : String)
  | compiled (id : TemplateId)
  deriving Repr, DecidableEq

namespace Partial

def source? : Partial → Option String
  | source text => some text
  | compiled _ => none

def compiled? : Partial → Option TemplateId
  | source _ => none
  | compiled id => some id

end Partial

structure Options where
  helpers : Dict Helper := ⟨[]⟩
  partials : Dict Partial := ⟨[]⟩
  /-- Added to the data of the root level. -/
  data : Object := ⟨[]⟩
  knownHelpersOnly : Option Bool := none
  noFunctionValues : Option Bool := none

structure Environment where
  helpers : Dict Helper := Builtin.registry
  partials : Dict Partial := ⟨[]⟩
  cache : Dict TemplateId := ⟨[]⟩
  knownHelpersOnly : Bool := false
  noFunctionValues : Bool := false

namespace Environment

def overlaid (e : Environment) (o : Options) : Environment :=
  { e with
    helpers := e.helpers.extend o.helpers.entries
    partials := e.partials.extend o.partials.entries }

/-- Without functions as values, only helpers can be called. -/
def dialect (e : Environment) (o : Options) : Dialect :=
  let noFunctionValues := o.noFunctionValues.getD e.noFunctionValues
  { helpers := (e.overlaid o).helpers
    knownHelpersOnly := noFunctionValues || o.knownHelpersOnly.getD e.knownHelpersOnly
    noFunctionValues }

def waiting (e : Environment) : Dict String :=
  ⟨e.partials.entries.filterMap fun (name, p) => p.source?.map (name, ·)⟩

def compiledPartials (e : Environment) : Dict TemplateId :=
  ⟨e.partials.entries.filterMap fun (name, p) => p.compiled?.map (name, ·)⟩

def remember (e : Environment) (compiled : Dict TemplateId) : Environment :=
  { e with
    partials := ⟨e.partials.entries.map fun (name, p) =>
      (name, ((compiled.get? name).map Partial.compiled).getD p)⟩ }

def held (e : Environment) : List TemplateId := e.compiledPartials.values ++ e.cache.values

end Environment

def Options.overlay (o : Options) : Bool := !o.helpers.isEmpty || !o.partials.isEmpty

/-- An environment at work, with the library that its templates are in, the templates that are
held elsewhere, and the events so far. -/
structure Session where
  environment : Environment := {}
  library : Library := {}
  heldElsewhere : List TemplateId := []
  events : List Event := []

namespace Session

def report (event : Event) (s : Session) : Session := { s with events := s.events ++ [event] }

def compileUncached (source : String) (o : Options) :
    StateM Session (Except TemplateError TemplateId) := do
  let s ← get
  let registry := s.environment.overlaid o
  let shelf : Shelf := { library := s.library, compiled := registry.compiledPartials }
  let (outcome, shelf) := compile (s.environment.dialect o) registry.waiting source shelf
  let environment :=
    if o.overlay then s.environment else s.environment.remember shelf.compiled
  let events := s.events ++ shelf.events
  match outcome with
  | .error e =>
    set { s with environment, library := shelf.library, events }
    return .error e
  | .ok t =>
    set { s with environment, library := shelf.library.add t, events }
    return .ok shelf.library.next

/-- Compiles a source, unless the cache has it. A source that fails is not cached. -/
def compile (source : String) (o : Options) :
    StateM Session (Except TemplateError TemplateId) := do
  let s ← get
  match s.environment.cache.get? source with
  | some id =>
    modify (report (.cacheHit source.utf8ByteSize))
    return .ok id
  | none =>
    modify (report (.compilingTemplate source.utf8ByteSize))
    let outcome ← compileUncached source o
    if let .ok id := outcome then
      modify fun s =>
        { s with environment.cache := s.environment.cache.insert source id }
    return outcome

end Session

/-- The text of a template in the library, given the templates that are held besides it. A number
that no template has stands for the empty one. -/
def Library.render {σ : Type} (l : Library) (held : List TemplateId) (host : Host σ)
    (depth : Nat) (id : TemplateId) (context : Value) (data : Object) : Render σ String :=
  match l.get? id with
  | none => return ""
  | some t => t.render host (l.partial? (l.reach (id :: held))) depth context data

namespace Session
variable {σ : Type}

def render (host : Host σ) (depth : Nat) (source : String) (context : Value) (o : Options)
    (state : σ) (s : Session) : Option (Except TemplateError String × σ × Session) :=
  match Session.compile source o s with
  | (.error e, s) => some (.error e, state, s)
  | (.ok id, s) => do
    let held := s.environment.held ++ s.heldElsewhere
    let (outcome, world) ←
      (s.library.render held host depth id context o.data).run { state, events := s.events }
    return (outcome, world.state, { s with events := world.events })

end Session
end Stencil

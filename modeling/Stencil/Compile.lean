import Stencil.Builtin
import Stencil.Library
import Stencil.Outline

set_option autoImplicit false

/-!
# Compiling

A partial is compiled when it is first asked for, and the result is remembered. Asked for again
while that compilation is still going on, it is a pending target. Each partial that waits to be
compiled leaves the waiting ones for the time of its compilation, so the nesting ends.
-/
namespace Stencil

def Failure.error (source : String) (f : Failure) : TemplateError :=
  .syntaxError ⟨Position.at source.toList (source.length - f.left), f.kind⟩

/-- What compilations share: the partials that are complete, and those in progress. -/
structure Shelf where
  library : Library
  compiled : Dict TemplateId
  inProgress : Dict TemplateId := ⟨[]⟩
  events : List Event := []

/-- Answers the questions of an outline. A partial without an answer is missing. -/
def Outline.link {σ : Type} (source : String)
    (ask : String → StateM σ (Except TemplateError (Option Target))) (links : Dict Target) :
    Outline → StateM σ (Except TemplateError Template)
  | .finished items => return .ok ⟨source, items, links⟩
  | .failed f => return .error (f.error source)
  | .asking name left next => do
    match ← ask name with
    | .error e => return .error e
    | .ok none => return .error (Failure.error source ⟨left, .missingPartial name⟩)
    | .ok (some target) => next.link source ask (links.insert name target)

namespace Shelf

def start (name : String) (s : Shelf) : Shelf :=
  { s with
    library := s.library.reserve
    inProgress := s.inProgress.insert name s.library.next
    events := s.events ++ [.compilingPartial name] }

def stop (name : String) (id : TemplateId) (outcome : Except TemplateError Template) (s : Shelf) :
    Shelf :=
  let s := { s with inProgress := s.inProgress.erase name }
  match outcome with
  | .error _ => s
  | .ok t => { s with library := s.library.put id t, compiled := s.compiled.insert name id }

end Shelf

def resolve (dialect : Dialect) (waiting : Dict String) (name : String) :
    StateM Shelf (Except TemplateError (Option Target)) := do
  let s ← get
  match s.inProgress.get? name, s.compiled.get? name with
  | some id, _ => return .ok (some (.pending id))
  | none, some id => return .ok (some (.compiled id))
  | none, none =>
    match h : waiting.get? name with
    | none => return .ok none
    | some source =>
      have := Dict.size_erase_lt h
      let id := s.library.next
      modify (Shelf.start name)
      let outcome ← (Outline.ofSource dialect source).link source
        (fun other => resolve dialect (waiting.erase name) other) ⟨[]⟩
      modify (Shelf.stop name id outcome)
      return outcome.map fun _ => some (.compiled id)
termination_by waiting.size

def compile (dialect : Dialect) (waiting : Dict String) (source : String) :
    StateM Shelf (Except TemplateError Template) :=
  (Outline.ofSource dialect source).link source (resolve dialect waiting) ⟨[]⟩

def Template.ofSource (source : String) : Except TemplateError Template :=
  let outline := Outline.ofSource { helpers := Builtin.registry } source
  ((outline.link source (fun _ => pure (.ok none)) ⟨[]⟩).run ()).1

end Stencil

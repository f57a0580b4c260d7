import Stencil.Template

set_option autoImplicit false

/-!
# The library of compiled templates

A template stays reachable while something holds it: a registration, a cache, a saved handle or a
reachable template that includes it as a compiled target. A pending target keeps nothing, so it
leads to its template only while that is reachable.
-/
namespace Stencil

structure Library where
  templates : List (TemplateId × Template) := []
  /-- The number of the next compilation. -/
  next : TemplateId := 0

namespace Library

def get? (l : Library) (id : TemplateId) : Option Template :=
  (l.templates.find? fun entry => entry.1 = id).map Prod.snd

def reserve (l : Library) : Library := { l with next := l.next + 1 }

def put (l : Library) (id : TemplateId) (t : Template) : Library :=
  { l with templates := (id, t) :: l.templates }

def add (l : Library) (t : Template) : Library := l.reserve.put l.next t

def Target.kept? : Target → Option TemplateId
  | .compiled id => some id
  | .pending _ => none

def keeps (l : Library) (id : TemplateId) : List TemplateId :=
  match l.get? id with
  | some t => t.links.values.filterMap Target.kept?
  | none => []

def reachIn (l : Library) : Nat → List TemplateId → List TemplateId
  | 0, ids => ids
  | n + 1, ids => l.reachIn n (ids ++ ids.flatMap l.keeps).eraseDups

/-- The templates that are reachable from those that are held. A chain of templates is no longer
than the library. -/
def reach (l : Library) (held : List TemplateId) : List TemplateId :=
  l.reachIn l.templates.length held

def resolve (l : Library) (reachable : List TemplateId) : Target → Option Template
  | .compiled id => l.get? id
  | .pending id => if id ∈ reachable then l.get? id else none

def partial? (l : Library) (reachable : List TemplateId) (links : Dict Target) (name : String) :
    Option Template :=
  (links.get? name).bind (l.resolve reachable)

end Library
end Stencil

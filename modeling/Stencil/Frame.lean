import Stencil.Action
import Stencil.Template

set_option autoImplicit false

/-!
# Frames

Every call and every inclusion opens a level that remembers a context and has data. A frame is
the innermost level with what else its call brought, and the levels around it.
-/
namespace Stencil

structure Level where
  context : Value
  data : Object

structure Frame extends Level where
  hash : Object := ⟨[]⟩
  name : String := ""
  /-- The main and the inverse body, if the call is a block. -/
  bodies : Option (List Item × List Item) := none
  links : Dict Target
  /-- The levels around this one, the nearest first. -/
  outer : List Level := []

/-- The values that `names` lead to from a value, until there is nothing to follow: the last one,
and the one it is a property of. -/
def Value.follow (owner : Value) : Value → List String → Value × Value
  | v, [] => (owner, v)
  | v, name :: names =>
    if v.isNullish then (owner, v) else Value.follow v (v.get name) names

namespace Frame

/-- The level that a template starts at. The seed may replace the root entry. -/
def root (context : Value) (seed : Object) (links : Dict Target) : Frame where
  context := .undefined
  data := Dict.extend ⟨[("root", context)]⟩ seed.entries
  links := links

def included (f : Frame) (context : Value) (links : Dict Target) : Frame where
  context := context
  data := f.data
  links := links
  outer := f.toLevel :: f.outer

/-- The level of a call. A chained block takes the place of the level it stands in. -/
def enter (f : Frame) (context : Value) (name : String) (hash : Object)
    (bodies : Option (List Item × List Item)) (chained : Bool) : Frame where
  context := context
  data := f.data
  hash := hash
  name := name
  bodies := bodies
  links := f.links
  outer := if chained && !f.outer.isEmpty then f.outer else f.toLevel :: f.outer

def walk (f : Frame) (n : Nat) : Option Level := (f.toLevel :: f.outer)[n]?

def body (f : Frame) : Branch → List Item
  | .main => (f.bodies.map Prod.fst).getD []
  | .inverse => (f.bodies.map Prod.snd).getD []

def withData (f : Frame) (data : Option Object) : Frame :=
  { f with data := data.getD f.data }

def invocation (f : Frame) (this : Value) (args : List Value) : Invocation :=
  ⟨this, args, f.name, f.hash, f.data, f.bodies.isSome⟩

def base (f : Frame) (this : Value) (r : Reference) : Value :=
  match r.data, r.up with
  | true, up => ((f.walk up).map fun level => Value.object level.data).getD .undefined
  | false, 0 => this
  | false, up + 1 => ((f.walk up).map Level.context).getD .undefined

def find (f : Frame) (this : Value) (r : Reference) : Value × Value :=
  Value.follow .undefined (f.base this r) r.names

end Frame
end Stencil

import Stencil.Action
import Stencil.Value.Inspect

set_option autoImplicit false

/-!
# The built-in helpers
-/
namespace Stencil
namespace Builtin
variable {σ : Type}

def all : List (String × Builtin) :=
  [("noop", noop), ("with", withBlock), ("if", ifBlock), ("unless", unlessBlock),
    ("each", eachBlock), ("lookup", lookup), ("log", log), ("blockHelperMissing", blockMissing),
    ("helperMissing", callMissing)]

def arity? : Builtin → Option Nat
  | noop => some 0
  | withBlock | ifBlock | unlessBlock | eachBlock | log | blockMissing => some 1
  | lookup => some 2
  | callMissing => none

/-- The data of one round of a block: what it adds is seen in this round only. -/
def roundData (data : Object) (first : Bool) (second : String × Value) (index : Nat) : Object :=
  ((data.insert "first" (.bool first)).insert second.1 second.2).insert "index" (.ofNat index)

def rounds (data : Object) : Value → List (Value × Object)
  | .array items =>
    items.zipIdx.map fun (item, i) =>
      (item, roundData data (i = 0) ("last", .bool (i + 1 = items.length)) i)
  | .object fields =>
    fields.entries.zipIdx.map fun ((key, item), i) =>
      (item, roundData data (i = 0) ("key", .string key) i)
  | _ => []

def eachAction (i : Invocation) (v : Value) : Action σ :=
  match rounds i.data v with
  | [] => .body .inverse i.this
  | rounds => Action.bodies "" (fun text => .done (.string text)) rounds

def choose (i : Invocation) (v full : Value) : Action σ :=
  if v.isEmpty then .body .inverse i.this else .body .main full

/-- A section without a helper: by what its value is. -/
def sectionAction (i : Invocation) (v : Value) : Action σ :=
  if v.isEmpty then .body .inverse i.this
  else if v.isArray then eachAction i v
  else if v.isObject then .body .main v
  else .body .main i.this

def act (b : Builtin) (i : Invocation) : Action σ :=
  match b, i.args with
  | noop, [] => .body .main i.this
  | withBlock, [v] => choose i v v
  | ifBlock, [v] => choose i v i.this
  | unlessBlock, [v] =>
    if v.isEmpty then .body .main i.this else .body .inverse i.this
  | eachBlock, [v] => eachAction i v
  | lookup, [v, key] => .done (if v.isTruthy then v.get key.text else .null)
  | log, [v] => .report (.logged v.text v.inspect) (.done (.string ""))
  | blockMissing, [v] => sectionAction i v
  | callMissing, _ => .fail (.missingHelper i.name)
  | b, args => .fail (.wrongArgumentCount i.name args.length (b.arity?.getD 0))

def registry : Dict Helper := ⟨all.map fun (name, b) => (name, .builtin b)⟩

end Builtin
end Stencil

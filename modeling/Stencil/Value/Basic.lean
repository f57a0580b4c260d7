import Stencil.Dict
import Stencil.Decimal.Text
import Stencil.Text.Html

set_option autoImplicit false

/-!
# Values

The values that templates read and helpers return. A function is known by a handle alone: two
functions are equal iff their handles are, and what a custom one does is the host's affair.
-/
namespace Stencil

inductive Builtin
  | noop | withBlock | ifBlock | unlessBlock | eachBlock | lookup | log | blockMissing | callMissing
  deriving Repr, DecidableEq

/-- A helper, or a function value: one of the library's, or a handle the host gave out. -/
inductive Helper
  | builtin (b : Builtin)
  | custom (handle : Nat)
  deriving Repr, DecidableEq

inductive Value
  | undefined
  | null
  | bool (b : Bool)
  | number (x : Float)
  | string (text : String)
  /-- Text that is HTML already and never escaped. -/
  | safe (text : String)
  | array (items : List Value)
  | object (fields : Dict Value)
  | function (f : Helper)

abbrev Object := Dict Value

namespace Value

instance : Inhabited Value := ⟨.undefined⟩

def ofNat (n : Nat) : Value := .number (Float.ofNat n)

def isUndefined : Value → Bool
  | undefined => true
  | _ => false

def isNullish : Value → Bool
  | undefined | null => true
  | _ => false

def isFunction : Value → Bool
  | function _ => true
  | _ => false

def isArray : Value → Bool
  | array _ => true
  | _ => false

/-- Arrays, functions and safe text count as objects. -/
def isObject : Value → Bool
  | array _ | object _ | function _ | safe _ => true
  | _ => false

/-- False, zero, NaN, empty text and the nullish values are the only ones that are not true. -/
def isTruthy : Value → Bool
  | undefined | null => false
  | bool b => b
  | number x => x != 0 && !x.isNaN
  | string text => text ≠ ""
  | safe _ | array _ | object _ | function _ => true

/-- What conditions and sections go by: an empty array is empty although it is true. -/
def isEmpty : Value → Bool
  | array items => items.isEmpty
  | v => !v.isTruthy

def position? (key : String) : Option Nat :=
  let digits : List Char := match key.toList with
    | '+' :: digits => digits
    | digits => digits
  if digits ≠ [] ∧ digits.all Char.isDigit then
    some (digits.foldl (fun n c => 10 * n + (c.toNat - '0'.toNat)) 0)
  else none

def get (key : String) : Value → Value
  | object fields => (fields.get? key).getD undefined
  | array items =>
    if key = "length" then ofNat items.length
    else ((position? key).bind (items[·]?)).getD undefined
  | string text | safe text => if key = "length" then ofNat text.length else undefined
  | _ => undefined

mutual

def text : Value → String
  | undefined | null => ""
  | bool true => "true"
  | bool false => "false"
  | number x => Decimal.numberText x
  | string s | safe s => s
  | array items => ",".intercalate (texts items)
  | object _ => "[object Object]"
  | function _ => "[function]"

def texts : List Value → List String
  | [] => []
  | v :: vs => v.text :: texts vs

end

theorem texts_eq_map (vs : List Value) : texts vs = vs.map text := by
  induction vs with
  | nil => rfl
  | cons v vs ih => rw [texts, ih, List.map_cons]

/-- The text of a value with its special characters escaped, unless it is safe. -/
def escaped : Value → String
  | safe text => text
  | v => Html.escape v.text

end Value
end Stencil

import Stencil.Value.Basic

set_option autoImplicit false

/-!
# JSON

JSON data as the library exchanges it: objects keep the order of their keys, and whole numbers
are told apart from others.
-/
namespace Stencil

inductive JsonNumber
  | int (n : Int)
  | float (x : Float)

def JsonNumber.toFloat : JsonNumber → Float
  | int n => Float.ofInt n
  | float x => x

inductive Json
  | null
  | bool (b : Bool)
  | number (n : JsonNumber)
  | string (text : String)
  | array (items : List Json)
  | object (fields : Dict Json)

namespace Json

instance : Inhabited Json := ⟨.null⟩

def nat (n : Nat) : Json := .number (.int n)

def word? : Json → Option Nat
  | .number (.int n) => if 0 ≤ n ∧ n < 18446744073709551616 then some n.toNat else none
  | _ => none

def text? : Json → Option String
  | .string text => some text
  | _ => none

end Json

namespace Value

mutual

def ofJson : Json → Value
  | .null => null
  | .bool b => bool b
  | .number n => number n.toFloat
  | .string text => string text
  | .array items => array (ofJsonItems items)
  | .object ⟨entries⟩ => object ⟨ofJsonEntries entries⟩

def ofJsonItems : List Json → List Value
  | [] => []
  | j :: js => ofJson j :: ofJsonItems js

def ofJsonEntries : List (String × Json) → List (String × Value)
  | [] => []
  | (key, j) :: rest => (key, ofJson j) :: ofJsonEntries rest

end

end Value
end Stencil

import Stencil.Value.Basic

set_option autoImplicit false

/-!
# Equality of values

Numbers are compared as numbers, so NaN differs from itself and the two zeros are equal; objects
regardless of the order of their keys; functions by their handles.
-/
namespace Stencil.Value

mutual

def same : Value → Value → Bool
  | undefined, undefined | null, null => true
  | bool a, bool b => a = b
  | number a, number b => a == b
  | string a, string b | safe a, safe b => a = b
  | array a, array b => sameItems a b
  | object ⟨a⟩, object b => a.length = b.size && sameFields a b
  | function f, function g => f = g
  | _, _ => false

def sameItems : List Value → List Value → Bool
  | [], [] => true
  | a :: as, b :: bs => same a b && sameItems as bs
  | _, _ => false

def sameFields : List (String × Value) → Dict Value → Bool
  | [], _ => true
  | (key, a) :: rest, fields =>
    (match fields.get? key with
      | some b => same a b
      | none => false) && sameFields rest fields

end

instance : BEq Value := ⟨same⟩

end Stencil.Value

import Stencil.Text.Quoted
import Stencil.Value.Basic

set_option autoImplicit false

/-!
# Values for inspection

Two forms that tell all values apart but functions: one on a single line, and one with an item
on each line, indented by four spaces for every level.
-/
namespace Stencil.Value

def inspectLeaf : Value → String
  | undefined => "undefined"
  | null => "null"
  | string text => Text.quoted text
  | safe text => "Safe(" ++ Text.quoted text ++ ")"
  | v => v.text

mutual

def inspect : Value → String
  | array items => "[" ++ ", ".intercalate (inspectItems items) ++ "]"
  | object ⟨entries⟩ => "\x7b" ++ ", ".intercalate (inspectEntries entries) ++ "\x7d"
  | v => inspectLeaf v

def inspectItems : List Value → List String
  | [] => []
  | v :: vs => v.inspect :: inspectItems vs

def inspectEntries : List (String × Value) → List String
  | [] => []
  | (key, v) :: rest => (Text.quoted key ++ ": " ++ v.inspect) :: inspectEntries rest

end

def indentation (depth : Nat) : String := String.ofList (List.replicate (4 * depth) ' ')

def bracketLines (depth : Nat) (opening closing : String) (lines : List String) : String :=
  if lines.isEmpty then opening ++ closing
  else
    opening ++ "\n" ++ String.join (lines.map fun line => indentation (depth + 1) ++ line ++ ",\n")
      ++ indentation depth ++ closing

mutual

def inspectLines (depth : Nat) : Value → String
  | array items => bracketLines depth "[" "]" (itemLines (depth + 1) items)
  | object ⟨entries⟩ => bracketLines depth "\x7b" "\x7d" (entryLines (depth + 1) entries)
  | v => inspectLeaf v

def itemLines (depth : Nat) : List Value → List String
  | [] => []
  | v :: vs => v.inspectLines depth :: itemLines depth vs

def entryLines (depth : Nat) : List (String × Value) → List String
  | [] => []
  | (key, v) :: rest => (Text.quoted key ++ ": " ++ v.inspectLines depth) :: entryLines depth rest

end

def inspectPretty (v : Value) : String := v.inspectLines 0

end Stencil.Value

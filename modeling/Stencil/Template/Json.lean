import Stencil.Compile
import Stencil.Json

set_option autoImplicit false

/-!
# Templates as JSON

Only the source of a template is written. Reading compiles it again, with the built-in helpers
and without partials.
-/
namespace Stencil.Template

def toJson (t : Template) : Json := .object ⟨[("source", .string t.source)]⟩

def sourceOfJson? : Json → Option String
  | .object fields => (fields.get? "source").bind Json.text?
  | .array [source] => source.text?
  | _ => none

def ofJson? (j : Json) : Option (Except TemplateError Template) :=
  (sourceOfJson? j).map ofSource

def ofJsonMessage (e : TemplateError) : String := "Failed to compile template: " ++ e.message

end Stencil.Template

import Stencil.Item

set_option autoImplicit false

/-!
# Templates

A template is a source with its items and, for each partial it includes, the template that was
meant when it was compiled.
-/
namespace Stencil

/-- Every compilation gets a number of its own. -/
abbrev TemplateId := Nat

inductive Target
  /-- A template that was complete. It is kept for as long as the one that includes it. -/
  | compiled (id : TemplateId)
  /-- A template that was still being compiled, because it includes itself. It is not kept. -/
  | pending (id : TemplateId)
  deriving Repr, DecidableEq

structure Template where
  source : String
  items : List Item
  links : Dict Target

end Stencil

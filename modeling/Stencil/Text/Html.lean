set_option autoImplicit false

/-!
# HTML escaping

Five characters are written as entities; all others stand for themselves.
-/
namespace Stencil.Html

def specials : List Char := ['&', '<', '>', '"', '\'']

def entity : Char → List Char
  | '&' => ['&', 'a', 'm', 'p', ';']
  | '<' => ['&', 'l', 't', ';']
  | '>' => ['&', 'g', 't', ';']
  | '"' => ['&', 'q', 'u', 'o', 't', ';']
  | '\'' => ['&', '#', '3', '9', ';']
  | c => [c]

def escapeChars (cs : List Char) : List Char := cs.flatMap entity

def write (out : String) : List Char → String
  | [] => out
  | c :: cs => write (out ++ String.ofList (entity c)) cs

/-- A text without special characters is given back as it is. -/
def escape (text : String) : String :=
  if text.toList.any specials.contains then write "" text.toList else text

theorem escapeChars_append (cs ds : List Char) :
    escapeChars (cs ++ ds) = escapeChars cs ++ escapeChars ds :=
  List.flatMap_append

theorem entity_of_not_mem {c : Char} (h : c ∉ specials) : entity c = [c] := by
  unfold entity
  split <;> first | rfl | exact absurd (by decide) h

theorem escapeChars_of_forall_not_mem {cs : List Char} (h : ∀ c ∈ cs, c ∉ specials) :
    escapeChars cs = cs := by
  induction cs with
  | nil => rfl
  | cons c cs ih =>
    obtain ⟨hc, hcs⟩ := List.forall_mem_cons.1 h
    rw [escapeChars, List.flatMap_cons, entity_of_not_mem hc, List.singleton_append]
    exact congrArg (c :: ·) (ih hcs)

theorem write_eq (out : String) (cs : List Char) :
    write out cs = out ++ String.ofList (escapeChars cs) := by
  induction cs generalizing out with
  | nil => exact String.append_empty.symm
  | cons c cs ih =>
    rw [write, ih, String.append_assoc, ← String.ofList_append]
    rfl

theorem escape_eq (text : String) : escape text = String.ofList (escapeChars text.toList) := by
  unfold escape
  split
  · rw [write_eq, String.empty_append]
  · next hspecial =>
    have hnone : ∀ c ∈ text.toList, c ∉ specials := by
      simpa using hspecial
    rw [escapeChars_of_forall_not_mem hnone, String.ofList_toList]

theorem toList_escape (text : String) : (escape text).toList = escapeChars text.toList := by
  rw [escape_eq, String.toList_ofList]

end Stencil.Html

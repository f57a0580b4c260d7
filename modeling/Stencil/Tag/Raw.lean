import Stencil.Tag
import Stencil.Text.Characters
import Stencil.Text.Plain

set_option autoImplicit false

/-!
# Raw bodies

The body of a raw block reaches to the first closing tag of its name and is taken as it stands.
-/
namespace Stencil

structure RawEnd where
  trimsBefore : Bool
  trimsAfter : Bool
  rest : List Char

/-- Four braces, a slash and four braces, with the name and white space between, and a tilde on
either side allowed. -/
def RawEnd.read? (name cs : List Char) : Option RawEnd := do
  let opened ← Text.strip? (List.replicate 4 '\x7b') cs
  let inside ← Text.strip? ['/'] (takeTilde opened).2
  let named ← Text.strip? name (inside.dropWhile Text.isBlank)
  let last := takeTilde (named.dropWhile Text.isBlank)
  let rest ← Text.strip? (List.replicate 4 '\x7d') last.2
  return ⟨(takeTilde opened).1, last.1, rest⟩

/-- The text up to the first closing tag of the name, and that tag. -/
def rawBody? (name cs : List Char) : Option (List Char × RawEnd) :=
  match RawEnd.read? name cs with
  | some closer => some ([], closer)
  | none =>
    match cs with
    | [] => none
    | c :: cs => (rawBody? name cs).map fun found => (c :: found.1, found.2)

theorem RawEnd.length_lt_of_read? {name cs : List Char} {closer : RawEnd}
    (h : RawEnd.read? name cs = some closer) : closer.rest.length < cs.length := by
  simp only [RawEnd.read?, Option.bind_eq_bind, Option.bind_eq_some_iff, Option.pure_def,
    Option.some.injEq] at h
  obtain ⟨opened, hopened, inside, hinside, named, hnamed, rest, hrest, rfl⟩ := h
  have h1 := congrArg List.length (Text.strip?_eq_some hopened)
  have h2 := congrArg List.length (Text.strip?_eq_some hinside)
  have h3 := congrArg List.length (Text.strip?_eq_some hnamed)
  have h4 := congrArg List.length (Text.strip?_eq_some hrest)
  have t1 := takeTilde_length opened
  have t2 := takeTilde_length (named.dropWhile Text.isBlank)
  have d1 := (List.dropWhile_suffix (l := inside) Text.isBlank).length_le
  have d2 := (List.dropWhile_suffix (l := named) Text.isBlank).length_le
  simp only [List.length_append, List.length_replicate, List.length_singleton] at *
  omega

theorem length_lt_of_rawBody? {name cs body : List Char} {closer : RawEnd}
    (h : rawBody? name cs = some (body, closer)) : closer.rest.length < cs.length := by
  induction cs generalizing body with
  | nil =>
    unfold rawBody? at h
    split at h
    · next hread => cases h; exact RawEnd.length_lt_of_read? hread
    · cases h
  | cons c cs ih =>
    unfold rawBody? at h
    split at h
    · next hread => cases h; exact RawEnd.length_lt_of_read? hread
    · obtain ⟨found, hfound, he⟩ := Option.map_eq_some_iff.1 h
      cases he
      exact Nat.lt_succ_of_lt (ih hfound)

end Stencil

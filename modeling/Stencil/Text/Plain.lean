set_option autoImplicit false

/-!
# Text before a tag

A tag opens at two braces, unless a backslash stands before them. The text in front loses the
backslash of each pair of a backslash and a character other than a newline.
-/
namespace Stencil.Text

/-- A backslash and a character other than a newline stand for the character. -/
def unescape : List Char → List Char
  | '\\' :: c :: cs => if c = '\n' then '\\' :: c :: unescape cs else c :: unescape cs
  | c :: cs => c :: unescape cs
  | [] => []

def inFront (cs : List Char) (found : List Char × Option (List Char)) :
    List Char × Option (List Char) :=
  (cs ++ found.1, found.2)

/-- The text in front of the first tag, and what follows the braces that open it. -/
def plain : List Char → List Char × Option (List Char)
  | [] => ([], none)
  | '\\' :: c :: cs => inFront (if c = '\n' then ['\\', c] else [c]) (plain cs)
  | '\x7b' :: '\x7b' :: cs => ([], some cs)
  | c :: cs => inFront [c] (plain cs)

theorem length_lt_of_plain {cs rest : List Char} (h : (plain cs).2 = some rest) :
    rest.length < cs.length := by
  fun_induction plain cs with
  | case1 => cases h
  | case2 c cs ih => have := ih h; simp only [List.length_cons]; omega
  | case3 => cases h; simp only [List.length_cons]; omega
  | case4 c cs _ _ ih => have := ih h; simp only [List.length_cons]; omega

def strip? : List Char → List Char → Option (List Char)
  | [], cs => some cs
  | m :: mark, c :: cs => if m = c then strip? mark cs else none
  | _ :: _, [] => none

def after? (mark : List Char) : List Char → Option (List Char)
  | [] => none
  | c :: cs =>
    match strip? mark (c :: cs) with
    | some rest => some rest
    | none => after? mark cs

theorem strip?_eq_some {mark cs rest : List Char} (h : strip? mark cs = some rest) :
    cs = mark ++ rest := by
  fun_induction strip? mark cs with
  | case1 => cases h; rfl
  | case2 _ _ _ ih => rw [ih h, List.cons_append]
  | case3 => cases h
  | case4 => cases h

theorem length_le_of_after? {mark cs rest : List Char} (h : after? mark cs = some rest) :
    rest.length ≤ cs.length := by
  induction cs with
  | nil => cases h
  | cons c cs ih =>
    unfold after? at h
    split at h
    · next hs =>
      cases h
      rw [strip?_eq_some hs, List.length_append]
      omega
    · have := ih h
      rw [List.length_cons]
      omega

end Stencil.Text

import Stencil.Item

set_option autoImplicit false

/-!
# Tags

How a tag begins: further braces or a sigil, with a tilde if the text in front is trimmed; and what
a tag comes to once it is read.
-/
namespace Stencil

inductive Sigil
  | escaped | unescaped | triple | opening | negated | closing | inclusion | raw
  | comment | longComment
  deriving Repr, DecidableEq

def Sigil.extraBraces : Sigil → Nat
  | .triple => 1
  | .raw => 2
  | _ => 0

structure Opener where
  sigil : Sigil
  /-- A tilde: the text in front is trimmed. -/
  trims : Bool
  rest : List Char

def takeTilde : List Char → Bool × List Char
  | '~' :: cs => (true, cs)
  | cs => (false, cs)

def Sigil.take : List Char → Sigil × List Char
  | '!' :: '-' :: '-' :: cs => (.longComment, cs)
  | '!' :: cs => (.comment, cs)
  | '&' :: cs => (.unescaped, cs)
  | '#' :: cs => (.opening, cs)
  | '^' :: cs => (.negated, cs)
  | '/' :: cs => (.closing, cs)
  | '>' :: cs => (.inclusion, cs)
  | cs => (.escaped, cs)

/-- Reads on after two braces. A tilde comes before a sigil but after further braces. -/
def Opener.read : List Char → Opener
  | '\x7b' :: '\x7b' :: cs => ⟨.raw, (takeTilde cs).1, (takeTilde cs).2⟩
  | '\x7b' :: cs => ⟨.triple, (takeTilde cs).1, (takeTilde cs).2⟩
  | cs => ⟨(Sigil.take (takeTilde cs).2).1, (takeTilde cs).1, (Sigil.take (takeTilde cs).2).2⟩

theorem takeTilde_length (cs : List Char) : (takeTilde cs).2.length ≤ cs.length := by
  unfold takeTilde
  split <;> simp

theorem Sigil.take_length (cs : List Char) : (Sigil.take cs).2.length ≤ cs.length := by
  unfold Sigil.take
  split <;> simp only [List.length_cons] <;> omega

theorem Opener.read_length (cs : List Char) : (Opener.read cs).rest.length ≤ cs.length := by
  unfold Opener.read
  split
  · next cs => have := takeTilde_length cs; simp only [List.length_cons]; omega
  · next cs _ => have := takeTilde_length cs; simp only [List.length_cons]; omega
  · exact Nat.le_trans (Sigil.take_length _) (takeTilde_length cs)

/-- A tag that changes the tree: where it names a block, the characters left from that name on. -/
inductive Tag
  | value (escape : Bool) (e : Expr)
  | opening (call : Call Expr)
  | otherwise
  | otherwiseOpening (call : Call Expr)
  | closing (name : String) (left : Nat)
  | raw (call : Call Expr) (body : List Char)
  | inclusion (i : Inclusion)

end Stencil

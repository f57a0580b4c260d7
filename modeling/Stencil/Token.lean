import Stencil.Error
import Stencil.Text.Characters

set_option autoImplicit false

/-!
# Tokens inside a tag

The first token of a text is a constant, a name, a run of white space or a single symbol, tried
in this order. A token is never empty, and with what follows it makes up the text
(`Token.append_of_read`).
-/
namespace Stencil

/-- What is wrong with a source, and how many of its characters were left there. -/
structure Failure where
  left : Nat
  kind : SyntaxErrorKind
  deriving Repr, DecidableEq

inductive TokenKind
  | ident | const | space
  | elseWord | thisWord | trueWord | falseWord
  | dot | slash | atSign | equals | leftParen | rightParen | tilde | brace
  deriving Repr, DecidableEq

structure Token where
  kind : TokenKind
  text : List Char
  deriving Repr, DecidableEq

namespace Token

def run? (p : Char → Bool) (cs : List Char) : Option (List Char × List Char) :=
  if cs.takeWhile p = [] then none else some (cs.takeWhile p, cs.dropWhile p)

/-- The rest of a constant after its opening quote; a backslash keeps any character but a newline
from closing it. -/
def closeQuote (quote : Char) : List Char → Option (List Char × List Char)
  | [] => none
  | '\\' :: c :: cs =>
    if c = '\n' then none
    else (closeQuote quote cs).map fun (text, rest) => ('\\' :: c :: text, rest)
  | c :: cs =>
    if c = quote then some ([c], cs)
    else if c = '\\' then none
    else (closeQuote quote cs).map fun (text, rest) => (c :: text, rest)

def quotation? : List Char → Option (List Char × List Char)
  | '"' :: cs => (closeQuote '"' cs).map fun (text, rest) => ('"' :: text, rest)
  | '\'' :: cs => (closeQuote '\'' cs).map fun (text, rest) => ('\'' :: text, rest)
  | _ => none

def endsWord : List Char → Bool
  | [] => true
  | c :: _ => !Text.isWord c

/-- Digits, and a point with digits after it unless that would end inside a word. -/
def digits? (cs : List Char) : Option (List Char × List Char) :=
  match run? Char.isDigit cs with
  | some (whole, '.' :: after) =>
    match run? Char.isDigit after with
    | some (places, rest) =>
      if endsWord rest then some (whole ++ '.' :: places, rest) else some (whole, '.' :: after)
    | none => some (whole, '.' :: after)
  | some (whole, rest) => if endsWord rest then some (whole, rest) else none
  | none => none

def number? : List Char → Option (List Char × List Char)
  | '-' :: cs => (digits? cs).map fun (text, rest) => ('-' :: text, rest)
  | cs => digits? cs

def reserved : List Char :=
  ['!', '"', '#', '%', '&', '\'', '(', ')', '*', '+', ',', '.', '/', ';', '<', '=', '>', '@',
    '[', '\\', ']', '^', '`', '\x7b', '|', '\x7d', '~', '\x7f']

def isNameChar (c : Char) : Bool :=
  decide (32 < c.toNat) && !Text.isBlank c && !reserved.contains c

def bracketed? : List Char → Option (List Char × List Char)
  | '[' :: cs =>
    match run? (· ≠ ']') cs with
    | some (inner, ']' :: rest) => some ('[' :: inner ++ [']'], rest)
    | _ => none
  | _ => none

def word (text : List Char) : TokenKind :=
  if text = "else".toList then .elseWord
  else if text = "this".toList then .thisWord
  else if text = "true".toList then .trueWord
  else if text = "false".toList then .falseWord
  else .ident

def symbol? : Char → Option TokenKind
  | '.' => some .dot
  | '/' => some .slash
  | '@' => some .atSign
  | '=' => some .equals
  | '(' => some .leftParen
  | ')' => some .rightParen
  | '~' => some .tilde
  | '\x7d' => some .brace
  | _ => none

def tokenOf (kind : List Char → TokenKind) :
    Option (List Char × List Char) → Option (Token × List Char) :=
  Option.map fun (text, rest) => (⟨kind text, text⟩, rest)

def composite? (cs : List Char) : Option (Token × List Char) :=
  (tokenOf (fun _ => .const) ((quotation? cs).or (number? cs))).or
    ((tokenOf word ((run? isNameChar cs).or (bracketed? cs))).or
      (tokenOf (fun _ => .space) (run? Text.isBlank cs)))

def read (cs : List Char) : Except Failure (Token × List Char) :=
  match composite? cs with
  | some result => .ok result
  | none =>
    match cs with
    | [] => .error ⟨0, .unexpectedEnd⟩
    | c :: rest =>
      match symbol? c with
      | some kind => .ok (⟨kind, [c]⟩, rest)
      | none => .error ⟨cs.length, .unknownSymbol (String.singleton c)⟩

def name (t : Token) : String :=
  match t.text with
  | '[' :: inner => String.ofList inner.dropLast
  | text => String.ofList text

theorem append_of_closeQuote {quote : Char} {cs text rest : List Char}
    (h : closeQuote quote cs = some (text, rest)) : text ++ rest = cs ∧ text ≠ [] := by
  fun_induction closeQuote quote cs generalizing text with
  | case1 => cases h
  | case2 => cases h
  | case3 c cs _ ih =>
    obtain ⟨⟨text', rest'⟩, h', he⟩ := Option.map_eq_some_iff.1 h
    cases he
    simp [(ih h').1]
  | case4 => cases h; simp
  | case5 => cases h
  | case6 c cs _ _ _ ih =>
    obtain ⟨⟨text', rest'⟩, h', he⟩ := Option.map_eq_some_iff.1 h
    cases he
    simp [(ih h').1]

theorem append_of_quotation? {cs text rest : List Char} (h : quotation? cs = some (text, rest)) :
    text ++ rest = cs ∧ text ≠ [] := by
  unfold quotation? at h
  split at h
  · obtain ⟨⟨text', rest'⟩, h', he⟩ := Option.map_eq_some_iff.1 h
    cases he
    simp [(append_of_closeQuote h').1]
  · obtain ⟨⟨text', rest'⟩, h', he⟩ := Option.map_eq_some_iff.1 h
    cases he
    simp [(append_of_closeQuote h').1]
  · cases h

theorem append_of_run? {p : Char → Bool} {cs text rest : List Char}
    (h : run? p cs = some (text, rest)) : text ++ rest = cs ∧ text ≠ [] := by
  unfold run? at h
  split at h
  · cases h
  · next hrun =>
    cases h
    exact ⟨List.takeWhile_append_dropWhile, hrun⟩

theorem append_of_digits? {cs text rest : List Char} (h : digits? cs = some (text, rest)) :
    text ++ rest = cs ∧ text ≠ [] := by
  unfold digits? at h
  split at h
  · next hwhole =>
    split at h
    · next hplaces =>
      split at h
      · cases h
        simp [← (append_of_run? hwhole).1, ← (append_of_run? hplaces).1]
      · cases h
        exact append_of_run? hwhole
    · cases h
      exact append_of_run? hwhole
  · next hwhole =>
    split at h
    · cases h
      exact append_of_run? hwhole
    · cases h
  · cases h

theorem append_of_number? {cs text rest : List Char} (h : number? cs = some (text, rest)) :
    text ++ rest = cs ∧ text ≠ [] := by
  unfold number? at h
  split at h
  · obtain ⟨⟨text', rest'⟩, h', he⟩ := Option.map_eq_some_iff.1 h
    cases he
    simp [(append_of_digits? h').1]
  · exact append_of_digits? h

theorem append_of_bracketed? {cs text rest : List Char} (h : bracketed? cs = some (text, rest)) :
    text ++ rest = cs ∧ text ≠ [] := by
  unfold bracketed? at h
  split at h
  · split at h
    · next hrun =>
      cases h
      simp [← (append_of_run? hrun).1]
    · cases h
  · cases h

theorem of_tokenOf {kind : List Char → TokenKind} {split : Option (List Char × List Char)}
    {t : Token} {rest : List Char} (h : tokenOf kind split = some (t, rest)) :
    split = some (t.text, rest) := by
  obtain ⟨⟨text, rest'⟩, h', he⟩ := Option.map_eq_some_iff.1 h
  cases he
  exact h'

theorem append_of_composite? {cs rest : List Char} {t : Token}
    (h : composite? cs = some (t, rest)) : t.text ++ rest = cs ∧ t.text ≠ [] := by
  unfold composite? at h
  rcases Option.or_eq_some_iff.1 h with h | ⟨-, h⟩
  · rcases Option.or_eq_some_iff.1 (of_tokenOf h) with h | ⟨-, h⟩
    · exact append_of_quotation? h
    · exact append_of_number? h
  · rcases Option.or_eq_some_iff.1 h with h | ⟨-, h⟩
    · rcases Option.or_eq_some_iff.1 (of_tokenOf h) with h | ⟨-, h⟩
      · exact append_of_run? h
      · exact append_of_bracketed? h
    · exact append_of_run? (of_tokenOf h)

/-- A token and what follows it make up the text, and the token is not empty. -/
theorem append_of_read {cs rest : List Char} {t : Token} (h : read cs = .ok (t, rest)) :
    t.text ++ rest = cs ∧ t.text ≠ [] := by
  unfold read at h
  split at h
  · next hc =>
    cases h
    exact append_of_composite? hc
  · split at h
    · cases h
    · split at h <;> cases h
      exact ⟨rfl, List.cons_ne_nil _ _⟩

theorem length_lt_of_read {cs rest : List Char} {t : Token} (h : read cs = .ok (t, rest)) :
    rest.length < cs.length := by
  obtain ⟨rfl, hne⟩ := append_of_read h
  have := List.length_pos_iff.2 hne
  simp
  omega

end Token
end Stencil

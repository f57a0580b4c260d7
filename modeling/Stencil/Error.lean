set_option autoImplicit false

/-!
# Errors

What can be wrong with a source, where in the source it is, and what can go wrong while a
template renders.
-/
namespace Stencil

inductive SyntaxErrorKind
  | unexpectedEnd
  | unknownSymbol (symbol : String)
  | unexpectedToken (found : String)
  | expectedIdentList
  | expectedIdentAfterSeparator
  | invalidExpression
  | noValueAfterEq
  | expectedTagEnd (found : String)
  | multipleElse
  | elseOutsideBlock
  | unbalancedClose
  | mismatchedClose (opened closed : String)
  | blockStillOpen (name : String)
  | unterminatedComment
  | rawEndTagMismatch (name : String)
  | unknownHelper (name : String)
  | missingPartial (name : String)
  | negatedSectionValue
  deriving Repr, DecidableEq

/-- Lines and columns count from one, columns in characters; a newline belongs to its line. -/
structure Position where
  line : Nat
  column : Nat
  deriving Repr, DecidableEq

def Position.after (before : List Char) : Position :=
  ⟨before.count '\n' + 1, (before.reverse.takeWhile (· ≠ '\n')).length + 1⟩

/-- The position of the character at `offset`, or of the end of the source. -/
def Position.at (source : List Char) (offset : Nat) : Position :=
  Position.after (source.take offset)

structure SyntaxError where
  position : Position
  kind : SyntaxErrorKind
  deriving Repr, DecidableEq

inductive TemplateError
  | syntaxError (e : SyntaxError)
  | wrongArgumentCount (helper : String) (got expected : Nat)
  | missingHelper (name : String)
  | missingPartial (name : String)
  | helperFailed (message : String)
  deriving Repr, DecidableEq

namespace SyntaxErrorKind

def message : SyntaxErrorKind → String
  | unexpectedEnd => "Unexpected end of template"
  | unknownSymbol symbol => "Unknown symbol: " ++ symbol
  | unexpectedToken found => "Unexpected token " ++ found
  | expectedIdentList => "Expect ident list"
  | expectedIdentAfterSeparator => "Expect IDENT after . or /"
  | invalidExpression => "Failed to parse expression"
  | noValueAfterEq => "No value after '='"
  | expectedTagEnd found => "Expect '\x7d\x7d' got " ++ found
  | multipleElse => "Multiple else blocks"
  | elseOutsideBlock => "Else outside of a block"
  | unbalancedClose => "Unbalanced section close"
  | mismatchedClose opened closed =>
    "Close section expects matching ident: old='" ++ opened ++ "' new='" ++ closed ++ "'"
  | blockStillOpen name => "Block still open: " ++ name
  | unterminatedComment => "Unterminated comment block"
  | rawEndTagMismatch name => "Raw end tag mismatch for '" ++ name ++ "'"
  | unknownHelper name => "Only known helpers are allowed, got: " ++ name
  | missingPartial name => "Missing partial: " ++ name
  | negatedSectionValue => "'^' section requires a simple value"

end SyntaxErrorKind

def SyntaxError.message (e : SyntaxError) : String :=
  e.kind.message ++ " [Line " ++ toString e.position.line ++ " col " ++
    toString e.position.column ++ "]"

namespace TemplateError

def message : TemplateError → String
  | syntaxError e => e.message
  | wrongArgumentCount helper got expected =>
    "Wrong number of arguments to '" ++ helper ++ "': got " ++ toString got ++ " expect " ++
      toString expected
  | missingHelper name => "Missing helper: " ++ name
  | missingPartial name => "Missing partial: " ++ name
  | helperFailed message => message

def causes : TemplateError → List String
  | syntaxError e => [e.message, e.kind.message]
  | _ => []

end TemplateError
end Stencil

import Stencil.Error
import Stencil.Json

set_option autoImplicit false

/-!
# Errors as JSON

An error is written as its kind: a word if the kind has no details, or else an object whose one
key is that word, with the details inside. Reading allows for unknown details and, where the
detail is a syntax error, for a list of its three parts.
-/
namespace Stencil

def Json.tagged (key : String) (inner : Json) : Json := .object ⟨[(key, inner)]⟩

def Json.details (word : String) (fields : List (String × Json)) : Json :=
  .tagged word (.object ⟨fields⟩)

def Json.untag? : Json → Option (String × Option Json)
  | .string word => some (word, none)
  | .object ⟨[(word, inner)]⟩ => some (word, some inner)
  | _ => none

def detail? (inner : Option Json) (key : String) : Option String :=
  match inner with
  | some (.object fields) => (fields.get? key).bind Json.text?
  | _ => none

namespace SyntaxErrorKind

def toJson : SyntaxErrorKind → Json
  | unexpectedEnd => .string "UnexpectedEnd"
  | unknownSymbol symbol => .details "UnknownSymbol" [("symbol", .string symbol)]
  | unexpectedToken found => .details "UnexpectedToken" [("found", .string found)]
  | expectedIdentList => .string "ExpectedIdentList"
  | expectedIdentAfterSeparator => .string "ExpectedIdentAfterSeparator"
  | invalidExpression => .string "InvalidExpression"
  | noValueAfterEq => .string "NoValueAfterEq"
  | expectedTagEnd found => .details "ExpectedTagEnd" [("found", .string found)]
  | multipleElse => .string "MultipleElse"
  | elseOutsideBlock => .string "ElseOutsideBlock"
  | unbalancedClose => .string "UnbalancedClose"
  | mismatchedClose opened closed =>
    .details "MismatchedClose" [("open", .string opened), ("close", .string closed)]
  | blockStillOpen name => .details "BlockStillOpen" [("name", .string name)]
  | unterminatedComment => .string "UnterminatedComment"
  | rawEndTagMismatch name => .details "RawEndTagMismatch" [("name", .string name)]
  | unknownHelper name => .details "UnknownHelper" [("name", .string name)]
  | missingPartial name => .details "MissingPartial" [("name", .string name)]
  | negatedSectionValue => .string "NegatedSectionValue"

def plainKinds : List (String × SyntaxErrorKind) :=
  [("UnexpectedEnd", unexpectedEnd), ("ExpectedIdentList", expectedIdentList),
    ("ExpectedIdentAfterSeparator", expectedIdentAfterSeparator),
    ("InvalidExpression", invalidExpression), ("NoValueAfterEq", noValueAfterEq),
    ("MultipleElse", multipleElse), ("ElseOutsideBlock", elseOutsideBlock),
    ("UnbalancedClose", unbalancedClose), ("UnterminatedComment", unterminatedComment),
    ("NegatedSectionValue", negatedSectionValue)]

def ofJson? (j : Json) : Option SyntaxErrorKind := do
  let (word, inner) ← j.untag?
  match word with
  | "UnknownSymbol" => unknownSymbol <$> detail? inner "symbol"
  | "UnexpectedToken" => unexpectedToken <$> detail? inner "found"
  | "ExpectedTagEnd" => expectedTagEnd <$> detail? inner "found"
  | "MismatchedClose" => mismatchedClose <$> detail? inner "open" <*> detail? inner "close"
  | "BlockStillOpen" => blockStillOpen <$> detail? inner "name"
  | "RawEndTagMismatch" => rawEndTagMismatch <$> detail? inner "name"
  | "UnknownHelper" => unknownHelper <$> detail? inner "name"
  | "MissingPartial" => missingPartial <$> detail? inner "name"
  | word =>
    match inner with
    | none | some .null => plainKinds.lookup word
    | _ => none

end SyntaxErrorKind

namespace SyntaxError

def toJson (e : SyntaxError) : Json :=
  .object ⟨[("line", .nat e.position.line), ("column", .nat e.position.column),
    ("kind", e.kind.toJson)]⟩

def ofParts? (line column kind : Json) : Option SyntaxError := do
  let line ← line.word?
  let column ← column.word?
  let kind ← SyntaxErrorKind.ofJson? kind
  return ⟨⟨line, column⟩, kind⟩

def ofJson? : Json → Option SyntaxError
  | .array [line, column, kind] => ofParts? line column kind
  | .object fields => do
    let line ← fields.get? "line"
    let column ← fields.get? "column"
    let kind ← fields.get? "kind"
    ofParts? line column kind
  | _ => none

end SyntaxError

namespace TemplateError

def toJson : TemplateError → Json
  | syntaxError e => .tagged "Syntax" e.toJson
  | wrongArgumentCount helper got expected =>
    .details "WrongArgumentCount"
      [("helper", .string helper), ("got", .nat got), ("expected", .nat expected)]
  | missingHelper name => .details "MissingHelper" [("name", .string name)]
  | missingPartial name => .details "MissingPartial" [("name", .string name)]
  | helperFailed message => .details "Helper" [("message", .string message)]

def ofJson? (j : Json) : Option TemplateError := do
  let (word, inner) ← j.untag?
  match word, inner with
  | "Syntax", some inner => syntaxError <$> SyntaxError.ofJson? inner
  | "WrongArgumentCount", some (.object fields) => do
    let helper ← (fields.get? "helper").bind Json.text?
    let got ← (fields.get? "got").bind Json.word?
    let expected ← (fields.get? "expected").bind Json.word?
    return wrongArgumentCount helper got expected
  | "MissingHelper", inner => missingHelper <$> detail? inner "name"
  | "MissingPartial", inner => missingPartial <$> detail? inner "name"
  | "Helper", inner => helperFailed <$> detail? inner "message"
  | _, _ => none

end TemplateError
end Stencil

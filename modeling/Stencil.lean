import Stencil.Action
import Stencil.Builtin
import Stencil.Compile
import Stencil.Cursor
import Stencil.Decimal.Shortest
import Stencil.Decimal.Text
import Stencil.Dict
import Stencil.Environment
import Stencil.Error
import Stencil.Error.Json
import Stencil.Expr
import Stencil.Expr.Reader
import Stencil.Frame
import Stencil.Item
import Stencil.Json
import Stencil.Library
import Stencil.Outline
import Stencil.Proofs.Abreast
import Stencil.Proofs.Asking
import Stencil.Proofs.AtSigns
import Stencil.Proofs.Blocks
import Stencil.Proofs.ByName
import Stencil.Proofs.Caches
import Stencil.Proofs.Calls
import Stencil.Proofs.Chains
import Stencil.Proofs.Closings
import Stencil.Proofs.Compiling
import Stencil.Proofs.Complaints
import Stencil.Proofs.Concatenation
import Stencil.Proofs.Counterparts
import Stencil.Proofs.Courses
import Stencil.Proofs.Cursors
import Stencil.Proofs.Drafts
import Stencil.Proofs.Draws
import Stencil.Proofs.Entities
import Stencil.Proofs.EqualNumbers
import Stencil.Proofs.EqualValues
import Stencil.Proofs.Escapes
import Stencil.Proofs.Exchange
import Stencil.Proofs.Faults
import Stencil.Proofs.Grammar
import Stencil.Proofs.Harmless
import Stencil.Proofs.Heads
import Stencil.Proofs.Holdings
import Stencil.Proofs.InPlace
import Stencil.Proofs.Inclusions
import Stencil.Proofs.Indifference
import Stencil.Proofs.Inert
import Stencil.Proofs.Iteration
import Stencil.Proofs.KnownHelpers
import Stencil.Proofs.Layouts
import Stencil.Proofs.Leading
import Stencil.Proofs.Lexemes
import Stencil.Proofs.Lexing
import Stencil.Proofs.Likeness
import Stencil.Proofs.Locality
import Stencil.Proofs.Nesting
import Stencil.Proofs.Numbers
import Stencil.Proofs.Offsets
import Stencil.Proofs.Overlays
import Stencil.Proofs.Owners
import Stencil.Proofs.Padding
import Stencil.Proofs.Parents
import Stencil.Proofs.Pieces
import Stencil.Proofs.Positions
import Stencil.Proofs.Reach
import Stencil.Proofs.Readers
import Stencil.Proofs.References
import Stencil.Proofs.Renewals
import Stencil.Proofs.Rereading
import Stencil.Proofs.Resemblance
import Stencil.Proofs.RoundTrip
import Stencil.Proofs.Rounds
import Stencil.Proofs.Saturation
import Stencil.Proofs.Scopes
import Stencil.Proofs.SecondReading
import Stencil.Proofs.Sections
import Stencil.Proofs.Sessions
import Stencil.Proofs.Shapes
import Stencil.Proofs.Shelves
import Stencil.Proofs.Sight
import Stencil.Proofs.Signs
import Stencil.Proofs.Slices
import Stencil.Proofs.Spans
import Stencil.Proofs.Spots
import Stencil.Proofs.StillOpen
import Stencil.Proofs.TagReaders
import Stencil.Proofs.TagTexts
import Stencil.Proofs.Tags
import Stencil.Proofs.Tiling
import Stencil.Proofs.TokenGrammar
import Stencil.Proofs.Tokens
import Stencil.Proofs.Traces
import Stencil.Proofs.Trimming
import Stencil.Proofs.Twins
import Stencil.Proofs.Variants
import Stencil.Proofs.Verbatim
import Stencil.Render
import Stencil.Tag
import Stencil.Tag.Raw
import Stencil.Tag.Reader
import Stencil.Template
import Stencil.Template.Json
import Stencil.Text.Characters
import Stencil.Text.Html
import Stencil.Text.Plain
import Stencil.Text.Quoted
import Stencil.Token
import Stencil.Value.Basic
import Stencil.Value.Equality
import Stencil.Value.Inspect
import Stencil.Workspace

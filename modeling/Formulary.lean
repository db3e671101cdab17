import Formulary.Engine
import Formulary.Proofs.Operator.Symbols
import Formulary.Proofs.Operator.Histories
import Formulary.Proofs.Token.Lexing
import Formulary.Proofs.Token.Places
import Formulary.Proofs.Token.Outline
import Formulary.Proofs.Token.Neighbours
import Formulary.Proofs.Token.Faults
import Formulary.Proofs.Token.Located
import Formulary.Proofs.Token.Layout
import Formulary.Proofs.Token.Lexed
import Formulary.Proofs.Token.Spelling
import Formulary.Proofs.Token.Rereading
import Formulary.Proofs.Token.Decoding
import Formulary.Proofs.Token.Quoting
import Formulary.Proofs.Token.Spacing
import Formulary.Proofs.Token.LongestMatch
import Formulary.Proofs.Decimal.Value
import Formulary.Proofs.Decimal.Modes
import Formulary.Proofs.Decimal.Rounded
import Formulary.Proofs.Decimal.Precision
import Formulary.Proofs.Decimal.Scaling
import Formulary.Proofs.Decimal.Quotient
import Formulary.Proofs.Decimal.Division
import Formulary.Proofs.Decimal.Reading
import Formulary.Proofs.Decimal.Comparison
import Formulary.Proofs.Decimal.Exact
import Formulary.Proofs.Decimal.Powers
import Formulary.Proofs.Decimal.Representation
import Formulary.Proofs.Value.Fields
import Formulary.Proofs.Value.Order
import Formulary.Proofs.Tree.Listing
import Formulary.Proofs.Tree.Conservation
import Formulary.Proofs.Tree.Grouping
import Formulary.Proofs.Tree.Precedence
import Formulary.Proofs.Tree.Levels
import Formulary.Proofs.Tree.Features
import Formulary.Proofs.Tree.Arguments
import Formulary.Proofs.Tree.Tally
import Formulary.Proofs.Tree.Placement
import Formulary.Proofs.Tree.SourceOrder
import Formulary.Proofs.Tree.Postfix
import Formulary.Proofs.Tree.Pairing
import Formulary.Proofs.Tree.Blame
import Formulary.Proofs.Tree.Located
import Formulary.Proofs.Tree.Wider
import Formulary.Proofs.Tree.Alike
import Formulary.Proofs.Tree.Readable
import Formulary.Proofs.Tree.Writing
import Formulary.Proofs.Tree.Regrouping
import Formulary.Proofs.Tree.RoundTrip
import Formulary.Proofs.Function.Lookup
import Formulary.Proofs.Function.Deferred
import Formulary.Proofs.Function.Values
import Formulary.Proofs.Function.Layering
import Formulary.Proofs.Function.Histories
import Formulary.Proofs.Function.Places
import Formulary.Proofs.Function.Errors
import Formulary.Proofs.Function.Order
import Formulary.Proofs.Function.Plans
import Formulary.Proofs.Function.Typing
import Formulary.Proofs.Library.Plans
import Formulary.Proofs.Library.Typing
import Formulary.Proofs.Library.Rounding
import Formulary.Proofs.Library.Negation
import Formulary.Proofs.Library.Comparison
import Formulary.Proofs.Library.Times
import Formulary.Proofs.Library.Integers
import Formulary.Proofs.Library.Dates
import Formulary.Proofs.Expression.Compiled
import Formulary.Proofs.Expression.Calls
import Formulary.Proofs.Expression.Literals
import Formulary.Proofs.Expression.Alike
import Formulary.Proofs.Engine.RoundTrip
import Formulary.Proofs.Engine.Calls
import Formulary.Proofs.Engine.Comparison
import Formulary.Proofs.Engine.Times
import Formulary.Proofs.Engine.Integers
import Formulary.Proofs.Engine.Dates
import Formulary.Proofs.Expression.Faults
import Formulary.Proofs.Engine.Faults
import Formulary.Proofs.Expression.Given
import Formulary.Proofs.Expression.Invocation
import Formulary.Proofs.Expression.Queries
import Formulary.Proofs.Expression.Located
import Formulary.Proofs.Engine.Located
import Formulary.Proofs.Expression.Rebinding
import Formulary.Proofs.Engine.Layering
import Formulary.Proofs.Expression.Extension
import Formulary.Proofs.Engine.Extension
import Formulary.Proofs.Expression.Selection
import Formulary.Proofs.Expression.Inlining
import Formulary.Proofs.Engine.Constants
import Formulary.Proofs.Time.Calendar
import Formulary.Proofs.Time.Reading

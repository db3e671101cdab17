import Formulary.Token.Basic

set_option autoImplicit false

/-!
# Errors of reading an expression
-/

namespace Formulary

namespace SyntaxError

inductive Cause where
  | unknownEscape
  | unterminatedText
  | malformedExponent
  | malformedHexadecimal
  | repeatedPoint
  | undefinedOperator (text : String)
  | misplacedField
  | misplacedBracket (bracket : Bracket) (closing : Bool)
  | unexpectedClosing (bracket : Bracket)
  | unclosed (bracket : Bracket)
  | unexpectedAfterInfix
  | emptyArgument
  | missingOperator
  | missingOperand
  | missingSecondOperand
  | emptyExpression
  | tooManyOperands
  | unexpectedToken (kind : Kind)
  | undefinedFunction (name : String)
  | argumentCount (name : String) (count : Nat)
  deriving DecidableEq, Repr

def Cause.message : Cause → String
  | unknownEscape => "Unknown escape character"
  | unterminatedText => "Closing quote not found"
  | malformedExponent => "Illegal scientific format"
  | malformedHexadecimal => "Illegal hexadecimal format"
  | repeatedPoint => "Number contains more than one decimal point"
  | undefinedOperator text => "Undefined operator '" ++ text ++ "'"
  | misplacedField => "Structure separator not allowed here"
  | misplacedBracket bracket closing =>
    bracket.capitalized ++ (if closing then " close" else " open") ++ " not allowed here"
  | unexpectedClosing bracket => "Unexpected closing " ++ bracket.word
  | unclosed bracket => "Closing " ++ bracket.word ++ " not found"
  | unexpectedAfterInfix => "Unexpected token after infix operator"
  | emptyArgument => "Empty argument"
  | missingOperator => "Missing operator"
  | missingOperand => "Missing operand for operator"
  | missingSecondOperand => "Missing second operand for operator"
  | emptyExpression => "Empty expression"
  | tooManyOperands => "Too many operands"
  | unexpectedToken kind => "Unexpected token of type '" ++ kind.describe ++ "'"
  | undefinedFunction name => "Undefined function '" ++ name ++ "'"
  | argumentCount name count =>
    "could not find evaluatable '" ++ name ++ "' with " ++ toString count ++ " arguments"

end SyntaxError

structure SyntaxError where
  cause : SyntaxError.Cause
  span : Span
  deriving DecidableEq, Repr

def SyntaxError.message (e : SyntaxError) : String :=
  e.span.place ++ ": " ++ e.cause.message

def Token.error (token : Token) (cause : SyntaxError.Cause) : SyntaxError :=
  ⟨cause, token.span⟩

end Formulary

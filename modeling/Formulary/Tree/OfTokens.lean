import Formulary.Token.Lexer
import Formulary.Tree.Basic

set_option autoImplicit false

/-!
# From tokens to a tree

Operators wait until what follows shows that their operands are complete: an infix or postfix
operator completes those before it that bind at least as tight, and a comma or a closing bracket all
since the bracket was opened. The operands of a call are told from those before it by a mark that is
put among them where the argument list starts.
-/

namespace Formulary

/-- What reading an expression asks about functions. -/
structure FunctionArity where
  has : String → Bool
  accepts : String → Nat → Bool

namespace Tree

/-- Both lists have the latest first. -/
structure Stacks where
  operands : List Tree := []
  waiting : List Token := []

namespace Stacks

/-- The latest operand, unless the argument list of an open call starts there. -/
def operand (operands : List Tree) (token : Token) (missing : SyntaxError.Cause) :
    Except SyntaxError (Tree × List Tree) :=
  match operands with
  | [] => .error (token.error missing)
  | tree :: rest =>
    if tree.kind = .argumentsStart then .error (token.error missing) else .ok (tree, rest)

/-- Joins the latest operands under an operator. -/
def join (token : Token) (operands : List Tree) : Except SyntaxError (List Tree) :=
  match token.kind with
  | .operator .prefixOp | .operator .postfixOp => do
    let (tree, rest) ← operand operands token .missingOperand
    return node token [tree] :: rest
  | .operator .infixOp | .field | .element | .entry => do
    let (second, rest) ← operand operands token .missingOperand
    let (first, rest) ← operand rest token .missingSecondOperand
    return node token [first, second] :: rest
  | kind => .error (token.error (.unexpectedToken kind))

/-- Joins operands under the waiting tokens as long as `ready` holds of them. -/
def reduce (ready : Token → Except SyntaxError Bool) (operands : List Tree) :
    List Token → Except SyntaxError Stacks
  | [] => .ok ⟨operands, []⟩
  | token :: waiting => do
    if ← ready token then
      let operands ← join token operands
      reduce ready operands waiting
    else return ⟨operands, token :: waiting⟩

def reduceWhile (ready : Token → Bool) (s : Stacks) : Except SyntaxError Stacks :=
  reduce (fun token => .ok (ready token)) s.operands s.waiting

def toOpening (s : Stacks) : Except SyntaxError Stacks :=
  s.reduceWhile fun token => !token.kind.isOpening

def fields (s : Stacks) : Except SyntaxError Stacks :=
  s.reduceWhile fun token => token.kind == .field

/-- Takes the latest waiting token off, on behalf of a bracket that closes. -/
def takeWaiting (s : Stacks) (closing : Token) : Except SyntaxError (Token × Stacks) :=
  match s.waiting with
  | [] => .error (closing.error (.unexpectedToken closing.kind))
  | token :: waiting => .ok (token, { s with waiting })

/-- The mapping of an operator token. -/
def mapping (operators : Operators) (token : Token) : Except SyntaxError Mapping :=
  match token.kind.role?.bind fun role => operators.find? role token.span.text with
  | some mapping => .ok mapping
  | none => .error (token.error (.undefinedOperator token.span.text))

/-- Whether a waiting token has its operands when an operator bound to `current` follows. -/
def bindsBefore (operators : Operators) (current : Mapping) (token : Token) :
    Except SyntaxError Bool :=
  match token.kind with
  | .field => .ok true
  | .operator _ => do
    let top ← mapping operators token
    return top.precedence > current.precedence ||
      (current.leftAssociative && top.precedence == current.precedence)
  | _ => .ok false

/-- A prefix operator begins an operand, so nothing before it is complete yet. -/
def addOperator (operators : Operators) (s : Stacks) (token : Token) :
    Except SyntaxError Stacks := do
  let current ← mapping operators token
  let s ← if token.kind = .operator .prefixOp then pure s
    else reduce (bindsBefore operators current) s.operands s.waiting
  return { s with waiting := token :: s.waiting }

/-- The operands since the mark where an argument list starts, earliest first, and those before. -/
def arguments (function : Token) (found : List Tree) :
    List Tree → Except SyntaxError (List Tree × List Tree)
  | [] => .error (function.error .missingOperand)
  | tree :: rest =>
    if tree.kind = .argumentsStart then .ok (found, rest)
    else arguments function (tree :: found) rest

def call (functions : FunctionArity) (function : Token) (operands : List Tree) :
    Except SyntaxError (List Tree) := do
  let (args, rest) ← arguments function [] operands
  let name := function.span.text
  if !functions.has name then .error (function.error (.undefinedFunction name))
  else if !functions.accepts name args.length then
    .error (function.error (.argumentCount name args.length))
  else return node function args :: rest

/-- Closes a parenthesis, and with it the call that it belongs to. -/
def closeParen (functions : FunctionArity) (s : Stacks) (token : Token) :
    Except SyntaxError Stacks := do
  let s ← s.toOpening
  let (_, s) ← s.takeWaiting token
  match s.waiting with
  | function :: waiting =>
    if function.kind = .function then return ⟨← call functions function s.operands, waiting⟩
    else return s
  | [] => return s

/-- An access waits below its bracket until the bracket closes. -/
def openAccess (s : Stacks) (token : Token) (kind : Kind) : Except SyntaxError Stacks := do
  let s ← s.fields
  return { s with waiting := token :: { token with kind } :: s.waiting }

def closeAccess (s : Stacks) (token : Token) : Except SyntaxError Stacks := do
  let s ← s.toOpening
  let (_, s) ← s.takeWaiting token
  let (access, s) ← s.takeWaiting token
  return { s with operands := ← join access s.operands }

def openParen (s : Stacks) (previous : Option Kind) (token : Token) : Stacks :=
  let operands := if previous = some .function then
      leaf { token with kind := .argumentsStart } :: s.operands
    else s.operands
  ⟨operands, token :: s.waiting⟩

def add (operators : Operators) (functions : FunctionArity) (previous : Option Kind) (s : Stacks)
    (token : Token) : Except SyntaxError Stacks :=
  match token.kind with
  | .number | .text | .name => .ok { s with operands := leaf token :: s.operands }
  | .function => .ok { s with waiting := token :: s.waiting }
  | .comma => s.toOpening
  | .operator _ => s.addOperator operators token
  | .opening .paren => .ok (s.openParen previous token)
  | .opening .square => s.openAccess token .element
  | .opening .curly => s.openAccess token .entry
  | .closing .paren => s.closeParen functions token
  | .closing _ => s.closeAccess token
  | .field => do
    let s ← s.fields
    return { s with waiting := token :: s.waiting }
  | kind => .error (token.error (.unexpectedToken kind))

def addAll (operators : Operators) (functions : FunctionArity) (previous : Option Kind)
    (s : Stacks) : List Token → Except SyntaxError Stacks
  | [] => .ok s
  | token :: tokens => do
    let s ← s.add operators functions previous token
    addAll operators functions (some token.kind) s tokens

end Stacks

/-- The tree of the tokens of a source. -/
def ofTokens (operators : Operators) (functions : FunctionArity) (source : String)
    (tokens : List Token) : Except SyntaxError Tree := do
  let s ← Stacks.addAll operators functions none {} tokens
  let s ← s.reduceWhile fun _ => true
  match s.operands with
  | [] => .error ⟨.emptyExpression, .whole source⟩
  | [tree] =>
    if tree.kind = .argumentsStart then .error ⟨.tooManyOperands, .whole source⟩ else return tree
  | _ => .error ⟨.tooManyOperands, .whole source⟩

end Tree

def parse (operators : Operators) (functions : FunctionArity) (features : Features)
    (source : String) : Except SyntaxError Tree := do
  let tokens ← tokenize operators features source
  Tree.ofTokens operators functions source tokens

end Formulary

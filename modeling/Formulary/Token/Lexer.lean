import Formulary.Operator.Table
import Formulary.SyntaxError
import Formulary.Text.Character

set_option autoImplicit false

/-!
# Splitting a source into tokens

What a character begins depends on the token before it: it decides which roles an operator may have
and which brackets may stand. Each step takes the first character of what is left and a number of
characters after it, so the rest of the source is always shorter. Where two operands meet, a
multiplication sign may be implied; it has the place of the token that it precedes.
-/

namespace Formulary

/-- The parts of the grammar that can be switched off. -/
structure Features where
  arrays : Bool := true
  structures : Bool := true
  associates : Bool := true
  implicitMultiplication : Bool := true
  deriving DecidableEq, Repr

namespace Lexer

open Text

/-- `tokens` has the latest token first, and `brackets` the innermost open bracket. -/
structure State where
  position : Position := .start
  tokens : List Token := []
  brackets : List (Bracket × Token) := []

def State.previous (s : State) : Option Kind :=
  s.tokens.head?.map (·.kind)

def State.error (s : State) (cause : SyntaxError.Cause) (text : List Char) : SyntaxError :=
  ⟨cause, s.position, String.ofList text⟩

/-- A prefix operator stands where an operand may begin, a postfix operator after an operand. That
an infix operator stands after an operand is checked when its token is added. -/
def permits (previous : Option Kind) : Role → Bool
  | .prefixOp =>
    match previous with
    | none | some (.opening _) | some .comma => true
    | some (.operator role) => role != .postfixOp
    | some _ => false
  | .infixOp => true
  | .postfixOp => previous.any Kind.endsOperand

def canGrow (operators : Operators) (previous : Option Kind) (text : String) : Bool :=
  [Role.prefixOp, .postfixOp, .infixOp].any fun role =>
    permits previous role && operators.canStart role text

def roleOf? (operators : Operators) (previous : Option Kind) (text : String) : Option Role :=
  [Role.prefixOp, .postfixOp, .infixOp].find? fun role =>
    permits previous role && (operators.find? role text).isSome

/-- How many characters were read in search of an operator, and the longest operator among them. -/
structure OperatorScan where
  read : Nat := 0
  found : Option (Nat × Role) := none

/-- Reads on while some operator begins with what has been read. -/
def scanOperator (operators : Operators) (previous : Option Kind) (read : String)
    (scan : OperatorScan) : List Char → OperatorScan
  | [] => scan
  | c :: rest =>
    let candidate := read.push c
    if canGrow operators previous candidate then
      let count := scan.read + 1
      let found := match roleOf? operators previous candidate with
        | some role => some (count, role)
        | none => scan.found
      scanOperator operators previous candidate ⟨count, found⟩ rest
    else { scan with read := max scan.read 1 }

/-- The length of a string literal of which `read` characters are behind. -/
def scanText (s : State) (written : List Char) (read : Nat) : List Char → Except SyntaxError Nat
  | [] | ['\\'] => .error (s.error .unterminatedText written)
  | '"' :: _ => .ok (read + 1)
  | '\\' :: c :: rest =>
    if (escaped? c).isSome then scanText s written (read + 2) rest
    else .error ⟨.unknownEscape, s.position.advance (written.take read), String.ofList ['\\', c]⟩
  | _ :: rest => scanText s written (read + 1) rest

def digitCount (cs : List Char) : Nat :=
  (cs.takeWhile isDigit).length

/-- The length of `1`, `1.`, `1.5` or `.5`. -/
def mantissaLength (cs : List Char) : Nat :=
  let whole := digitCount cs
  match cs.drop whole with
  | '.' :: fraction => whole + 1 + digitCount fraction
  | _ => whole

def isExponentMark (c : Char) : Bool :=
  c == 'e' || c == 'E'

def signLength : List Char → Nat
  | '+' :: _ | '-' :: _ => 1
  | _ => 0

/-- An exponent has digits; a mark without them is none. -/
def exponentLength : List Char → Nat
  | [] => 0
  | mark :: rest =>
    let digits := digitCount (rest.drop (signLength rest))
    if isExponentMark mark && digits != 0 then 1 + signLength rest + digits else 0

def decimalLength (cs : List Char) : Nat :=
  let mantissa := mantissaLength cs
  mantissa + exponentLength (cs.drop mantissa)

def scanDecimal (s : State) (cs : List Char) : Except SyntaxError Nat :=
  let length := decimalLength cs
  match cs.drop length with
  | [] => .ok length
  | c :: rest =>
    if isExponentMark c then
      .error (s.error .malformedExponent (cs.take (length + 1 + signLength rest)))
    else if c = '.' then .error (s.error .repeatedPoint (cs.take (length + 1)))
    else .ok length

def scanNumber (s : State) (cs : List Char) : Except SyntaxError Nat :=
  match cs with
  | '0' :: x :: rest =>
    if x = 'x' ∨ x = 'X' then
      let digits := (rest.takeWhile isHexDigit).length
      if digits = 0 then .error (s.error .malformedHexadecimal ['0', x]) else .ok (2 + digits)
    else scanDecimal s cs
  | _ => scanDecimal s cs

def scanName (operators : Operators) (previous : Option Kind) (c : Char) (rest : List Char) :
    Kind × Nat :=
  let name := c :: rest.takeWhile continuesName
  let kind := match roleOf? operators previous (String.ofList name) with
    | some role => .operator role
    | none =>
      if ((rest.drop (name.length - 1)).dropWhile isWhitespace).head? = some '(' then .function
      else .name
  (kind, name.length)

/-- The innermost open bracket has to be of the same kind as the one that closes. -/
def checkClosing (s : State) (bracket : Bracket) (c : Char) : Except SyntaxError Unit :=
  match s.brackets with
  | [] => .error (s.error (.unexpectedClosing bracket) [c])
  | (innermost, token) :: _ =>
    if innermost = bracket then .ok () else .error (token.error (.unclosed innermost))

/-- The bracket that a character is, unless it belongs to a feature that is switched off. -/
def bracket? (features : Features) : Char → Option Kind
  | '(' => some (.opening .paren)
  | ')' => some (.closing .paren)
  | '[' => if features.arrays then some (.opening .square) else none
  | ']' => if features.arrays then some (.closing .square) else none
  | '{' => if features.associates then some (.opening .curly) else none
  | '}' => if features.associates then some (.closing .curly) else none
  | _ => none

def checkBracket (s : State) (c : Char) : Kind → Except SyntaxError Unit
  | .opening .paren => .ok ()
  | .opening bracket =>
    if s.previous.any Kind.acceptsAccess then .ok ()
    else .error (s.error (.misplacedBracket bracket false) [c])
  | .closing .paren => checkClosing s .paren c
  | .closing bracket =>
    if s.previous.any Kind.acceptsClosing then checkClosing s bracket c
    else .error (s.error (.misplacedBracket bracket true) [c])
  | _ => .ok ()

/-- The kind of the token at the start of `c :: rest`, and its length. -/
def scan (operators : Operators) (features : Features) (s : State) (c : Char) (rest : List Char) :
    Except SyntaxError (Kind × Nat) :=
  match bracket? features c with
  | some kind => (checkBracket s c kind).map fun _ => (kind, 1)
  | none =>
    if c = '"' then (scanText s (c :: rest) 1 rest).map ((.text, ·))
    else if c = ',' then .ok (.comma, 1)
    else if isDigit c || (c == '.' && rest.head?.any isDigit) then
      (scanNumber s (c :: rest)).map ((.number, ·))
    else if c = '.' && features.structures then
      if s.previous.any Kind.acceptsAccess then .ok (.field, 1)
      else .error (s.error .misplacedField [c])
    else if startsName c then .ok (scanName operators s.previous c rest)
    else
      let found := scanOperator operators s.previous "" {} (c :: rest)
      match found.found with
      | some (length, role) => .ok (.operator role, length)
      | none =>
        let text := (c :: rest).take found.read
        .error (s.error (.undefinedOperator (String.ofList text)) text)

/-- A comma needs something between it and the bracket or comma before it, and a closing bracket
something between it and a comma. -/
def leavesArgumentEmpty (previous : Option Kind) : Kind → Bool
  | .comma => previous.any fun kind => kind.isOpening || kind == .comma
  | .closing .paren => previous == some .comma
  | _ => false

/-- Multiplication is implied between a number and a name, a call or a group, and between groups. -/
def impliesProduct (previous : Option Kind) : Kind → Bool
  | .opening .paren => previous == some .number || previous == some (.closing .paren)
  | .name | .function => previous == some .number
  | _ => false

def cannotFollowInfix : Kind → Bool
  | .operator .infixOp | .closing .paren | .comma => true
  | _ => false

def permitsInfix (previous : Option Kind) : Bool :=
  previous.any fun kind => kind.endsOperand || kind == .operator .postfixOp

/-- The tokens that stand for `token` after those before it: itself, maybe after a product sign. -/
def arrange (features : Features) (previous : Option Kind) (token : Token) :
    Except SyntaxError (List Token) :=
  if leavesArgumentEmpty previous token.kind then .error (token.error .emptyArgument)
  else if impliesProduct previous token.kind then
    if features.implicitMultiplication then .ok [token.impliedProduct, token]
    else .error (token.error .missingOperator)
  else if previous = some (.operator .infixOp) && cannotFollowInfix token.kind then
    .error (token.error .unexpectedAfterInfix)
  else if token.kind = .operator .infixOp && !permitsInfix previous then
    .error (token.error .missingOperand)
  else .ok [token]

def track (token : Token) (brackets : List (Bracket × Token)) : List (Bracket × Token) :=
  match token.kind with
  | .opening bracket => (bracket, token) :: brackets
  | .closing _ => brackets.tail
  | _ => brackets

def run (operators : Operators) (features : Features) (s : State) :
    List Char → Except SyntaxError State
  | [] => .ok s
  | c :: rest =>
    if isWhitespace c then run operators features { s with position := s.position.next c } rest
    else
      match scan operators features s c rest with
      | .error e => .error e
      | .ok (kind, length) =>
        let text := c :: rest.take (length - 1)
        let token : Token := ⟨kind, s.position, String.ofList text⟩
        match arrange features s.previous token with
        | .error e => .error e
        | .ok added =>
          let s : State := {
            position := s.position.advance text
            tokens := added.reverse ++ s.tokens
            brackets := track token s.brackets }
          run operators features s (rest.drop (length - 1))
termination_by cs => cs.length

end Lexer

/-- The tokens of a source, in its order. -/
def tokenize (operators : Operators) (features : Features) (source : String) :
    Except SyntaxError (List Token) :=
  match Lexer.run operators features {} source.toList with
  | .error e => .error e
  | .ok s =>
    match s.brackets with
    | [] => .ok s.tokens.reverse
    | (bracket, token) :: _ => .error (token.error (.unclosed bracket))

end Formulary

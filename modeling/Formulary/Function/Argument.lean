import Formulary.Function.Signature
import Formulary.Source

set_option autoImplicit false

/-!
# Arguments of functions

A deferred argument is handed over without being evaluated, but not out of sight: an implementation
can write down the expression that it stands for. Whether a name in it is a constant or a variable
shows there, because the value of a constant has taken the place of its name.
-/

namespace Formulary

/-- What can be seen of an expression without evaluating it. The overloads of a call are seen by
their signatures, because implementations cannot be written down. -/
inductive Sketch where
  | literal (value : Value)
  | reference (name : String) (span : Span)
  | call (name : String) (signatures : List Signature) (arguments : List Sketch) (span : Span)
  | member (object : Sketch) (field : String) (span : Span)

/-- An argument as an implementation receives it: its value, or its place among the arguments, by
which its value can be asked for, and its sketch. -/
inductive Argument where
  | value (v : Value)
  | deferred (index : Nat) (sketch : Sketch)

namespace Signature

def acceptsArgument (s : Signature) (index : Nat) (argument : Argument) : Bool :=
  match s.param? index, argument with
  | none, _ => false
  | some _, .deferred _ _ => true
  | some param, .value v => param.type.accepts v.type

def complaints (s : Signature) (index : Nat) (argument : Argument) : List String :=
  match s.param? index, argument with
  | some param, .value v => param.validators.filterMap (· v)
  | _, _ => []

/-- Whether the arguments have the number and the types that the signature asks for. -/
def accepts (s : Signature) (arguments : List Argument) : Bool :=
  s.acceptsCount arguments.length &&
    (arguments.zipIdx.all fun (argument, index) => s.acceptsArgument index argument)

/-- The complaints of all validators about the values among the arguments, in order. -/
def allComplaints (s : Signature) (arguments : List Argument) : List String :=
  arguments.zipIdx.flatMap fun (argument, index) => s.complaints index argument

end Signature

end Formulary

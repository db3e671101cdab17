import Formulary.Function.Routine
import Formulary.Layers
import Formulary.Text.Case
import Formulary.Tree.OfTokens

set_option autoImplicit false

/-!
# Tables of functions

A function may have several overloads under one name, whatever its case. A call is bound to those
that accept its number of arguments, and the first of them that accepts the values is run.
-/

namespace Formulary

structure Overload where
  signature : Signature
  body : Implementation

namespace Overload

/-- The first overload that accepts the arguments. -/
def select? (overloads : List Overload) (arguments : List Argument) : Option Overload :=
  overloads.find? (·.signature.accepts arguments)

/-- Runs the overload that is selected, unless a validator of it complains. -/
def dispatch (overloads : List Overload) (call : Call) (arguments : List Argument) :
    Routine Value :=
  match select? overloads arguments with
  | none => call.unsupported
  | some overload =>
    match overload.signature.allComplaints arguments with
    | [] => overload.body call arguments
    | first :: rest =>
      .fail { call.error (.invalidArgument first) with secondary := rest.map .invalidArgument }

/-- Which arguments are deferred is for the first overload to say, because it has to be known before
one is selected. -/
def defers (overloads : List Overload) (index : Nat) : Bool :=
  overloads.head?.any fun overload => (overload.signature.param? index).any (·.deferred)

end Overload

/-- The overloads by the upper case of their names, in the order in which they were defined. -/
structure FunctionTable where
  definitions : List (String × Overload) := []

namespace FunctionTable

open Text

def define (table : FunctionTable) (name : String) (signature : Signature)
    (body : Implementation) : FunctionTable :=
  ⟨table.definitions ++ [(upper name, ⟨signature, body⟩)]⟩

def overloads (table : FunctionTable) (name : String) : List Overload :=
  let key := upper name
  table.definitions.filterMap fun (other, overload) => if other = key then some overload else none

@[simp] theorem overloads_define (table : FunctionTable) (name other : String) (s : Signature)
    (body : Implementation) :
    (table.define name s body).overloads other =
      table.overloads other ++ if upper name = upper other then [⟨s, body⟩] else [] := by
  by_cases h : upper name = upper other <;> simp [define, overloads, h]

def has (table : FunctionTable) (name : String) : Bool :=
  !(table.overloads name).isEmpty

def accepts (table : FunctionTable) (name : String) (count : Nat) : Bool :=
  (table.overloads name).any (·.signature.acceptsCount count)

/-- The overloads that accept a number of arguments, if there are any. -/
def find? (table : FunctionTable) (name : String) (count : Nat) : Option (List Overload) :=
  match (table.overloads name).filter (·.signature.acceptsCount count) with
  | [] => none
  | overloads => some overloads

def ofDefinitions (definitions : List (String × Signature × Implementation)) : FunctionTable :=
  definitions.foldl (fun table (name, signature, body) => table.define name signature body) {}

def append (first second : FunctionTable) : FunctionTable :=
  ⟨first.definitions ++ second.definitions⟩

instance : Append FunctionTable := ⟨append⟩

@[simp] theorem overloads_append (first second : FunctionTable) (name : String) :
    (first ++ second).overloads name = first.overloads name ++ second.overloads name :=
  List.filterMap_append

end FunctionTable

/-- All that compiling a tree asks about functions. -/
structure Functions where
  arity : FunctionArity
  find? : String → Nat → Option (List Overload)

namespace Functions

def ofLayers (layers : Layers FunctionTable) : Functions where
  arity := {
    has := fun name => layers.any (·.has name)
    accepts := fun name count => layers.any (·.accepts name count) }
  find? name count := layers.first? (·.find? name count)

/-- What is not found on top is looked up below, for one number of arguments and not for another. -/
def upon (top bottom : Functions) : Functions where
  arity := {
    has := fun name => top.arity.has name || bottom.arity.has name
    accepts := fun name count => top.arity.accepts name count || bottom.arity.accepts name count }
  find? name count := (top.find? name count).or (bottom.find? name count)

/-- Tables that lie on each other are read from the top, like any other lookups. -/
theorem ofLayers_upon (top bottom : Layers FunctionTable) :
    ofLayers (.upon top bottom) = (ofLayers top).upon (ofLayers bottom) :=
  rfl

end Functions

end Formulary

import Formulary.Expression.Evaluation
import Formulary.Expression.OfTree
import Formulary.Library.Standard

set_option autoImplicit false

/-!
# Engines

An engine knows operators, functions and constants, and keeps the context in which the expressions
that it compiles are evaluated. Operators and functions, in tables or however they are looked up, are
put on top of those it knows already, and a constant replaces one of its name.
-/

namespace Formulary

/-- An expression and the context that it was compiled for. -/
structure Formula where
  expression : Expression
  context : Context

namespace Formula

def evaluateIn (formula : Formula) (resolver : Resolver) (context : Context) : Except Error Value :=
  (formula.expression.evaluate resolver context).outcome

def evaluate (formula : Formula) (resolver : Resolver) : Except Error Value :=
  formula.evaluateIn resolver formula.context

def toText (formula : Formula) : String :=
  formula.expression.toText

end Formula

structure Engine where
  operators : Operators := .ofLayers (.single .standard)
  functions : Functions := .ofLayers (.single Library.standard)
  constants : List (String × Value) := Library.constants
  features : Features := {}
  context : Context := {}

namespace Engine

def withOperators (engine : Engine) (operators : Operators) : Engine :=
  { engine with operators := operators.upon engine.operators }

def withFunctions (engine : Engine) (functions : Functions) : Engine :=
  { engine with functions := functions.upon engine.functions }

/-- The latest constant of a name stands first and is the one that is found. -/
def withConstant (engine : Engine) (name : String) (value : Value) : Engine :=
  { engine with constants := (Text.upper name, value) :: engine.constants }

def withFeatures (engine : Engine) (features : Features) : Engine :=
  { engine with features }

def withContext (engine : Engine) (context : Context) : Engine :=
  { engine with context }

def constant? (engine : Engine) (name : String) : Option Value :=
  engine.constants.lookup (Text.upper name)

theorem constant?_withConstant (engine : Engine) (name other : String) (value : Value) :
    (engine.withConstant name value).constant? other =
      if Text.upper other = Text.upper name then some value else engine.constant? other := by
  simp only [constant?, withConstant, List.lookup_cons]
  split <;> simp_all

def bindings (engine : Engine) : Bindings where
  operators := engine.operators
  functions := engine.functions
  constants := engine.constants

def tokenize (engine : Engine) (source : String) : Except SyntaxError (List Token) :=
  Formulary.tokenize engine.operators engine.features source

def parse (engine : Engine) (source : String) : Except SyntaxError Tree :=
  Formulary.parse engine.operators engine.functions.arity engine.features source

def compile (engine : Engine) (tree : Tree) : Except Failure Formula := do
  let expression ← Expression.ofTree engine.bindings tree
  return ⟨expression, engine.context⟩

def prepare (engine : Engine) (source : String) : Except Failure Formula :=
  match engine.parse source with
  | .ok tree => engine.compile tree
  | .error e => .error (.ofSyntax e : Error)

def evaluate (engine : Engine) (source : String) (resolver : Resolver) : Except Failure Value := do
  let formula ← engine.prepare source
  Failure.lift (formula.evaluate resolver)

end Engine

end Formulary

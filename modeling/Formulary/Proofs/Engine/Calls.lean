import Formulary.Proofs.Engine.RoundTrip
import Formulary.Proofs.Expression.Given
import Formulary.Proofs.Library.Rounding

set_option autoImplicit false

/-!
# Calls in sources

An operator, an access or a function that evaluates all its operands comes to what its standard
implementation makes of their values. That holds of whole sources and of what stands within them, so that
expressions are followed from their operands up.
-/

namespace Formulary

namespace Tree

/-- An infix operator between its operands. -/
def between (place : Position) (symbol : String) (x y : Tree) : Tree :=
  node ⟨.operator .infixOp, ⟨place, symbol⟩⟩ [x, y]

def negative (place : Position) (x : Tree) : Tree :=
  node ⟨.operator .prefixOp, ⟨place, "-"⟩⟩ [x]

/-- A function before its operands. -/
def called (place : Position) (name : String) (operands : List Tree) : Tree :=
  node ⟨.function, ⟨place, name⟩⟩ operands

/-- An array before the index of an element. -/
def indexed (span : Span) (array index : Tree) : Tree :=
  node ⟨.element, span⟩ [array, index]

end Tree

namespace Engine

variable {engine : Engine} {resolver : Resolver} {source : String} {tree : Tree} {operands : List Tree}
  {values : List Value} {result : Except Error Value}

/-- What a tree comes to when it is compiled and evaluated. -/
def outcome (engine : Engine) (resolver : Resolver) (tree : Tree) : Except Failure Value := do
  let formula ← engine.compile tree
  Failure.lift (formula.evaluate resolver)

theorem evaluate_of_parse (parsed : engine.parse source = .ok tree) :
    engine.evaluate source resolver = engine.outcome resolver tree := by
  rw [evaluate, prepare, parsed]
  rfl

/-- The operands come to the values. -/
abbrev Comes (engine : Engine) (resolver : Resolver) : List Tree → List Value → Prop :=
  List.Forall₂ fun tree v => engine.outcome resolver tree = .ok v

theorem Comes.exists_arguments (all : engine.Comes resolver operands values) :
    ∃ arguments, List.Forall₂ (Expression.Compiled engine.bindings) operands arguments ∧
      List.Forall₂ (fun e v => (e.evaluate resolver engine.context).outcome = .ok v) arguments values := by
  induction all with
  | nil => exact ⟨[], .nil, .nil⟩
  | cons first _ ih =>
    obtain ⟨rest, compiled, evaluated⟩ := ih
    obtain ⟨formula, isFormula, comes⟩ := bind_eq_ok_iff.mp first
    obtain ⟨e, isFirst, same⟩ := bind_eq_ok_iff.mp isFormula
    cases same
    have comes := Failure.lift_eq_ok_iff.mp comes
    exact ⟨e :: rest, .cons (Expression.compiled_of_ofTree isFirst) compiled, .cons comes evaluated⟩

/-- The standard functions have overloads for a name and a number of operands, and none is deferred. -/
def Eager (name : String) (count : Nat) : Prop :=
  ∃ overloads, Library.standard.find? name count = some overloads ∧
    ∀ index, Overload.defers overloads index = false

/-- The case of the name makes no difference, and the first overload tells what is deferred. -/
theorem eager_of_find? {name known : String} {count : Nat} {overload : Overload} {others : List Overload}
    (same : Text.upper name = Text.upper known)
    (found : Library.standard.find? known count = some (overload :: others))
    (eager : ∀ param ∈ overload.signature.params ++ overload.signature.variadic.toList,
      param.deferred = false) : Eager name count :=
  ⟨_, (FunctionTable.find?_congr _ same count).trans found, Overload.defers_of_eager eager⟩

theorem outcome_call (configured : engine.Configured) {token : Token} {name : String}
    {missing : Error.Cause}
    (calls : Expression.callee engine.bindings token operands.length = .ok (name, missing))
    (all : engine.Comes resolver operands values) (eager : Eager name values.length)
    (comes : Library.applied ⟨name, token.span, engine.context⟩ values = .done result) :
    engine.outcome resolver (.node token operands) = Failure.lift result := by
  obtain ⟨overloads, found, eager⟩ := eager
  obtain ⟨arguments, compiled, evaluated⟩ := all.exists_arguments
  have known : engine.bindings.functions.find? name operands.length = some overloads := by
    rw [bindings, configured.functions, all.length_eq]
    exact found
  have bound : Expression.bind engine.bindings token name operands.length missing = .ok overloads :=
    Expression.bind_eq_ok_iff_found.mpr ⟨known, (FunctionTable.find?_eq_some_iff.mp found).1⟩
  have isCompiled : engine.compile (.node token operands) =
      .ok ⟨.call name overloads arguments token.span, engine.context⟩ := by
    rw [compile, Expression.ofTree_of_compiled
      (.call (Expression.isCall_of_callee calls) calls bound compiled)]
    rfl
  have dispatched : Overload.dispatch overloads ⟨name, token.span, engine.context⟩
      (values.map .value) = .done result := by
    rwa [Library.applied, found] at comes
  rw [outcome, isCompiled]
  exact congrArg Failure.lift (Expression.outcome_call_of_values eager evaluated dispatched)

/-- An operator of the standard table. -/
theorem outcome_operator (configured : engine.Configured) {role : Role} {symbol : String}
    {place : Position} {mapping : Mapping}
    (mapped : OperatorTable.standard.find? role symbol = some mapping)
    (all : engine.Comes resolver operands values) (eager : Eager mapping.implementation values.length)
    (comes : Library.applied ⟨mapping.implementation, ⟨place, symbol⟩, engine.context⟩ values =
      .done result) :
    engine.outcome resolver (.node ⟨.operator role, ⟨place, symbol⟩⟩ operands) = Failure.lift result := by
  have bound : engine.bindings.operators.find? role symbol = some mapping := by
    rw [bindings, configured.operators]
    exact mapped
  have calls : Expression.callee engine.bindings ⟨.operator role, ⟨place, symbol⟩⟩ operands.length =
      .ok (mapping.implementation, .undefinedOperator role symbol) := by
    simp only [Expression.callee, bound]
  exact outcome_call configured calls all eager comes

theorem outcome_function (configured : engine.Configured) {name : String} {place : Position}
    (all : engine.Comes resolver operands values) (eager : Eager name values.length)
    (comes : Library.applied ⟨name, ⟨place, name⟩, engine.context⟩ values = .done result) :
    engine.outcome resolver (.called place name operands) = Failure.lift result :=
  outcome_call configured rfl all eager comes

theorem outcome_indexed (configured : engine.Configured) {span : Span} {array index : Tree}
    (all : engine.Comes resolver [array, index] values) (eager : Eager Library.elementName values.length)
    (comes : Library.applied ⟨Library.elementName, span, engine.context⟩ values = .done result) :
    engine.outcome resolver (.indexed span array index) = Failure.lift result :=
  outcome_call configured rfl all eager comes

end Engine

end Formulary

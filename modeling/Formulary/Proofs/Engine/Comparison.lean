import Formulary.Proofs.Engine.Calls
import Formulary.Proofs.Library.Comparison

set_option autoImplicit false

/-!
# Comparisons in sources

Operators that compare evaluate both operands. They agree with each other wherever they are written, as
equality and order of values do.
-/

namespace Formulary

namespace Engine

variable {engine : Engine} {resolver : Resolver} {v w : Value} {x y : Tree}

theorem standard_comparison (c : Library.Comparison) : OperatorTable.standard.find? .infixOp c.symbol =
    some ⟨10, true, Role.infixOp.implementationName c.symbol⟩ := by
  cases c <;> decide +kernel

theorem eager_comparison (c : Library.Comparison) : Eager (Role.infixOp.implementationName c.symbol) 2 :=
  ⟨_, Library.find?_comparison c, Library.defers_orderedPairs c⟩

theorem outcome_comparison (configured : engine.Configured) (c : Library.Comparison) {o : Ordering}
    (ordered : v.compare w = some o) (all : engine.Comes resolver [x, y] [v, w]) (place : Position) :
    engine.outcome resolver (.between place c.symbol x y) = .ok (.boolean (c.holds o)) :=
  outcome_operator configured (standard_comparison c) all (eager_comparison c)
    (Library.applied_comparison c ordered rfl)

theorem outcome_equal (configured : engine.Configured) (all : engine.Comes resolver [x, y] [v, w])
    (place : Position) :
    engine.outcome resolver (.between place "==" x y) = .ok (.boolean (v.equal w)) := by
  have mapped : OperatorTable.standard.find? .infixOp "==" =
      some ⟨7, true, Role.infixOp.implementationName "=="⟩ := by
    decide +kernel
  exact outcome_operator configured mapped all
    ⟨_, Library.find?_equal, Library.defers_anyPair Library.equal⟩ (Library.applied_equal rfl)

theorem outcome_unequal (configured : engine.Configured) (all : engine.Comes resolver [x, y] [v, w])
    (place : Position) :
    engine.outcome resolver (.between place "!=" x y) = .ok (.boolean (!v.equal w)) := by
  have mapped : OperatorTable.standard.find? .infixOp "!=" =
      some ⟨7, true, Role.infixOp.implementationName "!="⟩ := by
    decide +kernel
  exact outcome_operator configured mapped all
    ⟨_, Library.find?_unequal, Library.defers_anyPair Library.unequal⟩ (Library.applied_unequal rfl)

/-- The sources compare operands that come to the two values, each by one of the operators. -/
def Compares (engine : Engine) (resolver : Resolver) (v w : Value) (source : String → String) : Prop :=
  ∀ symbol ∈ ["<", "<=", ">", ">=", "==", "!="], ∃ (place : Position) (x y : Tree),
    engine.parse (source symbol) = .ok (.between place symbol x y) ∧ engine.Comes resolver [x, y] [v, w]

/-- A name that is no constant comes to what the resolver answers. -/
theorem outcome_of_alike_name {tree : Tree} {name : String}
    (alike : tree.Alike (.leaf ⟨.name, ⟨.start, name⟩⟩)) (free : engine.constant? name = none)
    (answers : resolver name = some v) : engine.outcome resolver tree = .ok v := by
  obtain ⟨token, children⟩ := tree
  obtain ⟨⟨isName, written⟩, -⟩ := Tree.alike_node.mp alike
  have unbound : engine.bindings.constants.lookup (Text.upper token.span.text) = none := by
    rw [written]
    exact free
  have compiled : engine.compile (.node token children) =
      .ok ⟨.reference token.span.text token.span, engine.context⟩ := by
    rw [compile, Expression.ofTree_of_compiled (.unbound isName unbound)]
    rfl
  have asked : (Run.ask resolver token.span.text
      ⟨.undefinedVariable token.span.text, token.span, [], none⟩).outcome = .ok v := by
    rw [written, Run.ask, answers]
  rw [outcome, compiled]
  exact congrArg Failure.lift asked

theorem outcome_name {name : String} (free : engine.constant? name = none)
    (answers : resolver name = some v) : engine.outcome resolver (.leaf ⟨.name, .whole name⟩) = .ok v :=
  outcome_of_alike_name (.refl _) free answers

/-- Variables of the new engine. -/
theorem compares_variables (first : resolver "a" = some v) (second : resolver "b" = some w) :
    ({} : Engine).Compares resolver v w fun symbol => "a " ++ symbol ++ " b" := by
  -- Where the tokens stand is of no interest, so the trees that are read are known up to that.
  have read : ∀ symbol ∈ ["<", "<=", ">", ">=", "==", "!="],
      ((({} : Engine).parse ("a " ++ symbol ++ " b")).toOption.any (·.sameStructure
        (.node ⟨.operator .infixOp, ⟨.start, symbol⟩⟩
          [.leaf ⟨.name, ⟨.start, "a"⟩⟩, .leaf ⟨.name, ⟨.start, "b"⟩⟩]))) = true := by
    decide +kernel
  intro symbol member
  have read := read symbol member
  cases parsed : ({} : Engine).parse ("a " ++ symbol ++ " b") with
  | error e =>
    rw [parsed] at read
    cases read
  | ok tree =>
    rw [parsed] at read
    obtain ⟨⟨kind, ⟨place, text⟩⟩, operands⟩ := tree
    obtain ⟨⟨isInfix, written⟩, alike⟩ := Tree.alike_node.mp read
    obtain rfl : kind = .operator .infixOp := isInfix
    obtain rfl : text = symbol := written
    obtain ⟨left, _, isLeft, rest, rfl⟩ := List.forall₂_cons_right_iff.mp alike
    obtain ⟨right, _, isRight, none, rfl⟩ := List.forall₂_cons_right_iff.mp rest
    obtain rfl := List.forall₂_nil_right_iff.mp none
    refine ⟨place, left, right, rfl, .cons ?_ (.cons ?_ .nil)⟩
    · exact outcome_of_alike_name isLeft (by decide +kernel) first
    · exact outcome_of_alike_name isRight (by decide +kernel) second

/-- Equality and order of values agree with each other, and all comparisons in sources agree with them. -/
theorem comparisons_agree :
    (Equivalence fun v w : Value => v.equal w = true) ∧
      (∀ v w : Value, (v.compare w).isSome = true ↔
        v.type = w.type ∧ v.type ∈ [ValueType.number, .text, .instant, .duration, .boolean]) ∧
      (∀ v w : Value, w.compare v = (v.compare w).map Ordering.swap) ∧
      (∀ (v w u : Value) (o o' : Ordering), v.compare w = some o → w.compare u = some o' →
        o.isLE = true → o'.isLE = true → v.compare u = some (o.then o')) ∧
      (∀ v w : Value, v.compare w = some .eq ↔ (v.compare w).isSome = true ∧ v.equal w = true) ∧
      ∀ (engine : Engine) (resolver : Resolver) (v w : Value) (source : String → String),
        engine.Configured → engine.Compares resolver v w source →
          let outcome := fun symbol => engine.evaluate (source symbol) resolver
          outcome "==" = .ok (.boolean (v.equal w)) ∧ outcome "!=" = .ok (.boolean (!v.equal w)) ∧
            ((v.compare w).isSome = true → ∃ less equal greater : Bool,
              outcome "<" = .ok (.boolean less) ∧ outcome "==" = .ok (.boolean equal) ∧
                outcome ">" = .ok (.boolean greater) ∧ [less, equal, greater].count true = 1 ∧
                outcome "<=" = .ok (.boolean (less || equal)) ∧
                outcome ">=" = .ok (.boolean (greater || equal))) := by
  refine ⟨Value.equal_equivalence, fun _ _ => Value.isSome_compare_iff, Value.compare_swap,
    fun _ _ _ _ _ => Value.compare_trans, fun _ _ => Value.compare_eq_iff, ?_⟩
  intro engine resolver v w source configured compares outcome
  have equal : outcome "==" = .ok (.boolean (v.equal w)) := by
    obtain ⟨place, x, y, parsed, all⟩ := compares "==" (by simp)
    exact (evaluate_of_parse parsed).trans (outcome_equal configured all place)
  have unequal : outcome "!=" = .ok (.boolean (!v.equal w)) := by
    obtain ⟨place, x, y, parsed, all⟩ := compares "!=" (by simp)
    exact (evaluate_of_parse parsed).trans (outcome_unequal configured all place)
  refine ⟨equal, unequal, fun isOrdered => ?_⟩
  obtain ⟨o, ordered⟩ := Option.isSome_iff_exists.mp isOrdered
  have compared (c : Library.Comparison) : outcome c.symbol = .ok (.boolean (c.holds o)) := by
    obtain ⟨place, x, y, parsed, all⟩ :=
      compares c.symbol (by cases c <;> simp [Library.Comparison.symbol])
    exact (evaluate_of_parse parsed).trans (outcome_comparison configured c ordered all place)
  rw [Value.equal_of_compare ordered] at equal
  refine ⟨o.isLT, o.isEq, o.isGT, compared .less, equal, compared .greater, ?one, ?atMost, ?atLeast⟩
  case one => cases o <;> rfl
  case atMost => exact (compared .lessOrEqual).trans (by cases o <;> rfl)
  case atLeast => exact (compared .greaterOrEqual).trans (by cases o <;> rfl)

/-- With a number below another, which is written with a zero behind it the second time. -/
theorem comparisons_agree_numbers :
    let resolver : Resolver := fun name => some (.number (if name = "a" then ⟨250, 2⟩ else ⟨3, 0⟩))
    Value.compare (.number ⟨250, 2⟩) (.number ⟨30, 1⟩) = some .lt ∧
      (∃ less equal greater : Bool,
        ({} : Engine).evaluate "a < b" resolver = .ok (.boolean less) ∧
          ({} : Engine).evaluate "a == b" resolver = .ok (.boolean equal) ∧
          ({} : Engine).evaluate "a > b" resolver = .ok (.boolean greater) ∧
          [less, equal, greater].count true = 1) ∧
      ({} : Engine).evaluate "a != b" resolver = .ok (.boolean true) := by
  intro resolver
  obtain ⟨-, -, -, trans, -, agree⟩ := comparisons_agree
  have compares : ({} : Engine).Compares resolver (.number ⟨250, 2⟩) (.number ⟨3, 0⟩) _ :=
    compares_variables rfl rfl
  obtain ⟨-, unequal, all⟩ := agree {} resolver _ _ _ .new compares
  obtain ⟨less, equal, greater, isLess, isEqual, isGreater, one, -⟩ := all rfl
  refine ⟨?_, ⟨less, equal, greater, isLess, isEqual, isGreater, one⟩, unequal⟩
  exact trans (.number ⟨250, 2⟩) (.number ⟨3, 0⟩) _ .lt .eq (by decide +kernel) (by decide +kernel) rfl rfl

end Engine

end Formulary

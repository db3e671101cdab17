import Formulary.Proofs.Function.Layering
import Formulary.Proofs.Function.Typing
import Formulary.Proofs.Library.Plans
import Formulary.Proofs.Value.Order

set_option autoImplicit false

/-!
# The types of the standard functions

The plan of each implementation suits the signatures of its overloads. Only the right operands of
conjunctions and disjunctions are of a type that has to be found out when they are evaluated.
-/

namespace Formulary.Library

open Plan

section Numbers

theorem integers_param? {count place : Nat} (inside : place < count) :
    ((integers count).param? place).map (·.type) = some (.only .number) := by
  simp [integers, Signature.param?, inside, Param.only, Param.checked]

theorem operate_suits (operation : Operation) :
    (operate operation).Suits (numbers 2) (some .number) := by
  refine ⟨_, operate_follows operation, fun name context count counted => ?_⟩
  obtain rfl : count = 2 := eq_of_beq counted
  refine suits_number (by decide) rfl fun x => ?_
  exact suits_number (by decide) rfl fun y => suits_arithmetic _

theorem negate_suits : negate.Suits (numbers 1) (some .number) := by
  refine ⟨_, negate_follows, fun name context count counted => ?_⟩
  obtain rfl : count = 1 := eq_of_beq counted
  refine suits_take (by decide) rfl rfl fun v isNumber => ?_
  cases v <;> cases isNumber
  exact suits_ok rfl

theorem negate_suits_duration : negate.Suits { params := [.only .duration] } (some .duration) := by
  refine ⟨_, negate_follows, fun name context count counted => ?_⟩
  obtain rfl : count = 1 := eq_of_beq counted
  refine suits_take (by decide) rfl rfl fun v isDuration => ?_
  cases v <;> cases isDuration
  exact suits_ok rfl

theorem identity_suits : identity.Suits (numbers 1) (some .number) := by
  refine ⟨_, identity_follows, fun name context count counted => ?_⟩
  obtain rfl : count = 1 := eq_of_beq counted
  refine suits_take (by decide) rfl rfl fun v isNumber => ?_
  exact suits_ok (eq_of_beq isNumber).symm

theorem combineAll_suits (combine : Decimal → Decimal → Decimal) {place amount count : Nat}
    (counts : place + amount = count) (result : Decimal) :
    (Strategy.combineAll combine amount result).Suits anyNumbers count (some .number) false place := by
  induction amount generalizing place result with
  | zero => exact suits_ok rfl
  | succ amount ih => exact suits_number (by omega) rfl fun x => ih (by omega) (combine result x)

theorem aggregate_suits (combine : Arithmetic → Decimal → Decimal → Decimal) :
    (aggregate combine).Suits anyNumbers (some .number) := by
  refine ⟨_, aggregate_follows combine, fun name context count counted => ?_⟩
  cases count with
  | zero => cases counted
  | succ count =>
    exact suits_number (Nat.zero_lt_succ count) rfl fun first =>
      combineAll_suits _ (Nat.add_comm 1 count) first

theorem onNumber_suits (compute : Arithmetic → Decimal → Option Decimal) {param : Param}
    (isNumber : param.type = .only .number) :
    (onNumber compute).Suits { params := [param] } (some .number) := by
  refine ⟨_, onNumber_follows compute, fun name context count counted => ?_⟩
  obtain rfl : count = 1 := eq_of_beq counted
  refine suits_number (by decide) (congrArg some isNumber) fun x => ?_
  exact suits_orRaise fun y _ => suits_ok rfl

theorem round_suits : round.Suits (numbers 1) (some .number) := by
  refine ⟨_, round_follows, fun name context count counted => ?_⟩
  obtain rfl : count = 1 := eq_of_beq counted
  exact suits_number Nat.one_pos rfl fun x => suits_arithmetic _

theorem round_suits_scale :
    round.Suits { params := [numberParam, numberParam.checked .integer] } (some .number) := by
  refine ⟨_, round_follows, fun name context count counted => ?_⟩
  obtain rfl : count = 2 := eq_of_beq counted
  refine suits_number Nat.two_pos rfl fun x => ?_
  exact suits_integer Nat.one_lt_two rfl fun scale => suits_arithmetic _

theorem newDate_suits {count : Nat} (counts : count = 3 ∨ count = 6) :
    newDate.Suits (integers count) (some .instant) := by
  refine ⟨_, newDate_follows, fun name context other counted => ?_⟩
  obtain rfl : other = count := by simpa [integers, Signature.acceptsCount] using counted
  refine suits_integers (by omega) (fun _ => integers_param?) fun parts => ?_
  rw [if_neg (by rcases counts with rfl | rfl <;> decide)]
  exact suits_orRaise fun t _ => suits_ok rfl

theorem durationFromMillis_suits : durationFromMillis.Suits (integers 1) (some .duration) := by
  refine ⟨_, durationFromMillis_follows, fun name context count counted => ?_⟩
  obtain rfl : count = 1 := eq_of_beq counted
  rw [Strategy.durationFromMillis, exactly_self]
  refine suits_integer (by decide) rfl fun millis => ?_
  exact suits_orRaise fun d _ => suits_ok rfl

end Numbers

section Values

/-- An operation on two values suits two types if it does on all values of these. -/
theorem onValues_suits {body : Implementation} {next : Value → Value → Plan Value} {first second : Param}
    {type? : Option ValueType} (follows : body.Follows (.onValues next))
    (eager : first.deferred = false ∧ second.deferred = false)
    (each : ∀ x y, first.type.accepts x.type = true → second.type.accepts y.type = true →
      (next x y).Suits { params := [first, second] } 2 type? false 2) :
    body.Suits { params := [first, second] } type? := by
  refine ⟨_, follows, fun name context count counted => ?_⟩
  obtain rfl : count = 2 := eq_of_beq counted
  refine suits_take (by decide) rfl eager.1 fun x acceptedFirst => ?_
  exact suits_take (by decide) rfl eager.2 fun y acceptedSecond => each x y acceptedFirst acceptedSecond

theorem onValues_pure_suits (compute : Value → Value → Value) {type : ValueType}
    (typed : ∀ x y, (compute x y).type = type) {first second : Param}
    (eager : first.deferred = false ∧ second.deferred = false) :
    Implementation.Suits (fun call arguments => call.onValues arguments fun x y => pure (compute x y))
      { params := [first, second] } (some type) :=
  onValues_suits (onValues_pure_follows compute) eager fun x y _ _ => suits_ok (typed x y)

variable {signature : Signature} {count place : Nat} {excused : Bool}

theorem inLimits_suits {α : Type} (result : Option α) {build : α → Value} {type : ValueType}
    (typed : ∀ a, (build a).type = type) :
    (Strategy.inLimits (result.map build)).Suits signature count (some type) excused place := by
  refine suits_orRaise fun v isResult => ?_
  obtain ⟨a, -, rfl⟩ := Option.map_eq_some_iff.mp isResult
  exact suits_ok (typed a)

theorem addTime_suits_instant :
    addTime.Suits { params := [.only .instant, .only .duration] } (some .instant) := by
  refine onValues_suits addTime_follows ⟨rfl, rfl⟩ fun x y isInstant isDuration => ?_
  cases x <;> cases isInstant
  cases y <;> cases isDuration
  exact inLimits_suits _ fun _ => rfl

theorem addTime_suits_duration :
    addTime.Suits { params := [.only .duration, .only .duration] } (some .duration) := by
  refine onValues_suits addTime_follows ⟨rfl, rfl⟩ fun x y isDuration isDurationToo => ?_
  cases x <;> cases isDuration
  cases y <;> cases isDurationToo
  exact inLimits_suits _ fun _ => rfl

theorem subTime_suits_instants :
    subTime.Suits { params := [.only .instant, .only .instant] } (some .duration) := by
  refine onValues_suits subTime_follows ⟨rfl, rfl⟩ fun x y isInstant isInstantToo => ?_
  cases x <;> cases isInstant
  cases y <;> cases isInstantToo
  exact suits_ok rfl

theorem subTime_suits_instant :
    subTime.Suits { params := [.only .instant, .only .duration] } (some .instant) := by
  refine onValues_suits subTime_follows ⟨rfl, rfl⟩ fun x y isInstant isDuration => ?_
  cases x <;> cases isInstant
  cases y <;> cases isDuration
  exact inLimits_suits _ fun _ => rfl

theorem subTime_suits_duration :
    subTime.Suits { params := [.only .duration, .only .duration] } (some .duration) := by
  refine onValues_suits subTime_follows ⟨rfl, rfl⟩ fun x y isDuration isDurationToo => ?_
  cases x <;> cases isDuration
  cases y <;> cases isDurationToo
  exact inLimits_suits _ fun _ => rfl

theorem compare_suits (comparison : Comparison) {type : ValueType}
    (ordered : type ∈ [.number, .text, .instant, .duration, .boolean]) :
    (compare comparison).Suits (pair type type) (some .boolean) := by
  refine onValues_suits (compare_follows comparison) ⟨rfl, rfl⟩ fun x y first second => ?_
  obtain rfl : type = x.type := eq_of_beq first
  obtain ⟨order, isOrder⟩ := Option.isSome_iff_exists.mp
    (Value.isSome_compare_iff.mpr ⟨eq_of_beq second, ordered⟩)
  rw [isOrder]
  exact suits_ok rfl

theorem element_suits :
    element.Suits { params := [.only .array, (Param.only .number).checked .integer] } none := by
  refine onValues_suits element_follows ⟨rfl, rfl⟩ fun array index isArray isNumber => ?_
  cases array <;> cases isArray
  cases index <;> cases isNumber
  dsimp only
  split
  · exact suits_ok_any _
  · exact suits_fail (by simp)

theorem entry_suits : entry.Suits { params := [.only .record, .only .text] } none := by
  refine onValues_suits entry_follows ⟨rfl, rfl⟩ fun associate key isRecord isText => ?_
  cases associate <;> cases isRecord
  cases key <;> cases isText
  dsimp only
  split
  · exact suits_ok_any _
  · exact suits_fail (by simp)

end Values

section Logic

theorem not_suits : not.Suits { params := [.only .boolean] } (some .boolean) := by
  refine ⟨_, not_follows, fun name context count counted => ?_⟩
  obtain rfl : count = 1 := eq_of_beq counted
  exact suits_boolean (by decide) rfl fun b => suits_ok rfl

theorem and_suits : and.Suits shortCircuit (some .boolean) := by
  refine ⟨_, and_follows, fun name context count counted => ?_⟩
  obtain rfl : count = 2 := eq_of_beq counted
  refine suits_boolean (by decide) rfl fun b => ?_
  cases b with
  | true => exact suits_boolean (by decide) rfl fun c => suits_ok rfl
  | false => exact suits_ok rfl

theorem or_suits : or.Suits shortCircuit (some .boolean) := by
  refine ⟨_, or_follows, fun name context count counted => ?_⟩
  obtain rfl : count = 2 := eq_of_beq counted
  refine suits_boolean (by decide) rfl fun b => ?_
  cases b with
  | true => exact suits_ok rfl
  | false => exact suits_boolean (by decide) rfl fun c => suits_ok rfl

theorem choose_suits :
    choose.Suits { params := [.only .boolean, Param.any.lazily, Param.any.lazily] } none := by
  refine ⟨_, choose_follows, fun name context count counted => ?_⟩
  obtain rfl : count = 3 := eq_of_beq counted
  refine suits_boolean (by decide) rfl fun b => ?_
  cases b with
  | true => exact suits_take_ok (by decide)
  | false => exact ⟨by decide, suits_take_ok (by decide)⟩

theorem firstOf_suits {signature : Signature} {excused : Bool} {place amount count : Nat}
    (counts : place + amount = count) :
    (Strategy.firstOf amount).Suits signature count none excused place := by
  induction amount generalizing place excused with
  | zero => exact suits_ok_any _
  | succ amount ih =>
    have later (v : Value) (excused : Bool) :
        (if v.isNull then Strategy.firstOf amount else ok v).Suits signature count none excused
          (place + 1) := by
      split
      · exact ih (by omega)
      · exact suits_ok_any v
    exact ⟨by omega, fun _ _ v => ⟨fun _ => later v _, fun _ _ => later v _⟩⟩

theorem firstPresent_suits :
    Implementation.Suits (fun _ => firstPresent) { variadic := some Param.any.lazily } none :=
  ⟨_, firstPresent_follows, fun _ _ count _ => firstOf_suits (Nat.zero_add count)⟩

end Logic

section Tables

/-- Each definition of a list suits its signature and the type beside it. -/
abbrev AllSuit (definitions : List (String × Overload)) (types : List (Option ValueType)) : Prop :=
  List.Forall₂ (fun definition type? => definition.2.body.Suits definition.2.signature type?)
    definitions types

theorem definitions_ofDefinitions (definitions : List (String × Signature × Implementation)) :
    (FunctionTable.ofDefinitions definitions).definitions =
      definitions.map fun d => (Text.upper d.1, ⟨d.2.1, d.2.2⟩) :=
  FunctionTable.definitions_defineAll {} definitions

theorem arithmetic_suit : AllSuit arithmetic.definitions
    (List.replicate 7 (some .number) ++ some .duration :: List.replicate 11 (some .number)) := by
  have onOne : ∀ compute, (onNumber compute).Suits (numbers 1) (some .number) :=
    fun compute => onNumber_suits compute rfl
  have squareRoot : (onNumber Arithmetic.squareRoot?).Suits
      { params := [numberParam.checked .nonNegative] } (some .number) := onNumber_suits _ rfl
  have logarithm : (onNumber Arithmetic.logarithm?).Suits
      { params := [numberParam.checked .positive] } (some .number) := onNumber_suits _ rfl
  simp [arithmetic, definitions_ofDefinitions, operate_suits, negate_suits, negate_suits_duration,
    identity_suits, aggregate_suits, onOne, squareRoot, logarithm, round_suits, round_suits_scale]

theorem time_suit : AllSuit time.definitions
    [some .instant, some .duration, some .duration, some .instant, some .duration, some .instant,
      some .instant, some .duration] := by
  have onDays : newDate.Suits (integers 3) (some .instant) := newDate_suits (.inl rfl)
  have onTimes : newDate.Suits (integers 6) (some .instant) := newDate_suits (.inr rfl)
  simp [time, definitions_ofDefinitions, addTime_suits_instant, addTime_suits_duration,
    subTime_suits_instants, subTime_suits_instant, subTime_suits_duration, onDays, onTimes,
    durationFromMillis_suits]

theorem joining_suit : AllSuit joining.definitions [some .text, some .text] := by
  have joins : ∀ {first second : Param}, first.deferred = false ∧ second.deferred = false →
      join.Suits { params := [first, second] } (some .text) :=
    onValues_pure_suits (fun x y => .text (x.toText ++ y.toText)) fun _ _ => rfl
  have textFirst : join.Suits { params := [.only .text, .any] } (some .text) := joins ⟨rfl, rfl⟩
  have textSecond : join.Suits { params := [.any, .only .text] } (some .text) := joins ⟨rfl, rfl⟩
  simp [joining, definitions_ofDefinitions, textFirst, textSecond]

theorem comparison_suit : AllSuit comparison.definitions (List.replicate 22 (some .boolean)) := by
  have equals : equal.Suits anyPair (some .boolean) :=
    onValues_pure_suits (fun x y => .boolean (x.equal y)) (fun _ _ => rfl) ⟨rfl, rfl⟩
  have differs : unequal.Suits anyPair (some .boolean) :=
    onValues_pure_suits (fun x y => .boolean (!x.equal y)) (fun _ _ => rfl) ⟨rfl, rfl⟩
  simp [comparison, comparisons, definitions_ofDefinitions, equals, differs, compare_suits]

theorem logic_suit : AllSuit logic.definitions
    [some .boolean, some .boolean, some .boolean, some .boolean, none, none] := by
  simp [logic, definitions_ofDefinitions, and_suits, or_suits, not_suits, choose_suits,
    firstPresent_suits]

theorem access_suit : AllSuit access.definitions [none, none] := by
  simp [access, definitions_ofDefinitions, element_suits, entry_suits]

end Tables

/-- The type of the results of an overload, by its name and the types of its parameters. What a choice or an
access comes to is of no fixed type. -/
def resultType? (name : String) (params : List ParamType) : Option ValueType :=
  match name, params with
  | "INFIX +", [.only .number, _] | "INFIX -", [.only .number, _] | "PREFIX -", [.only .number] =>
    some .number
  | "INFIX *", _ | "INFIX /", _ | "INFIX %", _ | "INFIX ^", _ | "PREFIX +", _ => some .number
  | "MAX", _ | "MIN", _ | "SUM", _ => some .number
  | "ABS", _ | "FLOOR", _ | "CEILING", _ | "SQRT", _ | "LOG", _ | "ROUND", _ => some .number
  | "INFIX +", [.only .instant, .only .duration] | "INFIX -", [.only .instant, .only .duration]
  | "DT_DATE_NEW", _ => some .instant
  | "INFIX +", [.only .duration, .only .duration] | "INFIX -", [.only .instant, .only .instant]
  | "INFIX -", [.only .duration, .only .duration] | "PREFIX -", [.only .duration]
  | "DT_DURATION_FROM_MILLIS", _ => some .duration
  | "INFIX +", _ => some .text
  | "INFIX ==", _ | "INFIX !=", _ | "INFIX <", _ | "INFIX <=", _ | "INFIX >", _ | "INFIX >=", _ =>
    some .boolean
  | "INFIX &&", _ | "INFIX ||", _ | "PREFIX !", _ | "NOT", _ => some .boolean
  | _, _ => none

/-- Calls that come to what one of their arguments or an element of it is. -/
def ofAnyType : List String :=
  ["IF", "COALESCE", elementName, entryName]

def fixedType? (definition : String × Overload) : Option ValueType :=
  resultType? definition.1 (definition.2.signature.params.map (·.type))

theorem forall_of_allSuit {definitions : List (String × Overload)} {types : List (Option ValueType)}
    (h : AllSuit definitions types) (same : definitions.map fixedType? = types) :
    ∀ definition ∈ definitions,
      definition.2.body.Suits definition.2.signature (fixedType? definition) := by
  subst same
  exact List.forall₂_same.mp (List.forall₂_map_right_iff.mp h)

theorem standard_suit : ∀ definition ∈ standard.definitions,
    definition.2.body.Suits definition.2.signature (fixedType? definition) := by
  have merged {first second : FunctionTable} {P : String × Overload → Prop}
      (one : ∀ definition ∈ first.definitions, P definition)
      (other : ∀ definition ∈ second.definitions, P definition) :
      ∀ definition ∈ (first ++ second).definitions, P definition :=
    List.forall_mem_append.mpr ⟨one, other⟩
  have ofArithmetic := forall_of_allSuit arithmetic_suit (by decide +kernel)
  have ofTime := forall_of_allSuit time_suit (by decide +kernel)
  have ofJoining := forall_of_allSuit joining_suit (by decide +kernel)
  have ofComparison := forall_of_allSuit comparison_suit (by decide +kernel)
  have ofLogic := forall_of_allSuit logic_suit (by decide +kernel)
  have ofAccess := forall_of_allSuit access_suit (by decide +kernel)
  exact merged (merged (merged (merged (merged ofArithmetic ofTime) ofJoining) ofComparison) ofLogic)
    ofAccess

theorem ofAnyType_of_fixedType? : ∀ definition ∈ standard.definitions, fixedType? definition = none →
    definition.1 ∈ ofAnyType := by
  decide +kernel

/-- Where a parameter of a standard function is deferred, it takes any value, or it is the right operand of a
conjunction or a disjunction. -/
theorem deferred_params : ∀ definition ∈ standard.definitions,
    (∀ entry ∈ definition.2.signature.params.zipIdx, entry.1.deferred = true →
      entry.1.type = .any ∨ entry.1.type = .only .boolean ∧ entry.2 = 1 ∧
        (definition.1 = Text.upper "infix &&" ∨ definition.1 = Text.upper "infix ||")) ∧
    ∀ param ∈ definition.2.signature.variadic, param.deferred = true → param.type = .any := by
  decide +kernel

theorem operand_of_surprises {definition : String × Overload} (member : definition ∈ standard.definitions)
    {arguments : List Argument} {evaluate : Nat → Run Value}
    (surprised : definition.2.signature.Surprises arguments evaluate) :
    (definition.1 = Text.upper "infix &&" ∨ definition.1 = Text.upper "infix ||") ∧
      ∃ index sketch v, arguments[1]? = some (.deferred index sketch) ∧
        (evaluate index).outcome = .ok v ∧ v.type ≠ .boolean := by
  obtain ⟨place, param, index, sketch, v, isParam, deferred, isArgument, evaluated, refused⟩ := surprised
  have notAny : param.type ≠ .any := by
    intro any
    simp [any, ParamType.accepts] at refused
  rcases Option.or_eq_some_iff.mp isParam with isFixed | ⟨-, isVariadic⟩
  · have entry := List.mk_mem_zipIdx_iff_getElem?.mpr isFixed
    rcases (deferred_params definition member).1 _ entry deferred with any | ⟨boolean, isSecond, name⟩
    · exact absurd any notAny
    · obtain rfl : place = 1 := isSecond
      refine ⟨name, index, sketch, v, isArgument, evaluated, fun isBoolean => ?_⟩
      have typed : param.type = .only .boolean := boolean
      simp [typed, isBoolean, ParamType.accepts] at refused
  · exact absurd ((deferred_params definition member).2 param isVariadic deferred) notAny

/-- The standard functions can handle all arguments that their signatures admit, in any context and however
deferred arguments are evaluated. An error for want of support is that of a deferred argument or about the
right operand of a conjunction or disjunction, and results are of the type that is fixed by the overload. -/
theorem standard_sound (definition : String × Overload) (member : definition ∈ standard.definitions)
    (call : Call) (arguments : List Argument) (admitted : definition.2.signature.Admits arguments)
    (evaluate : Nat → Run Value) :
    (∀ e, ((definition.2.body call arguments).run evaluate).outcome = .error e →
      e.cause = .unsupportedTypes →
        (∃ index sketch, .deferred index sketch ∈ arguments ∧ (evaluate index).outcome = .error e) ∨
        (definition.1 = Text.upper "infix &&" ∨ definition.1 = Text.upper "infix ||") ∧
          ∃ index sketch v, arguments[1]? = some (.deferred index sketch) ∧
            (evaluate index).outcome = .ok v ∧ v.type ≠ .boolean) ∧
    ∀ v, ((definition.2.body call arguments).run evaluate).outcome = .ok v →
      definition.1 ∈ ofAnyType ∨ fixedType? definition = some v.type := by
  have delivers := (standard_suit definition member).delivers call admitted evaluate
  constructor
  · intro e failed unsupported
    rw [failed] at delivers
    rcases delivers unsupported with (excused | surprised) | ofArgument
    · cases excused
    · exact .inr (operand_of_surprises member surprised)
    · exact .inl ofArgument
  · intro v ended
    rw [ended] at delivers
    cases fixed : fixedType? definition with
    | none => exact .inl (ofAnyType_of_fixedType? definition member fixed)
    | some type => exact .inr (congrArg some (delivers type fixed).symm)

/-- A conjunction with a right operand that comes to a text, and then to a boolean. -/
theorem standard_sound_conjunction :
    let name := Text.upper "infix &&"
    let call : Call := ⟨"infix &&", .whole "&&", {}⟩
    let arguments : List Argument := [.value (.boolean true), .deferred 1 (.reference "x" (.whole "x"))]
    let evaluate : Value → Nat → Run Value := fun v _ => .ok v
    (name, ⟨shortCircuit, and⟩) ∈ standard.definitions ∧ shortCircuit.Admits arguments ∧
    ((and call arguments).run (evaluate (.text "a"))).outcome = .error (call.error .unsupportedTypes) ∧
    (∃ index sketch v, arguments[1]? = some (.deferred index sketch) ∧
      (evaluate (.text "a") index).outcome = .ok v ∧ v.type ≠ .boolean) ∧
    ((and call arguments).run (evaluate (.boolean false))).outcome = .ok (.boolean false) ∧
    (name ∈ ofAnyType ∨ fixedType? (name, ⟨shortCircuit, and⟩) = some .boolean) := by
  intro name call arguments evaluate
  have member : (name, ⟨shortCircuit, and⟩) ∈ standard.definitions := List.mem_of_getElem? (i := 51) rfl
  have admitted : shortCircuit.Admits arguments := by
    refine ⟨rfl, fun index place sketch isDeferred => ?_⟩
    match index with
    | 0 => cases isDeferred
    | 1 => rfl
  have sound := fun v =>
    standard_sound (name, ⟨shortCircuit, and⟩) member call arguments admitted (evaluate v)
  refine ⟨member, admitted, rfl, ?_, rfl, (sound (.boolean false)).2 _ rfl⟩
  rcases (sound (.text "a")).1 _ rfl rfl with ⟨_, _, -, impossible⟩ | ⟨-, operand⟩
  · cases impossible
  · exact operand

end Formulary.Library

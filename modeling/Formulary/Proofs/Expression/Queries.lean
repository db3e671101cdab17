import Formulary.Proofs.Expression.Alike
import Formulary.Proofs.Expression.Calls
import Formulary.Proofs.Expression.Given
import Formulary.Proofs.Library.Plans

set_option autoImplicit false

/-!
# The variables that an evaluation asks for

They are found in the expression from left to right, and nothing else about a resolver has a part in what
the evaluation comes to.
-/

namespace Formulary

/-- Implementations ask for arguments in order, and the arguments that are deferred come last, so those
that are not are evaluated before any of them. -/
structure Overload.Orderly (overloads : List Overload) (count : Nat) : Prop where
  ascend : ∀ overload ∈ overloads, overload.body.Ascends
  last : ∀ first second, first ≤ second → second < count → defers overloads first = true →
    defers overloads second = true

theorem Library.orderly_of_find? {name : String} {count : Nat} {overloads : List Overload}
    (h : standard.find? name count = some overloads) : Overload.Orderly overloads count := by
  have each := (standard_ascends.and standard_defersLast).find? h
  refine ⟨fun overload member => (each overload member).1.1, fun first second after inside => ?_⟩
  apply Overload.defers_of_le _ after inside
  exact fun overload member => ⟨(each overload member).1.2, (each overload member).2⟩

/-- What comes of a run depends on a resolver only by the answers that it is given. -/
def Run.Determined {α : Type} (run : Resolver → Run α) : Prop :=
  ∀ resolver other, (∀ name ∈ (run resolver).asked, other name = resolver name) →
    run other = run resolver

namespace Run.Determined

variable {α β : Type}

theorem const (run : Run α) : Determined fun _ => run :=
  fun _ _ _ => rfl

theorem ask (name : String) (missing : Error) : Determined fun resolver => ask resolver name missing := by
  intro resolver other same
  have asked : name ∈ (Run.ask resolver name missing).asked := by
    unfold Run.ask
    split <;> exact List.mem_singleton.mpr rfl
  simp only [Run.ask, same name asked]

theorem bind {run : Resolver → Run α} {next : Resolver → α → Run β} (h : Determined run)
    (continues : ∀ resolver a, (run resolver).outcome = .ok a → Determined fun r => next r a) :
    Determined fun resolver => run resolver >>= next resolver := by
  intro resolver other same
  dsimp only at same ⊢
  cases outcome : (run resolver).outcome with
  | error e =>
    rw [asked_bind_of_error _ outcome] at same
    rw [h resolver other same]
    exact bind_congr fun a isOk => by simp [outcome] at isOk
  | ok a =>
    rw [asked_bind_of_ok _ outcome] at same
    rw [h resolver other fun name asked => same name (List.mem_append_left _ asked)]
    apply bind_congr
    intro b isOk
    obtain rfl : a = b := by simpa [outcome] using isOk
    exact continues resolver a outcome resolver other fun name asked =>
      same name (List.mem_append_right _ asked)

theorem routine {evaluate : Resolver → Nat → Run Value}
    (each : ∀ index, Determined fun resolver => evaluate resolver index) (routine : Routine α) :
    Determined fun resolver => routine.run (evaluate resolver) := by
  intro resolver other same
  dsimp only at same ⊢
  induction routine with
  | done result => rfl
  | force index next ih =>
    have here := each index resolver other fun name asked => same name (List.mem_append_left _ asked)
    have later := ih (evaluate resolver index).outcome fun name asked =>
      same name (List.mem_append_right _ asked)
    dsimp only at here
    simp only [Routine.run, here, later]

end Run.Determined

namespace Expression

mutual

/-- The names of the variables, from left to right, as often as they are written. -/
def names : Expression → List String
  | literal _ => []
  | reference name _ => [name]
  | call _ _ arguments _ => allNames arguments
  | member object _ _ => names object

def allNames : List Expression → List String
  | [] => []
  | e :: rest => names e ++ allNames rest

end

variable {resolver : Resolver} {context : Context} {defers : Nat → Bool}

namespace Given

/-- The names that may still be asked for. -/
def names : Given → List String
  | value _ => []
  | deferred argument => argument.names

theorem inPlace (given : List Given) (start : Nat) : Argument.InPlace start (toArguments start given) := by
  induction given generalizing start with
  | nil => trivial
  | cons given rest ih =>
    refine ⟨?_, ih _⟩
    cases given with
    | value v => trivial
    | deferred argument => exact rfl

/-- The names that may still be asked for when the arguments have been evaluated that are not deferred. -/
def remaining : Except Error (List Given) → List String
  | .ok given => given.flatMap names
  | .error _ => []

theorem remaining_map_cons (v : Value) (given : Except Error (List Given)) :
    remaining (given.map (value v :: ·)) = remaining given := by
  cases given <;> rfl

end Given

theorem flatMap_names_deferred (arguments : List Expression) :
    (arguments.map Given.deferred).flatMap Given.names = allNames arguments := by
  induction arguments with
  | nil => rfl
  | cons argument rest ih => rw [List.map_cons, List.flatMap_cons, ih, allNames, Given.names]

/-- What is evaluated at once comes before what may be asked for later. -/
theorem asked_give {arguments : List Expression} (index : Nat)
    (each : ∀ argument ∈ arguments, (argument.evaluate resolver context).asked.Sublist argument.names)
    (last : ∀ first second, first ≤ second → second < index + arguments.length → defers first = true →
      defers second = true) :
    ((give resolver context defers index arguments).asked ++
      Given.remaining (give resolver context defers index arguments).outcome).Sublist
        (allNames arguments) := by
  induction arguments generalizing index with
  | nil => simp [give, Run.ok, Given.remaining]
  | cons argument rest ih =>
    rw [List.length_cons] at last
    cases deferred : defers index with
    | true =>
      have all : give resolver context defers index (argument :: rest) =
          .ok ((argument :: rest).map .deferred) :=
        give_of_deferred fun place after inside => last index place after inside deferred
      simp only [all, Run.ok, Given.remaining, List.nil_append, flatMap_names_deferred]
      exact List.Sublist.refl _
    | false =>
      obtain ⟨first, others⟩ := List.forall_mem_cons.mp each
      have later := ih (index + 1) others fun one other after inside => last one other after (by omega)
      rw [give_cons_of_eager deferred, allNames]
      cases outcome : (argument.evaluate resolver context).outcome with
      | error e =>
        rw [Run.asked_bind_of_error _ outcome, Run.outcome_bind, outcome]
        simpa [Except.bind, Given.remaining] using first.trans (List.sublist_append_left _ _)
      | ok v =>
        rw [Run.asked_bind_of_ok _ outcome, Run.outcome_bind, outcome, List.append_assoc]
        apply first.append
        rwa [Except.bind, Run.asked_map, Run.outcome_map, Given.remaining_map_cons]

/-- What is given keeps the names in the order of the arguments, so the implementation asks for them in
this order. -/
theorem asked_call {name : String} {overloads : List Overload} {arguments : List Expression} {span : Span}
    (orderly : Overload.Orderly overloads arguments.length)
    (each : ∀ argument ∈ arguments,
      (argument.evaluate resolver context).asked.Sublist argument.names) :
    ((call name overloads arguments span).evaluate resolver context).asked.Sublist
      (allNames arguments) := by
  have prepared := asked_give 0 each fun first second after inside =>
    orderly.last first second after (by omega)
  rw [evaluate_call]
  cases outcome : (give resolver context (Overload.defers overloads) 0 arguments).outcome with
  | error e =>
    rw [Run.asked_bind_of_error _ outcome]
    exact (List.sublist_append_left _ _).trans prepared
  | ok given =>
    rw [Run.asked_bind_of_ok _ outcome]
    rw [outcome] at prepared
    refine List.Sublist.trans (List.Sublist.append (List.Sublist.refl _) ?_) prepared
    have ascends := Overload.dispatch_ascends orderly.ascend ⟨name, span, context⟩ (Given.inPlace given 0)
    have answers : ∀ index, (Given.answer resolver ⟨name, span, context⟩ given index).asked.Sublist
        ((given.map Given.names)[index]?.getD []) := by
      intro index
      rw [List.getElem?_map, Given.answer]
      rcases (gives_of_give outcome).found_cases index with found | ⟨v, found⟩ | ⟨argument, member, found⟩ <;>
        rw [found]
      · exact List.Sublist.refl _
      · exact List.Sublist.refl _
      · exact each argument member
    simpa [Given.remaining, List.flatMap] using ascends.asked_sublist answers

/-- Where implementations ask in order and deferred arguments come last, the variables that are asked for
are found in the expression from left to right. -/
theorem asked_sublist {e : Expression} (h : e.Calls fun _ => Overload.Orderly) (resolver : Resolver)
    (context : Context) : (e.evaluate resolver context).asked.Sublist e.names := by
  induction e using induct with
  | onLiteral value => exact List.Sublist.refl _
  | onReference name span =>
    rw [evaluate, Run.ask]
    split <;> exact List.Sublist.refl _
  | onCall name overloads arguments span ih =>
    cases h with
    | call _ _ orderly each =>
      exact asked_call orderly fun argument member => ih argument member (each argument member)
  | onMember object field span ih =>
    cases h with
    | member _ _ each =>
      rw [evaluate, names]
      cases outcome : (object.evaluate resolver context).outcome with
      | error e =>
        rw [Run.asked_bind_of_error _ outcome]
        exact ih each
      | ok v =>
        rw [Run.asked_bind_of_ok _ outcome, List.append_nil]
        exact ih each

theorem give_determined {arguments : List Expression}
    (each : ∀ argument ∈ arguments, Run.Determined fun r => argument.evaluate r context) (index : Nat) :
    Run.Determined fun r => give r context defers index arguments := by
  induction arguments generalizing index with
  | nil => exact .const _
  | cons argument rest ih =>
    obtain ⟨first, others⟩ := List.forall_mem_cons.mp each
    have later := ih others (index + 1)
    unfold give
    refine .bind ?_ fun _ one _ => later.bind fun _ others _ => .const _
    cases defers index with
    | true => exact .const _
    | false => exact first.bind fun _ v _ => .const _

/-- Resolvers that give the same answers to what is asked for lead to the same questions and the same value
or error. -/
theorem evaluate_determined (e : Expression) (context : Context) :
    Run.Determined fun resolver => e.evaluate resolver context := by
  induction e using induct with
  | onLiteral value => exact .const _
  | onReference name span => exact .ask _ _
  | onCall name overloads arguments span ih =>
    simp only [evaluate_call]
    refine (give_determined ih 0).bind fun resolver given isGiven => .routine (fun index => ?_) _
    unfold Given.answer
    rcases (gives_of_give isGiven).found_cases index with found | ⟨v, found⟩ | ⟨argument, member, found⟩ <;>
      rw [found]
    · exact .const _
    · exact .const _
    · exact ih argument member
  | onMember object field span ih => exact ih.bind fun _ v _ => .const _

end Expression

end Formulary

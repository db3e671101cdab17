import Formulary.Expression.Basic

set_option autoImplicit false

/-!
# Evaluation

A run of an evaluation keeps the names of the variables that it asks for, in the order in which it
does. Arguments are evaluated from left to right; a deferred one is kept for the implementation that
is called, which may or may not ask for it.
-/

namespace Formulary

/-- The value of a variable, if it is known. -/
abbrev Resolver := String → Option Value

/-- What the first resolver does not know is left to the second. -/
def Resolver.orElse (first second : Resolver) : Resolver :=
  fun name => (first name).or (second name)

structure Run (α : Type) where
  asked : List String
  outcome : Except Error α

namespace Run

variable {α β γ : Type}

def ok (a : α) : Run α := ⟨[], .ok a⟩

def fail (e : Error) : Run α := ⟨[], .error e⟩

def bind (run : Run α) (f : α → Run β) : Run β :=
  match run.outcome with
  | .error e => ⟨run.asked, .error e⟩
  | .ok a =>
    let next := f a
    ⟨run.asked ++ next.asked, next.outcome⟩

instance : Monad Run where
  pure := ok
  bind := bind

theorem bind_ok (run : Run α) : run.bind ok = run := by
  obtain ⟨asked, outcome⟩ := run
  cases outcome <;> simp [bind, ok]

theorem bind_assoc (run : Run α) (f : α → Run β) (g : β → Run γ) :
    (run.bind f).bind g = run.bind fun a => (f a).bind g := by
  obtain ⟨asked, outcome⟩ := run
  cases outcome with
  | error e => rfl
  | ok a => cases h : (f a).outcome <;> simp [bind, h]

instance : LawfulMonad Run :=
  LawfulMonad.mk' _ bind_ok (fun _ _ => rfl) bind_assoc

/-- Asks a resolver for a variable. -/
def ask (resolver : Resolver) (name : String) (missing : Error) : Run Value :=
  match resolver name with
  | some value => ⟨[name], .ok value⟩
  | none => ⟨[name], .error missing⟩

end Run

/-- Runs a routine, given how the arguments that it asks for are evaluated. -/
def Routine.run {α : Type} (evaluate : Nat → Run Value) : Routine α → Run α
  | done result => ⟨[], result⟩
  | force index next =>
    let answer := evaluate index
    let rest := (next answer.outcome).run evaluate
    ⟨answer.asked ++ rest.asked, rest.outcome⟩

/-- Running is a homomorphism: what a routine asks for comes before what its continuation does. -/
theorem Routine.run_bind {α β : Type} (evaluate : Nat → Run Value) (routine : Routine α)
    (f : α → Routine β) :
    (routine.bind f).run evaluate = (routine.run evaluate).bind fun a => (f a).run evaluate := by
  induction routine with
  | done result => cases result <;> simp [bind, run, Run.bind]
  | force index next ih =>
    simp only [bind, run, ih, Run.bind]
    cases ((next (evaluate index).outcome).run evaluate).outcome <;> simp

/-- An argument before the call: its value, or its sketch and how to come by its value. -/
inductive Pending where
  | ready (value : Value)
  | waiting (sketch : Sketch) (evaluate : Unit → Run Value)

namespace Pending

def toArgument (index : Nat) : Pending → Argument
  | ready value => .value value
  | waiting sketch _ => .deferred index sketch

def toArguments (pending : List Pending) : List Argument :=
  pending.zipIdx.map fun (argument, index) => argument.toArgument index

def evaluate : Pending → Run Value
  | ready value => .ok value
  | waiting _ evaluate => evaluate ()

end Pending

/-- Calls the overload that accepts the arguments. An argument that the call does not have is of no
type. -/
def Call.perform (call : Call) (overloads : List Overload) (pending : List Pending) : Run Value :=
  (Overload.dispatch overloads call (Pending.toArguments pending)).run fun index =>
    match pending[index]? with
    | some argument => argument.evaluate
    | none => .fail (call.error .unsupportedTypes)

namespace Expression

/-- The field of a record; errors are placed at the name of the field. -/
def project (field : String) (span : Span) : Value → Except Error Value
  | .record fields =>
    match fields.find? field with
    | some value => .ok value
    | none => .error ⟨.fieldNotFound field, span, [], none⟩
  | other => .error ⟨.notRecord other.type, span, [], none⟩

mutual

def evaluate (resolver : Resolver) (context : Context) : Expression → Run Value
  | literal value => .ok value
  | reference name span => .ask resolver name ⟨.undefinedVariable name, span, [], none⟩
  | call name overloads arguments span => do
    let pending ← prepare resolver context (Overload.defers overloads) 0 arguments
    Call.perform ⟨name, span, context⟩ overloads pending
  | member object field span => do
    let value ← evaluate resolver context object
    ⟨[], project field span value⟩

/-- Evaluates the arguments that are not deferred. -/
def prepare (resolver : Resolver) (context : Context) (defers : Nat → Bool) (index : Nat) :
    List Expression → Run (List Pending)
  | [] => .ok []
  | argument :: rest => do
    let first ← (if defers index then
        pure (.waiting argument.sketch fun _ => evaluate resolver context argument)
      else Pending.ready <$> evaluate resolver context argument)
    let others ← prepare resolver context defers (index + 1) rest
    return first :: others

end

end Expression

end Formulary

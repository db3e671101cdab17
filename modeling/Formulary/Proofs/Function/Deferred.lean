import Formulary.Proofs.Function.Lookup

set_option autoImplicit false

/-!
# Implementations that only evaluate their arguments

Deferred arguments come with sketches of their expressions, which an implementation may write down. One that
does nothing with its arguments but evaluate them does the same whatever the sketches are, and so does the
choice among overloads, which looks at values alone.
-/

namespace Formulary

variable {arguments others : List Argument}

namespace Argument

/-- Arguments that evaluate alike differ in nothing but their sketches. -/
theorem eq_or_of_evaluate {a b : Argument} (same : a.evaluate = b.evaluate) :
    a = b ∨ ∃ index s t, a = .deferred index s ∧ b = .deferred index t := by
  cases a with
  | value v =>
    cases b with
    | value w =>
      have values : v = w := by simpa [evaluate, pure] using same
      exact .inl (congrArg value values)
    | deferred => cases same
  | deferred index s =>
    cases b with
    | value => cases same
    | deferred place t =>
      have indices : index = place := (Routine.force.inj same).1
      exact .inr ⟨index, s, t, rfl, indices ▸ rfl⟩

theorem eq_of_map_evaluate (values : ∀ index sketch, .deferred index sketch ∉ arguments)
    (same : arguments.map evaluate = others.map evaluate) : arguments = others := by
  induction arguments generalizing others with
  | nil => exact (List.map_eq_nil_iff.mp same.symm).symm
  | cons first rest ih =>
    obtain ⟨other, more, rfl, here, later⟩ := List.map_eq_cons_iff.mp same.symm
    have tails : rest = more :=
      ih (fun index sketch member => values index sketch (List.mem_cons_of_mem _ member)) later.symm
    rcases eq_or_of_evaluate here.symm with rfl | ⟨index, s, _, rfl, -⟩
    · rw [tails]
    · exact absurd List.mem_cons_self (values index s)

/-- What does not depend on sketches is the same for arguments that evaluate alike. -/
theorem map_zipIdx_congr {α : Type} {f : Argument × Nat → α}
    (blind : ∀ index place s t, f (.deferred index s, place) = f (.deferred index t, place))
    (same : arguments.map evaluate = others.map evaluate) :
    arguments.zipIdx.map f = others.zipIdx.map f := by
  refine List.ext_getElem? fun place => ?_
  have here : (arguments[place]?).map evaluate = (others[place]?).map evaluate := by
    rw [← List.getElem?_map, ← List.getElem?_map, same]
  simp only [List.getElem?_map, List.getElem?_zipIdx, Option.map_map]
  cases isFirst : arguments[place]? with
  | none =>
    rw [isFirst] at here
    rw [Option.map_eq_none_iff.mp here.symm]
  | some a =>
    rw [isFirst] at here
    obtain ⟨b, isSecond, alike⟩ := Option.map_eq_some_iff.mp here.symm
    rw [isSecond]
    rcases eq_or_of_evaluate alike with rfl | ⟨index, s, t, rfl, rfl⟩
    · rfl
    · exact congrArg some (blind _ _ _ _)

end Argument

namespace Signature

variable (signature : Signature)

@[simp] theorem acceptsArgument_deferred (place index : Nat) (sketch : Sketch) :
    signature.acceptsArgument place (.deferred index sketch) = (signature.param? place).isSome := by
  cases isParam : signature.param? place <;> simp [acceptsArgument, isParam]

@[simp] theorem complaints_deferred (place index : Nat) (sketch : Sketch) :
    signature.complaints place (.deferred index sketch) = [] := by
  simp [complaints]

theorem accepts_eq (arguments : List Argument) : signature.accepts arguments =
    (signature.acceptsCount arguments.length &&
      (arguments.zipIdx.map fun entry => signature.acceptsArgument entry.2 entry.1).all id) := by
  rw [accepts, List.all_map]
  rfl

theorem accepts_congr (same : arguments.map Argument.evaluate = others.map Argument.evaluate) :
    signature.accepts arguments = signature.accepts others := by
  have length : arguments.length = others.length := by simpa using congrArg List.length same
  have each := Argument.map_zipIdx_congr
    (f := fun entry => signature.acceptsArgument entry.2 entry.1) (by simp) same
  rw [accepts_eq, accepts_eq, length, each]

theorem allComplaints_congr (same : arguments.map Argument.evaluate = others.map Argument.evaluate) :
    signature.allComplaints arguments = signature.allComplaints others := by
  rw [allComplaints, allComplaints, List.flatMap_def, List.flatMap_def]
  exact congrArg List.flatten (Argument.map_zipIdx_congr (by simp) same)

end Signature

/-- All that the implementation does with its arguments is to evaluate them. -/
def Implementation.OnlyEvaluates (body : Implementation) : Prop :=
  ∀ (call : Call) (arguments others : List Argument),
    arguments.map Argument.evaluate = others.map Argument.evaluate →
      body call arguments = body call others

/-- An implementation that writes down its argument tells a constant from a variable. -/
example : ¬Implementation.OnlyEvaluates fun _ arguments =>
    match arguments with
    | [.deferred _ (.reference name _)] => pure (.text name)
    | _ => pure .null := by
  intro only
  have same := only ⟨"f", .whole "f(x)", {}⟩ [.deferred 0 (.reference "x" (.whole "x"))]
    [.deferred 0 (.literal .null)] rfl
  cases same

namespace Overload

/-- If an argument is deferred, then all that is done with it is to evaluate it. -/
def OnlyEvaluate (overloads : List Overload) : Prop :=
  (∃ index, defers overloads index = true) → ∀ overload ∈ overloads, overload.body.OnlyEvaluates

theorem select?_congr (overloads : List Overload)
    (same : arguments.map Argument.evaluate = others.map Argument.evaluate) :
    select? overloads arguments = select? overloads others := by
  unfold select?
  exact congrArg overloads.find? (funext fun overload => overload.signature.accepts_congr same)

theorem dispatch_eq_of_evaluate {overloads : List Overload}
    (only : ∀ overload ∈ overloads, overload.body.OnlyEvaluates) (call : Call)
    (same : arguments.map Argument.evaluate = others.map Argument.evaluate) :
    dispatch overloads call arguments = dispatch overloads call others := by
  unfold dispatch
  rw [select?_congr overloads same]
  cases found : select? overloads others with
  | none => rfl
  | some overload =>
    dsimp only
    rw [overload.signature.allComplaints_congr same]
    cases overload.signature.allComplaints others with
    | nil => exact only overload (List.mem_of_find?_eq_some found) call arguments others same
    | cons first rest => rfl

/-- The same for functions that need not be restricted where all arguments are values. -/
theorem OnlyEvaluate.dispatch_eq {overloads : List Overload} (only : OnlyEvaluate overloads) (call : Call)
    (deferred : ∀ index sketch, .deferred index sketch ∈ arguments → ∃ place, defers overloads place = true)
    (same : arguments.map Argument.evaluate = others.map Argument.evaluate) :
    dispatch overloads call arguments = dispatch overloads call others := by
  by_cases defer : ∃ place, defers overloads place = true
  · exact dispatch_eq_of_evaluate (only defer) call same
  · rw [Argument.eq_of_map_evaluate (fun index sketch member => defer (deferred index sketch member)) same]

end Overload

namespace Functions

/-- Functions that defer arguments do nothing with them but evaluate those that they need. That is what
deferring is meant for; an implementation could do more, because it can look at sketches. -/
def OnlyEvaluate (functions : Functions) : Prop :=
  ∀ name count overloads, functions.find? name count = some overloads → Overload.OnlyEvaluate overloads

theorem onlyEvaluate_single {table : FunctionTable} (each : table.Each (·.body.OnlyEvaluates)) :
    (ofLayers (.single table)).OnlyEvaluate :=
  fun _ _ _ found _ overload member => (each.find? found overload member).1

theorem OnlyEvaluate.upon {top bottom : Functions} (h : top.OnlyEvaluate) (below : bottom.OnlyEvaluate) :
    (top.upon bottom).OnlyEvaluate := by
  intro name count overloads found
  rcases Option.or_eq_some_iff.mp found with onTop | ⟨-, beneath⟩
  · exact h name count overloads onTop
  · exact below name count overloads beneath

end Functions

end Formulary

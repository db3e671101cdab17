import Formulary.Expression.Evaluation

set_option autoImplicit false

/-!
# Implementations that ask for their arguments in order

A routine ascends if it asks for arguments by increasing indices, so for none of them twice. What it asks
of variables is then found among those of its arguments, from left to right.
-/

namespace Formulary

/-- Asks for arguments by increasing indices, which are `first` or more and below `stop`. -/
inductive Routine.Ascends {α : Type} : Nat → Nat → Routine α → Prop
  | done {first stop : Nat} (result : Except Error α) : Ascends first stop (.done result)
  | force {first stop index : Nat} {next : Except Error Value → Routine α} :
      first ≤ index → index < stop → (∀ answer, Ascends (index + 1) stop (next answer)) →
      Ascends first stop (.force index next)

namespace Routine.Ascends

variable {α β : Type} {first middle stop : Nat}

theorem pure (a : α) : Ascends first stop (Pure.pure a) :=
  .done (.ok a)

theorem mono {routine : Routine α} (h : Ascends middle stop routine) (begins : first ≤ middle)
    {last : Nat} (ends : stop ≤ last) : Ascends first last routine := by
  induction h generalizing first with
  | done result => exact .done result
  | force above below _ ih =>
    exact .force (by omega) (by omega) fun answer => ih answer (Nat.le_refl _) ends

theorem bind {routine : Routine α} {next : α → Routine β} (h : Ascends first middle routine)
    (continues : ∀ a, Ascends middle stop (next a)) (begins : first ≤ middle) (ends : middle ≤ stop) :
    Ascends first stop (routine >>= next) := by
  induction h with
  | done result =>
    cases result with
    | ok a => exact (continues a).mono begins (Nat.le_refl _)
    | error e => exact .done (.error e)
  | force above below _ ih =>
    exact .force above (by omega) fun answer => ih answer continues (by omega) ends

/-- What is asked of variables is found among those that belong to the arguments, in their order. -/
theorem asked_sublist {routine : Routine α} (h : Ascends first stop routine)
    {evaluate : Nat → Run Value} {names : List (List String)}
    (each : ∀ index, (evaluate index).asked.Sublist (names[index]?.getD [])) :
    (routine.run evaluate).asked.Sublist (names.drop first).flatten := by
  induction h with
  | done result => exact List.nil_sublist _
  | @force first stop index next above _ _ ih =>
    have here := each index
    have later := ih (evaluate index).outcome
    have between : (names.drop index).flatten.Sublist (names.drop first).flatten := by
      obtain ⟨skipped, split⟩ := List.drop_suffix (index - first) (names.drop first)
      rw [List.drop_drop, Nat.add_sub_cancel' above] at split
      rw [← split, List.flatten_append]
      exact List.sublist_append_right _ _
    refine List.Sublist.trans ?_ between
    by_cases inside : index < names.length
    · rw [List.getElem?_eq_getElem inside, Option.getD_some] at here
      rw [List.drop_eq_getElem_cons inside, List.flatten_cons]
      exact here.append later
    · rw [List.getElem?_eq_none (by omega), Option.getD_none] at here
      rw [List.drop_eq_nil_of_le (by omega)] at later ⊢
      simpa [Routine.run, List.eq_nil_of_sublist_nil here] using later

end Routine.Ascends

/-- An argument that is given by its own index if it is deferred. -/
def Argument.At (index : Nat) : Argument → Prop
  | .value _ => True
  | .deferred place _ => place = index

/-- Arguments of which the first has the index `start`. -/
def Argument.InPlace (start : Nat) : List Argument → Prop
  | [] => True
  | argument :: rest => argument.At start ∧ InPlace (start + 1) rest

/-- However it is called, the implementation asks for its arguments by increasing indices. -/
def Implementation.Ascends (body : Implementation) : Prop :=
  ∀ (call : Call) (arguments : List Argument), Argument.InPlace 0 arguments →
    (body call arguments).Ascends 0 arguments.length

theorem Routine.Ascends.evaluate {argument : Argument} {index : Nat} (h : argument.At index) :
    Ascends index (index + 1) argument.evaluate := by
  cases argument with
  | value v => exact .pure v
  | deferred place _ =>
    obtain rfl : place = index := h
    exact .force (Nat.le_refl _) (Nat.lt_succ_self _) fun answer => .done answer

namespace Signature

variable {signature : Signature} {count first second : Nat}

/-- After a parameter that is deferred there is none that is not. -/
def DefersLast (signature : Signature) : Prop :=
  (signature.params ++ signature.variadic.toList).Pairwise fun one other =>
    one.deferred = true → other.deferred = true

instance : Decidable signature.DefersLast :=
  inferInstanceAs (Decidable (List.Pairwise _ _))

/-- All further arguments have the last parameter. -/
theorem param?_eq (signature : Signature) (index : Nat) : signature.param? index =
    (signature.params ++ signature.variadic.toList)[min index signature.params.length]? := by
  unfold param?
  by_cases inside : index < signature.params.length
  · rw [Nat.min_eq_left (Nat.le_of_lt inside), List.getElem?_append_left inside,
      List.getElem?_eq_getElem inside, Option.some_or]
  · rw [Nat.min_eq_right (Nat.le_of_not_lt inside), List.getElem?_append_right (Nat.le_refl _),
      List.getElem?_eq_none (Nat.le_of_not_lt inside), Nat.sub_self]
    cases signature.variadic <;> rfl

theorem DefersLast.deferred_of_le (h : signature.DefersLast)
    (accepts : signature.acceptsCount count = true) (after : first ≤ second) (inside : second < count)
    (deferred : (signature.param? first).any (·.deferred) = true) :
    (signature.param? second).any (·.deferred) = true := by
  have known : min second signature.params.length <
      (signature.params ++ signature.variadic.toList).length := by
    unfold acceptsCount at accepts
    cases isVariadic : signature.variadic with
    | none =>
      obtain rfl : count = signature.params.length := by simpa [isVariadic] using accepts
      rw [Option.toList_none, List.append_nil]
      omega
    | some param =>
      rw [Option.toList_some, List.length_append, List.length_singleton]
      omega
  rw [param?_eq, List.getElem?_eq_getElem (by omega), Option.any_some] at deferred
  rw [param?_eq, List.getElem?_eq_getElem known, Option.any_some]
  have ordered : min first signature.params.length ≤ min second signature.params.length := by omega
  rcases Nat.eq_or_lt_of_le ordered with same | before
  · simpa only [same] using deferred
  · exact List.pairwise_iff_getElem.mp h _ _ _ known before deferred

end Signature

namespace Overload

theorem defers_of_le {overloads : List Overload} {count first second : Nat}
    (last : ∀ overload ∈ overloads,
      overload.signature.DefersLast ∧ overload.signature.acceptsCount count = true)
    (after : first ≤ second) (inside : second < count) (deferred : defers overloads first = true) :
    defers overloads second = true := by
  cases overloads with
  | nil => cases deferred
  | cons overload _ =>
    obtain ⟨last, accepts⟩ := last overload List.mem_cons_self
    exact last.deferred_of_le accepts after inside deferred

theorem dispatch_ascends {overloads : List Overload}
    (ascend : ∀ overload ∈ overloads, overload.body.Ascends) (call : Call)
    {arguments : List Argument} (inPlace : Argument.InPlace 0 arguments) :
    (dispatch overloads call arguments).Ascends 0 arguments.length := by
  unfold dispatch
  cases selected : select? overloads arguments with
  | none => exact .done _
  | some overload =>
    dsimp only
    cases overload.signature.allComplaints arguments with
    | nil => exact ascend overload (List.mem_of_find?_eq_some selected) call arguments inPlace
    | cons first rest => exact .done _

end Overload

end Formulary

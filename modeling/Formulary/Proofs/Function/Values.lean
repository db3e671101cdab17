import Formulary.Function.Table
import Mathlib.Data.List.Forall2

set_option autoImplicit false

/-!
# Values that meet a signature

Values of the types that parameters ask for, which pass their validators, get to the implementation as they
are. What one validator complains about does not.
-/

namespace Formulary

/-- The value is of the type and passes the validators. -/
structure Param.Meets (param : Param) (v : Value) : Prop where
  accepted : param.type.accepts v.type = true
  passes : ∀ validator ∈ param.validators, validator v = none

variable {params : List Param} {values : List Value} {call : Call}

namespace Signature

/-- The values stand at the places of their parameters. -/
theorem exists_of_mem_zipIdx {R : Param → Value → Prop} (all : List.Forall₂ R params values)
    {argument : Argument} {index : Nat} (member : (argument, index) ∈ (values.map Argument.value).zipIdx) :
    ∃ param v, param? { params } index = some param ∧ argument = .value v ∧ R param v := by
  have isArgument := List.mk_mem_zipIdx_iff_getElem?.mp member
  rw [List.getElem?_map, Option.map_eq_some_iff] at isArgument
  obtain ⟨v, isValue, rfl⟩ := isArgument
  obtain ⟨inside, rfl⟩ := List.getElem?_eq_some_iff.mp isValue
  have insideToo : index < params.length := all.length_eq ▸ inside
  refine ⟨params[index], values[index], ?_, rfl, all.get insideToo inside⟩
  simp [param?, insideToo]

theorem accepts_of_forall₂
    (all : List.Forall₂ (fun (param : Param) v => param.type.accepts v.type = true) params values) :
    accepts { params } (values.map .value) = true := by
  rw [accepts, Bool.and_eq_true, List.all_eq_true]
  constructor
  · simp [acceptsCount, all.length_eq]
  · rintro ⟨argument, index⟩ member
    obtain ⟨param, v, isParam, rfl, accepted⟩ := exists_of_mem_zipIdx all member
    simpa only [acceptsArgument, isParam] using accepted

theorem allComplaints_eq_nil (all : List.Forall₂ Param.Meets params values) :
    allComplaints { params } (values.map .value) = [] := by
  rw [allComplaints, List.flatMap_eq_nil_iff]
  rintro ⟨argument, index⟩ member
  obtain ⟨param, v, isParam, rfl, meets⟩ := exists_of_mem_zipIdx all member
  simpa only [complaints, isParam, List.filterMap_eq_nil_iff] using meets.passes

end Signature

namespace Overload

variable {body : Implementation}

/-- Where there is one overload, and the values meet it, it is run. -/
theorem dispatch_of_meets (all : List.Forall₂ Param.Meets params values) :
    dispatch [⟨{ params }, body⟩] call (values.map .value) = body call (values.map .value) := by
  have accepted := Signature.accepts_of_forall₂ (all.imp fun _ _ => Param.Meets.accepted)
  have selected : select? [⟨{ params }, body⟩] (values.map .value) = some ⟨{ params }, body⟩ :=
    List.find?_cons_of_pos accepted
  simp only [dispatch, selected, Signature.allComplaints_eq_nil all]

theorem dispatch_of_complaints {first : String} {rest : List String}
    (all : List.Forall₂ (fun (param : Param) v => param.type.accepts v.type = true) params values)
    (complaints : Signature.allComplaints { params } (values.map .value) = first :: rest) :
    dispatch [⟨{ params }, body⟩] call (values.map .value) =
      .fail { call.error (.invalidArgument first) with secondary := rest.map .invalidArgument } := by
  have selected : select? [⟨{ params }, body⟩] (values.map .value) = some ⟨{ params }, body⟩ :=
    List.find?_cons_of_pos (Signature.accepts_of_forall₂ all)
  simp only [dispatch, selected, complaints]

end Overload

end Formulary

import Formulary.Proofs.Tree.Blame

set_option autoImplicit false

/-!
# Where errors of reading tokens stand

Reading fails at the token at hand or at one that waits, so what holds of the places of all tokens holds
of the place of the error, unless it is the source as a whole. A tree has the places of its tokens.
-/

namespace Formulary.Tree

namespace Stacks

variable {operators : Operators} {functions : FunctionArity} {previous : Option Kind}
  {token : Token} {s t : Stacks} {e : SyntaxError} {P : Span → Prop}

/-- All that waits has a place with the property. -/
def WaitsAt (P : Span → Prop) (s : Stacks) : Prop :=
  ∀ waits ∈ s.waiting, P waits.span

theorem WaitsAt.joins {ready : Token → Prop} (waits : s.WaitsAt P) (h : Joins ready s t) :
    t.WaitsAt P :=
  fun token member => waits token (h.waiting_suffix.subset member)

theorem WaitsAt.wait {operands : List Tree} (waits : s.WaitsAt P) (here : P token.span) :
    WaitsAt P ⟨operands, token :: s.waiting⟩ :=
  List.forall_mem_cons.mpr ⟨here, waits⟩

theorem waitsAt_cons {operands : List Tree} {waiting : List Token} :
    WaitsAt P ⟨operands, token :: waiting⟩ ↔ P token.span ∧ WaitsAt P ⟨operands, waiting⟩ :=
  List.forall_mem_cons

/-- An access has the place of its bracket, and all other tokens wait as they are. -/
theorem WaitsAt.step (waits : s.WaitsAt P) (here : P token.span)
    (h : Step functions previous token s t) : t.WaitsAt P := by
  cases h with
  | operand => exact waits
  | wait | openGroup | openCall => exact waits.wait here
  | operator _ _ joins => exact (waits.joins joins).wait here
  | field _ joins => exact (waits.joins joins).wait here
  | comma _ joins => exact waits.joins joins
  | openAccess _ isAccess joins =>
    have sameSpan := Token.span_of_content? isAccess
    exact waitsAt_cons.mpr ⟨here, (waits.joins joins).wait (sameSpan ▸ here)⟩
  | closeGroup _ joins => exact (waitsAt_cons.mp (waits.joins joins)).2
  | closeCall _ joins => exact (waitsAt_cons.mp (waitsAt_cons.mp (waits.joins joins)).2).2
  | closeAccess _ joins => exact (waitsAt_cons.mp (waitsAt_cons.mp (waits.joins joins)).2).2

theorem waitsAt_of_addAll {tokens : List Token} (placed : ∀ token ∈ tokens, P token.span)
    (waits : s.WaitsAt P) (h : addAll operators functions previous s tokens = .ok t) :
    t.WaitsAt P := by
  induction tokens generalizing previous s with
  | nil =>
    cases h
    exact waits
  | cons token tokens ih =>
    obtain ⟨here, placed⟩ := List.forall_mem_cons.mp placed
    obtain ⟨between, added, h⟩ := addAll_cons_eq_ok.mp h
    exact ih placed (waits.step here (step_of_add added)) h

section Errors

theorem join_error_span {operands : List Tree} (h : join token operands = .error e) :
    e.span = token.span := by
  have missed : ∀ {operands missing}, operand operands token missing = .error e →
      e.span = token.span := fun failed => (operand_eq_error failed).1 ▸ rfl
  rw [join] at h
  split at h
  case h_1 | h_2 =>
    rcases bind_eq_error_iff.mp h with failed | ⟨_, _, result⟩
    · exact missed failed
    · cases result
  case h_3 | h_4 | h_5 | h_6 =>
    rcases bind_eq_error_iff.mp h with failed | ⟨_, _, h⟩
    · exact missed failed
    · rcases bind_eq_error_iff.mp h with failed | ⟨_, _, result⟩
      · exact missed failed
      · cases result
  case h_7 =>
    cases h
    rfl

theorem reduce_error_span {ready : Token → Except SyntaxError Bool} {operands : List Tree}
    {waiting : List Token} (own : ∀ token, ready token = .error e → e.span = token.span)
    (h : reduce ready operands waiting = .error e) : ∃ token ∈ waiting, e.span = token.span := by
  induction waiting generalizing operands with
  | nil => cases h
  | cons token waiting ih =>
    rw [reduce] at h
    rcases bind_eq_error_iff.mp h with failed | ⟨isReady, _, h⟩
    · exact ⟨token, List.mem_cons_self, own token failed⟩
    · cases isReady with
      | false => cases h
      | true =>
        rcases bind_eq_error_iff.mp h with failed | ⟨joined, _, h⟩
        · exact ⟨token, List.mem_cons_self, join_error_span failed⟩
        · obtain ⟨other, member, same⟩ := ih h
          exact ⟨other, List.mem_cons_of_mem _ member, same⟩

theorem WaitsAt.reduceWhile_error {ready : Token → Bool} (waits : s.WaitsAt P)
    (h : s.reduceWhile ready = .error e) : P e.span := by
  obtain ⟨token, member, same⟩ := reduce_error_span (by simp) h
  exact same ▸ waits token member

theorem mapping_error_span (h : mapping operators token = .error e) : e.span = token.span := by
  unfold mapping at h
  split at h <;> cases h
  rfl

theorem bindsBefore_error_span {current : Mapping} (h : bindsBefore operators current token = .error e) :
    e.span = token.span := by
  unfold bindsBefore at h
  split at h
  · cases h
  · rcases bind_eq_error_iff.mp h with failed | ⟨_, _, result⟩
    · exact mapping_error_span failed
    · cases result
  · cases h

theorem WaitsAt.addOperator_error (waits : s.WaitsAt P) (here : P token.span)
    (h : s.addOperator operators token = .error e) : P e.span := by
  by_cases isPrefix : token.kind = .operator .prefixOp
  · rw [addOperator_prefixed isPrefix] at h
    rcases bind_eq_error_iff.mp h with failed | ⟨_, _, result⟩
    · exact mapping_error_span failed ▸ here
    · cases result
  · rw [addOperator_of_ne isPrefix] at h
    rcases bind_eq_error_iff.mp h with failed | ⟨current, _, h⟩
    · exact mapping_error_span failed ▸ here
    · rcases bind_eq_error_iff.mp h with failed | ⟨_, _, result⟩
      · obtain ⟨other, member, same⟩ := reduce_error_span (fun _ => bindsBefore_error_span) failed
        exact same ▸ waits other member
      · cases result

theorem arguments_error_span {function : Token} {found operands : List Tree}
    (h : arguments function found operands = .error e) : e.span = function.span := by
  induction operands generalizing found with
  | nil =>
    cases h
    rfl
  | cons tree rest ih =>
    rw [arguments] at h
    split at h
    · cases h
    · exact ih h

theorem call_error_span {function : Token} {operands : List Tree}
    (h : call functions function operands = .error e) : e.span = function.span := by
  rcases bind_eq_error_iff.mp h with failed | ⟨⟨args, rest⟩, _, h⟩
  · exact arguments_error_span failed
  · dsimp only at h
    split at h
    · cases h
      rfl
    · split at h <;> cases h
      rfl

theorem takeWaiting_error_span {closing : Token} (h : s.takeWaiting closing = .error e) :
    e.span = closing.span := by
  unfold takeWaiting at h
  split at h <;> cases h
  rfl

theorem WaitsAt.takeWaiting {closing : Token} {taken : Token × Stacks} (waits : s.WaitsAt P)
    (h : s.takeWaiting closing = .ok taken) : P taken.1.span ∧ taken.2.WaitsAt P := by
  obtain rfl := takeWaiting_eq_ok h
  exact waitsAt_cons.mp waits

theorem WaitsAt.closeParen_error (waits : s.WaitsAt P) (here : P token.span)
    (h : s.closeParen functions token = .error e) : P e.span := by
  rcases bind_eq_error_iff.mp h with failed | ⟨between, reduced, h⟩
  · exact waits.reduceWhile_error failed
  have waits := waits.joins (joins_of_toOpening reduced).1
  rcases bind_eq_error_iff.mp h with failed | ⟨⟨opening, below⟩, taken, h⟩
  · exact takeWaiting_error_span failed ▸ here
  obtain ⟨-, waits⟩ := waits.takeWaiting taken
  dsimp only at h
  split at h
  next function waiting isTop =>
    split at h
    · rcases bind_eq_error_iff.mp h with failed | ⟨_, _, result⟩
      · exact call_error_span failed ▸ waits function (isTop ▸ List.mem_cons_self)
      · cases result
    · cases h
  next => cases h

theorem WaitsAt.closeAccess_error (waits : s.WaitsAt P) (here : P token.span)
    (h : s.closeAccess token = .error e) : P e.span := by
  rcases bind_eq_error_iff.mp h with failed | ⟨between, reduced, h⟩
  · exact waits.reduceWhile_error failed
  have waits := waits.joins (joins_of_toOpening reduced).1
  rcases bind_eq_error_iff.mp h with failed | ⟨⟨opening, below⟩, taken, h⟩
  · exact takeWaiting_error_span failed ▸ here
  obtain ⟨-, waits⟩ := waits.takeWaiting taken
  rcases bind_eq_error_iff.mp h with failed | ⟨⟨access, last⟩, taken, h⟩
  · exact takeWaiting_error_span failed ▸ here
  obtain ⟨atAccess, -⟩ := waits.takeWaiting taken
  rcases bind_eq_error_iff.mp h with failed | ⟨_, _, result⟩
  · exact join_error_span failed ▸ atAccess
  · cases result

/-- A token cannot be read for its own sake or for that of a token that waits. -/
theorem WaitsAt.add_error (waits : s.WaitsAt P) (here : P token.span)
    (h : s.add operators functions previous token = .error e) : P e.span := by
  rw [add] at h
  split at h
  case h_1 | h_2 | h_3 | h_4 | h_7 => cases h
  case h_5 => exact waits.reduceWhile_error h
  case h_6 => exact waits.addOperator_error here h
  case h_8 | h_9 | h_12 =>
    rcases bind_eq_error_iff.mp h with failed | ⟨_, _, result⟩
    · exact waits.reduceWhile_error failed
    · cases result
  case h_10 => exact waits.closeParen_error here h
  case h_11 => exact waits.closeAccess_error here h
  case h_13 =>
    cases h
    exact here

end Errors

end Stacks

open Stacks

variable {operators : Operators} {functions : FunctionArity} {source : String} {tokens : List Token}
  {P : Span → Prop}

theorem ofTokens_error_span {e : SyntaxError} (placed : ∀ token ∈ tokens, P token.span)
    (h : ofTokens operators functions source tokens = .error e) : P e.span ∨ e.span = .whole source := by
  have start : ({} : Stacks).WaitsAt P := by simp [WaitsAt]
  rcases bind_eq_error_iff.mp h with failed | ⟨s, read, h⟩
  · obtain ⟨before, token, after, t, rfl, read, failed⟩ := exists_add_eq_error failed
    have isBefore : ∀ token ∈ before, P token.span := fun token member => placed token (by simp [member])
    exact .inl ((waitsAt_of_addAll isBefore start read).add_error (placed token (by simp)) failed)
  · rcases bind_eq_error_iff.mp h with failed | ⟨t, _, h⟩
    · exact .inl ((waitsAt_of_addAll placed start read).reduceWhile_error failed)
    · right
      split at h
      · cases h
        rfl
      · split at h <;> cases h
        rfl
      · cases h
        rfl

theorem ofTokens_span {tree : Tree} (placed : ∀ token ∈ tokens, P token.span)
    (h : ofTokens operators functions source tokens = .ok tree) :
    ∀ part ∈ tree.nodes, P part.token.span := by
  intro part member
  obtain ⟨token, isToken, isRoot⟩ := exists_token_of_mem_nodes h member
  exact Token.span_of_content? isRoot ▸ placed token isToken

end Formulary.Tree

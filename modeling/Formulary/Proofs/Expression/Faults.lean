import Formulary.Proofs.Expression.Alike
import Formulary.Proofs.Function.Lookup
import Formulary.Proofs.Token.Decoding
import Formulary.Proofs.Tree.Blame

set_option autoImplicit false

/-!
# What can be wrong with a tree that was read

A tree that is read from a source has a mapping for each operator, a meaning for each string literal
and as many children as belong under each node. What compiling it can still complain about is a number
out of bounds, an operator that is mapped to nothing, and a field that is no name. It can panic at a number
only.
-/

namespace Formulary

namespace Tree

/-- A name on its own, which can be a field. -/
def IsPlainName (tree : Tree) : Prop :=
  tree.kind = .name ∧ tree.children = []

/-- What reading a source makes sure of at each node. -/
structure Sound (operators : Operators) (functions : FunctionArity) (part : Tree) : Prop where
  admits : part.kind.Admits functions part.text part.children.length
  mapped : ∀ role, part.kind = .operator role → (operators.find? role part.text).isSome = true
  decodes : part.kind = .text → part.token.literal?.isSome = true

section Reading

variable {operators : Operators} {functions : FunctionArity} {features : Features}

theorem mapped_of_add {previous : Option Kind} {s t : Stacks} {token : Token}
    (h : s.add operators functions previous token = .ok t) (role : Role)
    (kind : token.kind = .operator role) :
    (operators.find? role token.span.text).isSome = true := by
  have adds : s.addOperator operators token = .ok t := by
    rw [Stacks.add, kind] at h
    exact h
  obtain ⟨mapping, found, -⟩ := bind_eq_ok_iff.mp adds
  have looked : token.kind.role?.bind (fun role => operators.find? role token.span.text) =
      operators.find? role token.span.text := by
    rw [kind]
    rfl
  rw [Stacks.mapping, looked] at found
  split at found
  next isMapping => rw [isMapping]; rfl
  next => cases found

theorem mapped_of_addAll {tokens : List Token} {previous : Option Kind} {s t : Stacks}
    (h : Stacks.addAll operators functions previous s tokens = .ok t) :
    ∀ token ∈ tokens, ∀ role, token.kind = .operator role →
      (operators.find? role token.span.text).isSome = true := by
  induction tokens generalizing previous s with
  | nil => simp
  | cons token tokens ih =>
    obtain ⟨between, added, h⟩ := Stacks.addAll_cons_eq_ok.mp h
    exact List.forall_mem_cons.mpr ⟨mapped_of_add added, ih h⟩

theorem eq_of_content? {token root : Token} (isRoot : token.content? = some root)
    (noElement : root.kind ≠ .element) (noEntry : root.kind ≠ .entry) : token = root := by
  unfold Token.content? at isRoot
  split at isRoot
  case h_4 => cases isRoot; exact absurd rfl noElement
  case h_5 => cases isRoot; exact absurd rfl noEntry
  case h_6 => exact Option.some.inj isRoot
  all_goals cases isRoot

theorem sound_of_parse {source : String} {tree : Tree}
    (h : parse operators functions features source = .ok tree) :
    ∀ part ∈ tree.nodes, part.Sound operators functions := by
  obtain ⟨tokens, tokenized, read⟩ := bind_eq_ok_iff.mp h
  obtain ⟨s, added, -, -⟩ := ofTokens_eq_ok read
  intro part member
  obtain ⟨token, inTokens, isRoot⟩ := exists_token_of_mem_nodes read member
  refine ⟨fits_of_ofTokens read part member, ?_, ?_⟩
  · intro role kind
    obtain rfl := eq_of_content? isRoot (by simp [kind]) (by simp [kind])
    exact mapped_of_addAll added _ inTokens role kind
  · intro kind
    obtain rfl := eq_of_content? isRoot (by simp [kind]) (by simp [kind])
    exact tokenize_decodes tokenized _ inTokens kind

end Reading

end Tree

namespace Expression

open Formulary.Tree

variable {bindings : Bindings}

/-- What is wrong with a node, and the error that tells of it, if compiling does not panic there. -/
inductive Fault (bindings : Bindings) : Tree → Failure → Prop
  | literal {token : Token} {children : List Tree} :
      token.kind = .number → numberLiteral token.span.text = .ok none →
      Fault bindings (.node token children) (token.fails (.invalidLiteral token.span.text))
  | panic {token : Token} {children : List Tree} :
      token.kind = .number → numberLiteral token.span.text = .error .panic →
      Fault bindings (.node token children) .panic
  | field {token : Token} {object operand : Tree} :
      token.kind = .field → ¬operand.IsPlainName →
      Fault bindings (.node token [object, operand])
        (operand.token.fails (.invalidField operand.render))
  | operator {token : Token} {children : List Tree} {role : Role} {mapping : Mapping} :
      token.kind = .operator role → children.length = role.arity →
      bindings.operators.find? role token.span.text = some mapping →
      ¬bindings.functions.Binds mapping.implementation role.arity →
      Fault bindings (.node token children)
        (token.fails (.undefinedOperator role token.span.text))

/-- No function is missing, and no token stands where it means nothing. -/
theorem Fault.cause_ne {part : Tree} {e : Error} (h : Fault bindings part (.error e)) :
    (∀ name count, e.cause ≠ .undefinedFunction name count) ∧ ∀ kind, e.cause ≠ .unexpectedNode kind := by
  cases h <;> simp [Token.fails]

/-- The implementation that a call of a function or an access means. -/
def calledName (part : Tree) : Option String :=
  match part.kind with
  | .function => some part.text
  | .element => some Library.elementName
  | .entry => some Library.entryName
  | _ => none

/-- Both kinds of access can be bound. -/
structure BindAccesses (functions : Functions) : Prop where
  element : functions.Binds Library.elementName 2
  entry : functions.Binds Library.entryName 2

/-- A call that is accepted when it is read is bound, and so are accesses. -/
theorem binds_of_sound (accepted : bindings.functions.BindAccepted)
    (accesses : BindAccesses bindings.functions) {part : Tree}
    (sound : part.Sound bindings.operators bindings.functions.arity) {name : String}
    (calls : calledName part = some name) : bindings.functions.Binds name part.children.length := by
  have admits := sound.admits
  unfold calledName at calls
  split at calls
  next kind =>
    obtain rfl := Option.some.inj calls
    rw [kind] at admits
    exact accepted _ _ admits.2
  next kind =>
    obtain rfl := Option.some.inj calls
    rw [kind] at admits
    rw [show part.children.length = 2 from admits]
    exact accesses.element
  next kind =>
    obtain rfl := Option.some.inj calls
    rw [kind] at admits
    rw [show part.children.length = 2 from admits]
    exact accesses.entry
  next => cases calls

theorem bind_eq_error_iff_unbound {token : Token} {name : String} {count : Nat}
    {missing : Error.Cause} {failure : Failure} : bind bindings token name count missing = .error failure ↔
      ¬bindings.functions.Binds name count ∧ .error (token.fails missing) = failure := by
  unfold bind
  split <;> simp_all [Functions.Binds]

theorem exists_of_ofTrees_eq_error {trees : List Tree} {failure : Failure}
    (h : ofTrees bindings trees = .error failure) :
    ∃ tree ∈ trees, ofTree bindings tree = .error failure := by
  induction trees with
  | nil => cases h
  | cons tree trees ih =>
    rw [ofTrees] at h
    rcases Stacks.bind_eq_error_iff.mp h with failed | ⟨first, -, h⟩
    · exact ⟨tree, by simp, failed⟩
    · rcases Stacks.bind_eq_error_iff.mp h with failed | ⟨rest, -, h⟩
      · obtain ⟨other, member, failed⟩ := ih failed
        exact ⟨other, by simp [member], failed⟩
      · cases h

theorem eq_panic_of_wordAbs {n : Int} {failure : Failure} (h : wordAbs n = .error failure) :
    failure = .panic := by
  unfold wordAbs at h
  split at h <;> cases h
  rfl

/-- What a number denotes is not refused before its value is known. -/
theorem eq_panic_of_numberLiteral {text : String} {failure : Failure}
    (h : numberLiteral text = .error failure) : failure = .panic := by
  unfold numberLiteral at h
  split at h
  case h_3 =>
    dsimp only at h
    split at h
    · cases h
    · rcases Stacks.bind_eq_error_iff.mp h with panics | ⟨_, _, result⟩
      · exact eq_panic_of_wordAbs panics
      · cases result
  all_goals cases h

section Node

variable {token : Token} {children : List Tree} {failure : Failure}

/-- What a sound node calls is known: an implementation of its own name, or the one that its operator is
mapped to. -/
theorem callee_of_sound
    (sound : (node token children).Sound bindings.operators bindings.functions.arity)
    (isCall : token.kind.isCall = true) :
    ∃ name missing, callee bindings token children.length = .ok (name, missing) ∧
      (calledName (node token children) = some name ∨
        ∃ role mapping, token.kind = .operator role ∧
          bindings.operators.find? role token.span.text = some mapping ∧
          name = mapping.implementation ∧ missing = .undefinedOperator role token.span.text) := by
  cases kind : token.kind with
  | operator role =>
    obtain ⟨mapping, mapped⟩ := Option.isSome_iff_exists.mp (sound.mapped role kind)
    have looked : bindings.operators.find? role token.span.text = some mapping := mapped
    refine ⟨mapping.implementation, .undefinedOperator role token.span.text, ?_, .inr ?_⟩
    · simp [callee, kind, looked]
    · exact ⟨role, mapping, rfl, looked, rfl, rfl⟩
  | function | element | entry =>
    refine ⟨_, _, by rw [callee, kind], .inl ?_⟩
    simp [calledName, Tree.kind, Tree.text, Tree.token, kind]
  | _ => simp [kind, Kind.isCall] at isCall

theorem fault_of_call (accepted : bindings.functions.BindAccepted)
    (accesses : BindAccesses bindings.functions)
    (sound : (node token children).Sound bindings.operators bindings.functions.arity)
    (isCall : token.kind.isCall = true) (h : ofTree bindings (node token children) = .error failure) :
    Fault bindings (node token children) failure ∨
      ∃ child ∈ children, ofTree bindings child = .error failure := by
  obtain ⟨name, missing, calls, whose⟩ := callee_of_sound sound isCall
  rw [ofTree_of_isCall isCall, calls] at h
  rcases Stacks.bind_eq_error_iff.mp h with impossible | ⟨_, same, h⟩
  · cases impossible
  obtain rfl := Except.ok.inj same
  rcases Stacks.bind_eq_error_iff.mp h with failed | ⟨overloads, -, h⟩
  · obtain ⟨unbound, rfl⟩ := bind_eq_error_iff_unbound.mp failed
    rcases whose with called | ⟨role, mapping, isOperator, mapped, rfl, rfl⟩
    · exact absurd (binds_of_sound accepted accesses sound called) unbound
    · have arity : children.length = role.arity := by
        have admits := sound.admits
        rw [Tree.kind, Tree.token, isOperator] at admits
        exact admits
      exact .inl (.operator isOperator arity mapped (arity ▸ unbound))
  · rcases Stacks.bind_eq_error_iff.mp h with failed | ⟨_, _, result⟩
    · exact .inr (exists_of_ofTrees_eq_error failed)
    · cases result

theorem fault_of_field {object operand : Tree} (kind : token.kind = .field)
    (h : ofTree bindings (node token [object, operand]) = .error failure) :
    Fault bindings (node token [object, operand]) failure ∨ ofTree bindings object = .error failure := by
  obtain ⟨fieldToken, fieldChildren⟩ := operand
  by_cases plain : (node fieldToken fieldChildren).IsPlainName
  · obtain ⟨isName, rfl⟩ : fieldToken.kind = .name ∧ fieldChildren = [] := plain
    simp only [ofTree, kind, isName, decide_true, List.isEmpty_nil, Bool.and_true, if_true] at h
    rcases Stacks.bind_eq_error_iff.mp h with failed | ⟨_, _, result⟩
    · exact .inr failed
    · cases result
  · have refused : (decide (fieldToken.kind = .name) && fieldChildren.isEmpty) = false := by
      rw [← Bool.not_eq_true, Bool.and_eq_true, decide_eq_true_eq, List.isEmpty_iff]
      exact plain
    simp only [ofTree, kind, refused, Bool.false_eq_true, if_false, Except.error.injEq] at h
    exact .inl (h ▸ .field kind plain)

/-- A node that cannot be compiled has a fault or a child that cannot be compiled. -/
theorem fault_of_node (accepted : bindings.functions.BindAccepted)
    (accesses : BindAccesses bindings.functions)
    (sound : (node token children).Sound bindings.operators bindings.functions.arity)
    (h : ofTree bindings (node token children) = .error failure) :
    Fault bindings (node token children) failure ∨
      ∃ child ∈ children, ofTree bindings child = .error failure := by
  have admits : token.kind.Admits bindings.functions.arity token.span.text children.length :=
    sound.admits
  cases kind : token.kind with
  | number =>
    simp only [ofTree, kind] at h
    rcases Stacks.bind_eq_error_iff.mp h with panics | ⟨number, denotes, refused⟩
    · obtain rfl := eq_panic_of_numberLiteral panics
      exact .inl (.panic kind panics)
    · cases number with
      | none =>
        cases refused
        exact .inl (.literal kind denotes)
      | some value => cases refused
  | text =>
    obtain ⟨value, denotes⟩ := Option.isSome_iff_exists.mp (sound.decodes kind)
    have denotes : token.literal? = some value := denotes
    simp [ofTree, kind, denotes, ofLiteral] at h
  | name =>
    cases found : bindings.constants.lookup (Text.upper token.span.text) <;>
      simp [ofTree, kind, found] at h
  | field =>
    rw [kind] at admits
    obtain ⟨object, operand, rfl⟩ := List.length_eq_two.mp admits
    exact (fault_of_field kind h).imp id fun failed => ⟨object, by simp, failed⟩
  | operator | function | element | entry =>
    exact fault_of_call accepted accesses sound (by simp [kind, Kind.isCall]) h
  | comma | opening | closing | argumentsStart =>
    rw [kind] at admits
    exact admits.elim

end Node

/-- Compiling a tree that was read fails at one of its nodes, for a reason that is known. -/
theorem fault_of_ofTree (accepted : bindings.functions.BindAccepted)
    (accesses : BindAccesses bindings.functions) {tree : Tree} {failure : Failure}
    (sound : ∀ part ∈ tree.nodes, part.Sound bindings.operators bindings.functions.arity)
    (h : ofTree bindings tree = .error failure) : ∃ part ∈ tree.nodes, Fault bindings part failure := by
  induction tree using Tree.induct with
  | build token children ih =>
    rcases fault_of_node accepted accesses (sound _ (self_mem_nodes _)) h with
      fault | ⟨child, member, failed⟩
    · exact ⟨_, self_mem_nodes _, fault⟩
    · have below : child.nodes ⊆ (node token children).nodes := by
        intro part isPart
        rw [nodes_node]
        exact List.mem_cons_of_mem _ (List.mem_flatMap.mpr ⟨child, member, isPart⟩)
      obtain ⟨part, isPart, fault⟩ :=
        ih child member (fun part isPart => sound part (below isPart)) failed
      exact ⟨part, below isPart, fault⟩

end Expression

end Formulary

import Formulary.Proofs.Token.Faults
import Formulary.Proofs.Tree.Pairing
import Formulary.Proofs.Tree.Precedence

set_option autoImplicit false

/-!
# What an error of reading an expression can be about

Since brackets and marks are met in pairs, no token is ever unexpected and no call lacks its mark. What
is left are an operand, an operator or a function that is missing.
-/

namespace Formulary

namespace Tree.Stacks

/-- What an error of reading tokens can be about. -/
inductive Blamed (operators : Operators) (tokens : List Token) : SyntaxError → Prop
  | first {token : Token} :
      token.kind ≠ .function → ¬AtFunction tokens token →
      Blamed operators tokens (token.error .missingOperand)
  | second (token : Token) : Blamed operators tokens (token.error .missingSecondOperand)
  | undefined {token : Token} {role : Role} :
      token ∈ tokens → token.kind = .operator role →
      operators.find? role token.span.text = none →
      Blamed operators tokens (token.error (.undefinedOperator token.span.text))
  | unknown (function : Token) (name : String) :
      Blamed operators tokens (function.error (.undefinedFunction name))
  | count (function : Token) (name : String) (count : Nat) :
      Blamed operators tokens (function.error (.argumentCount name count))

section Blamed

variable {operators : Operators} {functions : FunctionArity} {tokens opened waiting : List Token}
  {operands : List Tree} {token : Token} {e : SyntaxError}

theorem bind_eq_error_iff {ε α β : Type} {first : Except ε α} {next : α → Except ε β} {e : ε} :
    first.bind next = .error e ↔
      first = .error e ∨ ∃ value, first = .ok value ∧ next value = .error e := by
  cases first <;> simp [Except.bind]

theorem operand_eq_error {missing : SyntaxError.Cause}
    (h : operand operands token missing = .error e) : e = token.error missing ∧ ¬Fed operands := by
  cases operands with
  | nil =>
    cases h
    exact ⟨rfl, by simp [Fed]⟩
  | cons top below =>
    by_cases mark : top.isMark
    · rw [operand, if_pos mark] at h
      cases h
      exact ⟨rfl, by simpa [Fed] using mark⟩
    · rw [operand, if_neg mark] at h
      cases h

/-- A join fails for want of operands. -/
theorem blamed_of_join (joinable : token.kind.isUnary ∨ token.kind.isBinary)
    (fed : AtFunction tokens token → Fed operands) (h : join token operands = .error e) :
    Blamed operators tokens e := by
  have noFunction : token.kind ≠ .function := by
    intro isFunction
    simp [isFunction, Kind.isUnary, Kind.isBinary] at joinable
  rcases joinable with unary | binary
  · rw [join_unary unary] at h
    rcases bind_eq_error_iff.mp h with missing | ⟨_, _, result⟩
    · obtain ⟨rfl, notFed⟩ := operand_eq_error missing
      exact .first noFunction fun atFunction => notFed (fed atFunction)
    · cases result
  · rw [join_binary binary] at h
    rcases bind_eq_error_iff.mp h with missing | ⟨_, _, h⟩
    · obtain ⟨rfl, notFed⟩ := operand_eq_error missing
      exact .first noFunction fun atFunction => notFed (fed atFunction)
    · rcases bind_eq_error_iff.mp h with missing | ⟨_, _, result⟩
      · obtain ⟨rfl, -⟩ := operand_eq_error missing
        exact .second token
      · cases result

theorem blamed_of_mapping {role : Role} (member : token ∈ tokens) (kind : token.kind = .operator role)
    (h : mapping operators token = .error e) : Blamed operators tokens e := by
  have found : token.kind.role?.bind (fun role => operators.find? role token.span.text) =
      operators.find? role token.span.text := by
    rw [kind]
    rfl
  rw [mapping, found] at h
  split at h
  next => cases h
  next missing =>
    cases h
    exact .undefined member kind missing

theorem blamed_of_bindsBefore {current : Mapping} (member : token ∈ tokens)
    (h : bindsBefore operators current token = .error e) : Blamed operators tokens e := by
  unfold bindsBefore at h
  split at h
  next => cases h
  next role kind =>
    rcases bind_eq_error_iff.mp h with undefined | ⟨_, _, result⟩
    · exact blamed_of_mapping member kind undefined
    · cases result
  next => cases h

/-- Joining what waits fails for want of operands, if no bracket is reached. -/
theorem blamed_of_reduce {ready : Token → Except SyntaxError Bool}
    (stops : ∀ opening ∈ waiting, opening.kind.isOpening = true → ready opening = .ok false)
    (blames : ∀ token ∈ tokens, ready token = .error e → Blamed operators tokens e)
    (paired : Paired tokens opened operands waiting)
    (h : reduce ready operands waiting = .error e) : Blamed operators tokens e := by
  induction waiting generalizing operands with
  | nil => cases h
  | cons token waiting ih =>
    rw [reduce] at h
    rcases paired.top_cases with ⟨below, member, joinable, fed⟩ | ⟨outer, -, innermost⟩
    · rcases bind_eq_error_iff.mp h with failed | ⟨isReady, _, h⟩
      · exact blames token member failed
      · cases isReady with
        | false => cases h
        | true =>
          rcases bind_eq_error_iff.mp h with failed | ⟨joined, result, h⟩
          · exact blamed_of_join joinable fed failed
          · apply ih (fun opening member => stops opening (List.mem_cons_of_mem _ member)) ?_ h
            exact below.joined (join_eq_ok_iff.mp result)
    · have isOpening : token.kind.isOpening = true := by
        cases innermost <;> exact isOpening_of_kind ‹_›
      rw [stops token List.mem_cons_self isOpening] at h
      cases h

theorem blamed_of_reduceWhile {ready : Token → Bool} {s : Stacks}
    (stops : ∀ opening ∈ s.waiting, opening.kind.isOpening = true → ready opening = false)
    (paired : Paired tokens opened s.operands s.waiting) (h : s.reduceWhile ready = .error e) :
    Blamed operators tokens e := by
  refine blamed_of_reduce ?_ ?_ paired h
  · intro opening member isOpening
    rw [stops opening member isOpening]
  · intro token _ failed
    cases failed

theorem blamed_of_toOpening {s : Stacks} (paired : Paired tokens opened s.operands s.waiting)
    (h : s.toOpening = .error e) : Blamed operators tokens e := by
  refine blamed_of_reduceWhile ?_ paired h
  intro opening _ isOpening
  simp [isOpening]

theorem blamed_of_fields {s : Stacks} (paired : Paired tokens opened s.operands s.waiting)
    (h : s.fields = .error e) : Blamed operators tokens e := by
  refine blamed_of_reduceWhile ?_ paired h
  intro opening _ isOpening
  cases kind : opening.kind <;> simp_all [Kind.isOpening]

theorem blamed_of_call {function opening : Token} {args rest : List Tree} (real : Real args)
    (h : call functions function (args ++ markOf opening :: rest) = .error e) :
    Blamed operators tokens e := by
  unfold call at h
  rw [arguments_eq real rfl] at h
  change (if _ then _ else if _ then _ else _ : Except _ _) = _ at h
  split at h
  · cases h
    exact .unknown _ _
  · split at h <;> cases h
    exact .count _ _ _

theorem blamed_of_closeParen {s : Stacks} {opening : Token} {outer : List Token}
    (paired : Paired tokens (opening :: outer) s.operands s.waiting)
    (opens : opening.kind = .opening .paren) (h : s.closeParen functions token = .error e) :
    Blamed operators tokens e := by
  rcases bind_eq_error_iff.mp h with failed | ⟨⟨operands, waiting⟩, reduced, h⟩
  · exact blamed_of_toOpening paired failed
  · obtain ⟨waiting, rfl, innermost⟩ := paired.toOpening reduced
    cases innermost with
    | @group _ waiting below =>
      cases waiting with
      | nil => cases h
      | cons top waiting =>
        have noCall := below.not_function top rfl
        cases (if_neg noCall).symm.trans h
    | call below _ isFunction _ real =>
      rcases bind_eq_error_iff.mp ((if_pos isFunction).symm.trans h) with failed | ⟨_, _, result⟩
      · exact blamed_of_call real failed
      · cases result
    | access _ _ isAccess =>
      simp [Token.content?, opens] at isAccess

theorem blamed_of_closeAccess {s : Stacks} {opening : Token} {outer : List Token}
    {bracket : Bracket} (paired : Paired tokens (opening :: outer) s.operands s.waiting)
    (opens : opening.kind = .opening bracket) (isAccess : bracket ≠ .paren)
    (h : s.closeAccess token = .error e) : Blamed operators tokens e := by
  rcases bind_eq_error_iff.mp h with failed | ⟨⟨operands, waiting⟩, reduced, h⟩
  · exact blamed_of_toOpening paired failed
  · obtain ⟨waiting, rfl, innermost⟩ := paired.toOpening reduced
    cases innermost with
    | group _ isParen | call _ isParen =>
      exact absurd (Kind.opening.inj (opens.symm.trans isParen)) isAccess
    | access _ opens isAccess other =>
      change (join _ operands).bind _ = _ at h
      rcases bind_eq_error_iff.mp h with failed | ⟨_, _, result⟩
      · exact blamed_of_join (.inr (Token.isBinary_of_content? opens isAccess))
          (fun atFunction => absurd atFunction other) failed
      · cases result

end Blamed

section Steps

variable {operators : Operators} {functions : FunctionArity}
  {tokens before after opened : List Token} {token : Token} {s t : Stacks}

/-- A run over tokens that fails does so at one of them. -/
theorem exists_add_eq_error {previous : Option Kind} {e : SyntaxError}
    (h : addAll operators functions previous s tokens = .error e) :
    ∃ before token after t, tokens = before ++ token :: after ∧
      addAll operators functions previous s before = .ok t ∧
      t.add operators functions (lastKind previous before) token = .error e := by
  induction tokens generalizing previous s with
  | nil => cases h
  | cons token tokens ih =>
    rcases bind_eq_error_iff.mp h with failed | ⟨between, added, h⟩
    · exact ⟨[], token, tokens, s, rfl, rfl, failed⟩
    · obtain ⟨before, failing, after, t, rfl, read, failed⟩ := ih h
      exact ⟨token :: before, failing, after, t, rfl,
        addAll_cons_eq_ok.mpr ⟨between, added, read⟩, failed⟩

theorem blamed_of_addOperator {role : Role} {e : SyntaxError} (kind : token.kind = .operator role)
    (member : token ∈ tokens) (paired : Paired tokens opened s.operands s.waiting)
    (h : s.addOperator operators token = .error e) : Blamed operators tokens e := by
  by_cases isPrefix : token.kind = .operator .prefixOp
  · rw [addOperator_prefixed isPrefix] at h
    rcases bind_eq_error_iff.mp h with failed | ⟨_, _, result⟩
    · exact blamed_of_mapping member kind failed
    · cases result
  · rw [addOperator_of_ne isPrefix] at h
    rcases bind_eq_error_iff.mp h with failed | ⟨current, _, h⟩
    · exact blamed_of_mapping member kind failed
    rcases bind_eq_error_iff.mp h with failed | ⟨_, _, result⟩
    · refine blamed_of_reduce ?_ (fun token member => blamed_of_bindsBefore member) paired failed
      intro opening _ isOpening
      cases kind : opening.kind <;> simp_all [Kind.isOpening, bindsBefore]
    · cases result

/-- What a token of a source fails for is one of the causes that can be blamed. -/
theorem PairedAfter.blamed_of_add {e : SyntaxError} (h : PairedAfter tokens before s)
    (lexed : Lexed tokens) (split : tokens = before ++ token :: after)
    (failed : s.add operators functions (before.getLast?.map (·.kind)) token = .error e) :
    Blamed operators tokens e := by
  have member : token ∈ tokens := by simp [split]
  have settled := fun other => h.settled (lexed.called split other)
  rw [add] at failed
  split at failed
  case h_1 | h_2 | h_3 | h_4 | h_7 => cases failed
  case h_5 kind =>
    obtain ⟨opened, -, paired⟩ := settled (by simp [kind])
    exact blamed_of_toOpening paired failed
  case h_6 kind =>
    obtain ⟨opened, -, paired⟩ := settled (by simp [kind])
    exact blamed_of_addOperator kind member paired failed
  case h_8 kind | h_9 kind =>
    obtain ⟨opened, -, paired⟩ := settled (by simp [kind])
    rcases bind_eq_error_iff.mp failed with failed | ⟨_, _, result⟩
    · exact blamed_of_fields paired failed
    · cases result
  case h_10 kind =>
    obtain ⟨opening, outer, -, opens, paired, -⟩ := h.closes lexed split kind
    exact blamed_of_closeParen paired opens failed
  case h_11 bracket isAccess kind =>
    obtain ⟨opening, outer, -, opens, paired, -⟩ := h.closes lexed split kind
    exact blamed_of_closeAccess paired opens (fun isParen => isAccess isParen) failed
  case h_12 kind =>
    obtain ⟨opened, -, paired⟩ := settled (by simp [kind])
    rcases bind_eq_error_iff.mp failed with failed | ⟨_, _, result⟩
    · exact blamed_of_fields paired failed
    · cases result
  case h_13 =>
    rcases lexed.kinds token member with plain | isFunction | ⟨bracket, opens⟩ | ⟨bracket, closes⟩
    · cases kind : token.kind <;> simp_all [Kind.isPlain]
    · simp_all
    · cases bracket <;> simp_all
    · simp_all

theorem blamed_of_ofTokens {source : String} {e : SyntaxError} (lexed : Lexed tokens)
    (h : ofTokens operators functions source tokens = .error e) :
    Blamed operators tokens e ∨ e.cause = .emptyExpression ∨ e.cause = .tooManyOperands := by
  rcases bind_eq_error_iff.mp h with failed | ⟨s, read, h⟩
  · obtain ⟨before, token, after, t, split, read, failed⟩ := exists_add_eq_error failed
    rw [lastKind_none] at failed
    exact .inl ((pairedAfter_of_addAll lexed split read).blamed_of_add lexed split failed)
  · rcases bind_eq_error_iff.mp h with failed | ⟨t, _, h⟩
    · have all := pairedAfter_of_addAll lexed (List.append_nil tokens).symm read
      obtain ⟨opened, isOpen, paired⟩ := all.settled lexed.ends
      obtain rfl : opened = [] := Option.some.inj (isOpen.symm.trans lexed.placed.matched)
      refine .inl (blamed_of_reduceWhile ?_ paired failed)
      intro opening member isOpening
      cases paired.mem_opened opening member isOpening
    · right
      split at h
      next =>
        cases h
        exact .inl rfl
      next =>
        split at h <;> cases h
        exact .inr rfl
      next =>
        cases h
        exact .inr rfl

end Steps

/-- What a closing bracket finds when what waits has been joined down to a bracket: that bracket is
its own, and if a function stands before it, that function waits below it, and its call takes the
operands down to the mark of this bracket. -/
def MeetsOwn (tokens before : List Token) (bracket : Bracket) (t : Stacks) : Prop :=
  ∃ opening outer waiting, stillOpen before = some (opening :: outer) ∧
    opening.kind = .opening bracket ∧ t.waiting = opening :: waiting ∧
    ∀ function, function.kind = .function →
      ([function, opening] <:+: tokens ↔ function ∈ waiting.head?) ∧
      (function ∈ waiting.head? → ∃ args outside, t.operands = args ++ markOf opening :: outside ∧
        arguments function [] t.operands = .ok (args.reverse, outside))

end Tree.Stacks

open Lexer Tree.Stacks

/-- What an error of reading an expression is about: never a token that the lexer lets stand where it
cannot be, never an operand that a function lacks, and an operator only where none matches or where
the product that is implied has no mapping. -/
structure Accounted (operators : Operators) (features : Features) (source : String)
    (e : SyntaxError) : Prop where
  token : ∀ kind, e.cause ≠ .unexpectedToken kind
  operand : e.cause = .missingOperand →
    (∃ token : Token, e.span = token.span ∧ token.kind ≠ .function) ∧
      ∀ tokens, tokenize operators features source = .ok tokens →
        ∀ function ∈ tokens, function.kind = .function → e.span.start.offset ≠ function.offset
  operator : ∀ text, e.cause = .undefinedOperator text →
    (∃ s rest, Reached operators features source s rest ∧ e.span.start = s.position ∧
      Unmatched operators s.previous rest ∧
      (operators.Foresees → ∀ role read, permits s.previous role = true → read ≠ [] →
        read <+: rest → operators.find? role (String.ofList read) = none)) ∨
    ∃ tokens token, tokenize operators features source = .ok tokens ∧
      [Token.impliedProduct token, token] <:+: tokens ∧
      e = token.impliedProduct.error (.undefinedOperator "*") ∧
      operators.find? .infixOp "*" = none

theorem accounted_of_tokenize {operators : Operators} {features : Features} {source : String}
    {e : SyntaxError} (h : tokenize operators features source = .error e) :
    Accounted operators features source e := by
  rcases tokenize_eq_error h with misread | ⟨s, rest, text, reached, unmatched, rfl⟩ |
    ⟨token, cause, rfl, causes⟩
  · obtain ⟨cause, span⟩ := e
    refine ⟨?_, ?_, ?_⟩
    · rintro kind rfl
      cases misread
    · rintro rfl
      cases misread
    · rintro text rfl
      cases misread
  · refine ⟨by rintro kind ⟨⟩, by rintro ⟨⟩, ?_⟩
    rintro _ ⟨⟩
    refine .inl ⟨s, rest, reached, rfl, unmatched, ?_⟩
    intro foresees role read permitted nonempty isBeginning
    exact unmatched.find?_eq_none foresees permitted nonempty isBeginning
  · refine ⟨?_, ?_, ?_⟩
    · rintro kind rfl
      simp at causes
    · rintro rfl
      have isInfix : token.kind = .operator .infixOp := by simpa using causes
      refine ⟨⟨token, rfl, by simp [isInfix]⟩, ?_⟩
      intro tokens tokenized
      cases h.symm.trans tokenized
    · rintro text rfl
      simp at causes

theorem accounted_of_ofTokens {operators : Operators} {functions : FunctionArity}
    {features : Features} {source : String} {tokens : List Token} {e : SyntaxError}
    (tokenized : tokenize operators features source = .ok tokens)
    (h : Tree.ofTokens operators functions source tokens = .error e) :
    Accounted operators features source e := by
  rcases blamed_of_ofTokens (lexed_of_tokenize tokenized) h with blamed | whole
  · cases blamed with
    | @first token noFunction notAt =>
      refine ⟨by rintro kind ⟨⟩, fun _ => ⟨⟨token, rfl, noFunction⟩, ?_⟩, by rintro text ⟨⟩⟩
      intro others same function member isFunction sameOffset
      cases tokenized.symm.trans same
      exact notAt ⟨function, member, isFunction, sameOffset.symm⟩
    | second | unknown | count =>
      exact ⟨by rintro kind ⟨⟩, by rintro ⟨⟩, by rintro text ⟨⟩⟩
    | @undefined token role member kind missing =>
      refine ⟨by rintro kind ⟨⟩, by rintro ⟨⟩, ?_⟩
      rintro _ -
      rcases tokenize_operator_cases tokenized token member role kind with found | ⟨next, rfl, within⟩
      · simp [missing] at found
      · cases kind
        exact .inr ⟨tokens, next, tokenized, within, rfl, missing⟩
  · obtain ⟨cause, span⟩ := e
    refine ⟨?_, ?_, ?_⟩
    · rintro kind rfl
      simp at whole
    · rintro rfl
      simp at whole
    · rintro text rfl
      simp at whole

theorem meetsOwn_of_toOpening {operators : Operators} {functions : FunctionArity}
    {tokens before after : List Token} {closing : Token} {bracket : Bracket} {s t : Tree.Stacks}
    (lexed : Lexed tokens) (split : tokens = before ++ closing :: after)
    (closes : closing.kind = .closing bracket)
    (read : addAll operators functions none {} before = .ok s) (reduced : s.toOpening = .ok t) :
    MeetsOwn tokens before bracket t := by
  obtain ⟨opening, outer, isOpen, opens, paired, -⟩ :=
    (pairedAfter_of_addAll lexed split read).closes lexed split closes
  obtain ⟨waiting, waits, innermost⟩ := paired.toOpening reduced
  refine ⟨opening, outer, waiting, isOpen, opens, waits, ?_⟩
  intro function isFunction
  generalize t.operands = operands at innermost
  cases innermost with
  | group below _ noCall =>
    have notTop : function ∉ waiting.head? := fun isTop =>
      below.not_function function isTop isFunction
    exact ⟨⟨fun within => absurd within (noCall function isFunction), fun isTop => absurd isTop notTop⟩,
      fun isTop => absurd isTop notTop⟩
  | @call args outside own _ below _ isOwn within real =>
    refine ⟨⟨?_, ?_⟩, ?_⟩
    · intro isBefore
      exact congrArg some (lexed.unique_before within isBefore)
    · rintro ⟨⟩
      exact within
    · intro _
      refine ⟨args, outside, rfl, ?_⟩
      rw [arguments_eq real rfl, List.append_nil]
  | @access _ access _ waiting _ opens isAccess _ =>
    have notTop : function ∉ (access :: waiting).head? := by
      rintro ⟨⟩
      have binary := Token.isBinary_of_content? opens isAccess
      simp [isFunction, Kind.isBinary] at binary
    refine ⟨⟨?_, fun isTop => absurd isTop notTop⟩, fun isTop => absurd isTop notTop⟩
    intro isBefore
    have isParen := lexed.paren_of_function isFunction isBefore
    simp [Token.content?, isParen] at isAccess

end Formulary
import Formulary.Proofs.Operator.Symbols
import Formulary.Proofs.Token.LongestMatch
import Formulary.Proofs.Tree.Levels

set_option autoImplicit false

/-!
# More features extend the language

A character whose feature is off is looked for among the operators. If none begins with it, a source
that can be read has no such character outside its texts and numbers, so that reading it with more
features goes the same way token by token.
-/

namespace Formulary

open Text

/-- Each part of the grammar that is on is on in the wider features too. -/
structure Features.Within (features wider : Features) : Prop where
  arrays : features.arrays = true → wider.arrays = true
  structures : features.structures = true → wider.structures = true
  associates : features.associates = true → wider.associates = true
  implicitMultiplication :
    features.implicitMultiplication = true → wider.implicitMultiplication = true

/-- The characters that are tokens only if a feature is on. -/
def optionalMarks : List Char :=
  ['[', ']', '\x7b', '\x7d', '.']

/-- No operator begins with a character that is a token if a feature is on. -/
def Operators.LeavesMarks (operators : Operators) : Prop :=
  ∀ role text, (operators.find? role text).isSome = true →
    ∀ c ∈ text.toList.head?, c ∉ optionalMarks

namespace Lexer

variable {operators : Operators} {features wider : Features} {s : State} {c : Char}
  {rest : List Char}

theorem bracket?_within (within : features.Within wider) {kind : Kind}
    (h : bracket? features c = some kind) : bracket? wider c = some kind := by
  unfold bracket? at *
  split at h <;> simp_all [within.arrays, within.associates]

theorem bracket?_other (other : c ∉ ['[', ']', '\x7b', '\x7d'])
    (h : bracket? features c = none) : bracket? wider c = none := by
  unfold bracket? at *
  split at h <;> simp_all

theorem seeksOperator_of_bracket (isBracket : c ∈ ['[', ']', '\x7b', '\x7d'])
    (off : bracket? features c = none) : SeeksOperator features c rest := by
  have plain : ∀ d ∈ ['[', ']', '\x7b', '\x7d'], d ≠ '"' ∧ d ≠ ',' ∧ isDigit d = false ∧ d ≠ '.' ∧
      startsName d = false :=
    forall_mem_of_all (by decide +kernel)
  obtain ⟨noQuote, noComma, noDigit, noPoint, noName⟩ := plain c isBracket
  exact ⟨off, noQuote, noComma, by simp [noDigit, noPoint], by simp [noPoint], noName⟩

theorem seeksOperator_of_point (off : features.structures = false)
    (noNumber : ¬(isDigit '.' || ('.' == '.' && rest.head?.any isDigit)) = true) :
    SeeksOperator features '.' rest :=
  ⟨rfl, by decide, by decide, Bool.eq_false_iff.mpr noNumber, by simp [off], by decide +kernel⟩

/-- Where an operator is found, no character stands that is a token if a feature is on. -/
theorem SeeksOperator.not_mem_optionalMarks (leaves : operators.LeavesMarks)
    (seeks : SeeksOperator features c rest) {found : Kind × Nat}
    (h : scan operators features s c rest = .ok found) : c ∉ optionalMarks := by
  rw [seeks.scan_eq] at h
  split at h
  next length role isFound =>
    obtain ⟨isRole, positive⟩ := scanOperator_found (c :: rest) [] (c :: rest) rfl rfl
      (by simp) _ _ isFound
    obtain ⟨more, rfl⟩ : ∃ more, length = more + 1 := ⟨length - 1, by omega⟩
    exact leaves role _ (roleOf?_eq_some isRole).2 c (by simp)
  next => cases h

/-- The kind of a token and its length are the same with more features. -/
theorem scan_within (within : features.Within wider) (leaves : operators.LeavesMarks)
    {found : Kind × Nat} (h : scan operators features s c rest = .ok found) :
    scan operators wider s c rest = .ok found := by
  have marked : SeeksOperator features c rest → c ∉ optionalMarks :=
    fun seeks => seeks.not_mem_optionalMarks leaves h
  rw [scan] at h ⊢
  cases isBracket : bracket? features c with
  | some kind =>
    rw [isBracket] at h
    rw [bracket?_within within isBracket]
    exact h
  | none =>
    have other : c ∉ ['[', ']', '\x7b', '\x7d'] := by
      intro member
      exact marked (seeksOperator_of_bracket member isBracket) (List.mem_append_left ['.'] member)
    rw [isBracket] at h
    rw [bracket?_other other isBracket]
    by_cases same : (decide (c = '.') && features.structures) = (decide (c = '.') && wider.structures)
    · rw [← same]
      exact h
    · -- A point is a field now, unless a digit comes after it.
      obtain ⟨rfl, off⟩ : c = '.' ∧ features.structures = false := by
        cases on : features.structures <;> simp_all [within.structures]
      by_cases number : (isDigit '.' || ('.' == '.' && rest.head?.any isDigit)) = true
      · simpa only [Char.reduceEq, if_false, if_pos number] using h
      · exact absurd (by decide) (marked (seeksOperator_of_point off number))

theorem arrange_within (within : features.Within wider) {previous : Option Kind} {token : Token}
    {added : List Token} (h : arrange features previous token = .ok added) :
    arrange wider previous token = .ok added := by
  rw [arrange] at h ⊢
  split at h
  next => cases h
  next given =>
  rw [if_neg given]
  split at h
  next implied =>
    rw [if_pos implied]
    split at h
    next on =>
      rw [if_pos (within.implicitMultiplication on)]
      exact h
    next => cases h
  next separate =>
    rw [if_neg separate]
    exact h

theorem run_within (within : features.Within wider) (leaves : operators.LeavesMarks) {t : State}
    {cs : List Char} (h : run operators features s cs = .ok t) :
    run operators wider s cs = .ok t := by
  fun_induction run operators features s cs with
  | case1 =>
    rw [run]
    exact h
  | case2 s c rest blank ih =>
    rw [run, if_pos blank]
    exact ih h
  | case3 => cases h
  | case4 => cases h
  | case5 s c rest visible kind length scanned text token added arranged next ih =>
    rw [run, if_neg visible, scan_within within leaves scanned]
    dsimp only
    rw [arrange_within within arranged]
    exact ih h

end Lexer

open Lexer

theorem tokenize_within {operators : Operators} {features wider : Features} {source : String}
    {tokens : List Token} (within : features.Within wider) (leaves : operators.LeavesMarks)
    (h : tokenize operators features source = .ok tokens) :
    tokenize operators wider source = .ok tokens := by
  rw [tokenize] at h ⊢
  split at h
  next => cases h
  next s ran =>
    rw [run_within within leaves ran]
    exact h

/-- With more features, a source that can be read has the same tokens and the same tree. -/
theorem parse_within (operators : Operators) (functions : FunctionArity) (features wider : Features)
    (within : features.Within wider) (leaves : operators.LeavesMarks) (source : String) :
    (∀ tokens, tokenize operators features source = .ok tokens →
      tokenize operators wider source = .ok tokens) ∧
    ∀ tree, parse operators functions features source = .ok tree →
      parse operators functions wider source = .ok tree := by
  refine ⟨fun tokens => tokenize_within within leaves, ?_⟩
  intro tree h
  obtain ⟨tokens, tokenized, read⟩ := bind_eq_ok_iff.mp h
  rw [parse_of_tokenize (tokenize_within within leaves tokenized)]
  exact read

theorem Operators.standard_leavesMarks : Operators.standard.LeavesMarks := by
  intro role text found c isHead mark
  have apart : ∀ d ∈ optionalMarks, d ∉ symbols := forall_mem_of_all (by decide +kernel)
  rw [← String.ofList_toList (s := text)] at found
  obtain ⟨-, ofSymbols⟩ := OperatorTable.symbols_of_find? found
  exact apart c mark (ofSymbols c (List.mem_of_head? isHead))

/-- Points of numbers need no feature, and what is read with none is read with all. -/
theorem parse_within_call :
    let bare : Features := ⟨false, false, false, false⟩
    let functions : FunctionArity := ⟨fun _ => true, fun _ _ => true⟩
    bare.Within {} ∧ Operators.standard.LeavesMarks ∧
      ∃ tokens tree, tokenize .standard bare "max(-2.5, x) * .5" = .ok tokens ∧
        tokenize .standard {} "max(-2.5, x) * .5" = .ok tokens ∧
        parse .standard functions bare "max(-2.5, x) * .5" = .ok tree ∧
        parse .standard functions {} "max(-2.5, x) * .5" = .ok tree := by
  intro bare functions
  have within : bare.Within {} := ⟨fun _ => rfl, fun _ => rfl, fun _ => rfl, fun _ => rfl⟩
  have leaves := Operators.standard_leavesMarks
  have isRead : (parse .standard functions bare "max(-2.5, x) * .5").toOption.isSome = true := by
    decide +kernel
  obtain ⟨sameTokens, sameTree⟩ :=
    parse_within .standard functions bare {} within leaves "max(-2.5, x) * .5"
  cases parsed : parse .standard functions bare "max(-2.5, x) * .5" with
  | error => simp [parsed, Except.toOption] at isRead
  | ok tree =>
    obtain ⟨tokens, tokenized, -⟩ := bind_eq_ok_iff.mp parsed
    exact ⟨within, leaves, tokens, tree, tokenized, sameTokens tokens tokenized, rfl,
      sameTree tree parsed⟩

end Formulary

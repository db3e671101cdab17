import Formulary.Proofs.Token.Decoding
import Formulary.Proofs.Token.Rereading
import Mathlib.Data.List.Basic

set_option autoImplicit false

/-!
# What string literals mean

Between the quotes of a literal stand escapes, each of which means one character, and characters that
mean themselves. Every text can be written so, with a backslash before its quotes and backslashes, and
is read again wherever a token may begin. In what the lexer takes for a literal every backslash begins
an escape that is known, so that its meaning is found by these two rules alone.
-/

namespace Formulary

namespace Text

/-- What stands between quotes and the text that it means. -/
inductive Means : List Char → List Char → Prop
  | nil : Means [] []
  | escape {c meant : Char} {written text : List Char} :
      escaped? c = some meant → Means written text → Means ('\\' :: c :: written) (meant :: text)
  | plain {c : Char} {written text : List Char} :
      c ≠ '"' → c ≠ '\\' → Means written text → Means (c :: written) (c :: text)

/-- Puts a backslash before each quote and each backslash. -/
def escape : List Char → List Char
  | [] => []
  | c :: rest => if c = '"' ∨ c = '\\' then '\\' :: c :: escape rest else c :: escape rest

/-- The string literal for a text. -/
def literal (text : String) : List Char :=
  '"' :: (escape text.toList ++ ['"'])

variable {written text : List Char}

theorem means_escape (text : List Char) : Means (escape text) text := by
  induction text with
  | nil => exact .nil
  | cons c rest ih =>
    rw [escape]
    split
    next isMark =>
      have known : escaped? c = some c := by rcases isMark with rfl | rfl <;> rfl
      exact .escape known ih
    next noMark =>
      rw [not_or] at noMark
      exact .plain noMark.1 noMark.2 ih

theorem Means.unescape_eq (h : Means written text) : unescape written = text := by
  induction h with
  | nil => rfl
  | escape known _ ih => rw [unescape, known, ih, Option.getD_some]
  | plain _ noEscape _ ih =>
    rw [unescape, ih]
    · exact fun isEscape _ => noEscape isEscape
    · exact fun _ _ isEscape _ => noEscape isEscape

theorem Means.unquote?_eq (h : Means written text) :
    unquote? (String.ofList ('"' :: (written ++ ['"']))) = some (String.ofList text) := by
  simp [unquote?, h.unescape_eq]

end Text

namespace Lexer

open Text

variable {operators : Operators} {features : Features} {written text body : List Char}

theorem isLiteral_of_means (h : Means written text) : IsLiteral (written ++ ['"']) := by
  induction h with
  | nil => exact .close
  | escape known _ ih => exact .escape (by rw [known]; rfl) ih
  | plain noQuote noEscape _ ih => exact .plain noQuote noEscape ih

/-- What goes up to the closing quote has a meaning. -/
theorem IsLiteral.exists_means (h : IsLiteral body) :
    ∃ written text, body = written ++ ['"'] ∧ Means written text := by
  induction h with
  | close => exact ⟨[], [], rfl, .nil⟩
  | @escape c rest known _ ih =>
    obtain ⟨written, text, rfl, means⟩ := ih
    obtain ⟨meant, known⟩ := Option.isSome_iff_exists.mp known
    exact ⟨'\\' :: c :: written, meant :: text, rfl, .escape known means⟩
  | @plain c rest noQuote noEscape _ ih =>
    obtain ⟨written, text, rfl, means⟩ := ih
    exact ⟨c :: written, c :: text, rfl, .plain noQuote noEscape means⟩

/-- No token before it changes how a string literal is read. -/
theorem run_literal (isLiteral : IsLiteral body) (s : State) (rest : List Char) :
    run operators features s ('"' :: body ++ rest) =
      run operators features (s.put .text ('"' :: body)) rest := by
  apply run_token (by decide)
  · rw [scan, bracket?_eq_none (by decide)]
    simp only [if_true, scanText_append isLiteral, Nat.add_comm]
    rfl
  · apply arrange_eq_single_of <;>
      simp [State.token, leavesArgumentEmpty, impliesProduct, cannotFollowInfix]

end Lexer

open Lexer Text

/-- The literal for a text is read as one token that means it, wherever a token may begin and whatever
comes after it; and each string literal of a source is decoded by the meaning of its escapes. -/
theorem stringLiterals_faithful (operators : Operators) (features : Features) :
    (∀ (value : String) (s : State) (rest : List Char),
      run operators features s (literal value ++ rest) =
          run operators features (s.put .text (literal value)) rest ∧
        (s.token .text (literal value)).literal? = some value) ∧
      ∀ (source : String) (tokens : List Token), tokenize operators features source = .ok tokens →
        ∀ token ∈ tokens, token.kind = .text → ∃ written value,
          token.span.text = String.ofList ('"' :: (written ++ ['"'])) ∧ Means written value ∧
            token.literal? = some (String.ofList value) := by
  constructor
  · intro value s rest
    have means := means_escape value.toList
    refine ⟨run_literal (isLiteral_of_means means) s rest, ?_⟩
    have decoded := means.unquote?_eq
    rw [String.ofList_toList] at decoded
    exact decoded
  · intro source tokens tokenized token member isText
    rcases tokenize_scanned tokenized token member with
      ⟨s, c, rest, length, scanned, spelled⟩ | ⟨next, rfl⟩
    · rw [isText] at scanned
      obtain ⟨rfl, isLiteral⟩ := literal_of_scan scanned
      obtain ⟨written, value, split, means⟩ := isLiteral.exists_means
      rw [split] at spelled
      refine ⟨written, value, spelled, means, ?_⟩
      rw [Token.literal?, if_pos isText, spelled, means.unquote?_eq]
    · cases isText

/-- A quote and a backslash between the quotes, and a line feed by its letter. -/
theorem stringLiterals_faithful_escapes :
    let token : Token := ⟨.text, .start, "\"\\\"\\\\é\\n\""⟩
    let tokens := [token, ⟨.operator .infixOp, ⟨10, 1, 10⟩, "+"⟩, ⟨.name, ⟨11, 1, 11⟩, "x"⟩]
    tokenize .standard {} "\"\\\"\\\\é\\n\"+x" = .ok tokens ∧ token ∈ tokens ∧ token.kind = .text ∧
      ∃ written value, token.span.text = String.ofList ('"' :: (written ++ ['"'])) ∧
        Means written value ∧ token.literal? = some (String.ofList value) := by
  intro token tokens
  have tokenized : tokenize .standard {} "\"\\\"\\\\é\\n\"+x" = .ok tokens := by decide +kernel
  exact ⟨tokenized, List.mem_cons_self, rfl,
    (stringLiterals_faithful .standard {}).2 _ _ tokenized _ List.mem_cons_self rfl⟩

end Formulary

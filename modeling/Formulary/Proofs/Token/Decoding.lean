import Formulary.Proofs.Token.Spelling

set_option autoImplicit false

/-!
# String literals have a meaning

What the lexer takes for a string literal ends in a quote that is its own, so it can be decoded,
whatever operators are known.
-/

namespace Formulary

namespace Lexer

theorem IsLiteral.getLast?_eq {body : List Char} (h : IsLiteral body) :
    body.getLast? = some '"' := by
  induction h with
  | close => rfl
  | escape _ _ ih | plain _ _ _ ih => simp [List.getLast?_cons, ih]

theorem IsLiteral.unquote?_isSome {body : List Char} (h : IsLiteral body) :
    (Text.unquote? (String.ofList ('"' :: body))).isSome = true := by
  simp [Text.unquote?, h.getLast?_eq]

variable {operators : Operators} {features : Features} {s : State} {c : Char} {rest : List Char}
  {length : Nat}

/-- Only a quote begins a string literal. -/
theorem literal_of_scan (h : scan operators features s c rest = .ok (.text, length)) :
    c = '"' ∧ IsLiteral (rest.take (length - 1)) := by
  obtain ⟨isQuote, read⟩ := text_of_scan h
  obtain ⟨body, after, rfl, rfl, isBody⟩ := isLiteral_of_scanText read
  rw [Nat.add_sub_cancel_left, List.take_left]
  exact ⟨isQuote, isBody⟩

end Lexer

open Lexer

/-- Each string literal of a source can be decoded. -/
theorem tokenize_decodes {operators : Operators} {features : Features} {source : String}
    {tokens : List Token} (h : tokenize operators features source = .ok tokens) :
    ∀ token ∈ tokens, token.kind = .text → token.literal?.isSome = true := by
  intro token member isText
  rcases tokenize_scanned h token member with ⟨s, c, rest, length, scanned, spelled⟩ | ⟨next, rfl⟩
  · rw [isText] at scanned
    obtain ⟨rfl, isBody⟩ := literal_of_scan scanned
    simpa [Token.literal?, isText, spelled] using isBody.unquote?_isSome
  · cases isText

end Formulary

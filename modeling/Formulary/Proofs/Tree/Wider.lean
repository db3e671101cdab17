import Formulary.Tree.OfTokens

set_option autoImplicit false

/-!
# Reading with more functions

Tokens are read as before if there are more functions, or if functions take other numbers of arguments as
well. Only the complaint that there is no such function may be lost.
-/

namespace Formulary

/-- What the first comes to is kept by the second: related results, and the same errors but for those that
may be lost. -/
inductive Kept {ε α β : Type} (lost : ε → Prop) (R : α → β → Prop) : Except ε α → Except ε β → Prop
  | ok {a : α} {b : β} : R a b → Kept lost R (.ok a) (.ok b)
  | error (e : ε) : Kept lost R (.error e) (.error e)
  | lost {e : ε} (y : Except ε β) : lost e → Kept lost R (.error e) y

namespace Kept

variable {ε α β γ δ : Type} {lost : ε → Prop} {R : α → β → Prop} {S : γ → δ → Prop}

theorem refl (x : Except ε α) : Kept lost Eq x x := by
  cases x with
  | ok a => exact .ok rfl
  | error e => exact .error e

theorem bind_of_ok {x : Except ε α} {y : Except ε β} {f : α → Except ε γ} {g : β → Except ε δ}
    (h : Kept lost R x y) (continues : ∀ a b, x = .ok a → R a b → Kept lost S (f a) (g b)) :
    Kept lost S (x >>= f) (y >>= g) := by
  cases h with
  | ok related => exact continues _ _ rfl related
  | error e => exact .error e
  | lost _ known => exact .lost _ known

theorem bind {x : Except ε α} {y : Except ε β} {f : α → Except ε γ} {g : β → Except ε δ}
    (h : Kept lost R x y) (continues : ∀ a b, R a b → Kept lost S (f a) (g b)) :
    Kept lost S (x >>= f) (y >>= g) :=
  h.bind_of_ok fun a b _ => continues a b

/-- What is computed in the same way at first is kept if what follows is. -/
theorem bind_right (x : Except ε α) {f : α → Except ε γ} {g : α → Except ε δ}
    (continues : ∀ a, Kept lost S (f a) (g a)) : Kept lost S (x >>= f) (x >>= g) :=
  (refl x).bind fun a _ same => same ▸ continues a

theorem exists_ok {a : α} {y : Except ε β} (h : Kept lost R (.ok a) y) : ∃ b, y = .ok b ∧ R a b := by
  cases h with
  | ok related => exact ⟨_, rfl, related⟩

theorem error_eq {e : ε} {y : Except ε β} (h : Kept lost R (.error e) y) (remains : ¬lost e) :
    y = .error e := by
  cases h with
  | error => rfl
  | lost _ known => exact absurd known remains

end Kept

/-- The second has all functions of the first, and these take all the numbers of arguments that they take
in the first. -/
structure FunctionArity.Within (functions more : FunctionArity) : Prop where
  has : ∀ name, functions.has name = true → more.has name = true
  accepts : ∀ name count, functions.accepts name count = true → more.accepts name count = true

/-- There is no function of the name, or none that takes so many arguments. -/
def SyntaxError.Unknown (e : SyntaxError) : Prop :=
  (∃ name, e.cause = .undefinedFunction name) ∨ ∃ name count, e.cause = .argumentCount name count

namespace Tree

open SyntaxError

variable {operators : Operators} {functions more : FunctionArity}

namespace Stacks

theorem call_kept (within : functions.Within more) (function : Token) (operands : List Tree) :
    Kept Unknown Eq (call functions function operands) (call more function operands) := by
  apply Kept.bind_right
  rintro ⟨args, rest⟩
  dsimp only
  cases known : functions.has function.span.text with
  | false => exact .lost _ (.inl ⟨_, rfl⟩)
  | true =>
    rw [within.has _ known]
    cases takes : functions.accepts function.span.text args.length with
    | false => exact .lost _ (.inr ⟨_, _, rfl⟩)
    | true =>
      rw [within.accepts _ _ takes]
      exact .refl _

theorem closeParen_kept (within : functions.Within more) (s : Stacks) (token : Token) :
    Kept Unknown Eq (s.closeParen functions token) (s.closeParen more token) := by
  refine Kept.bind_right _ fun between => Kept.bind_right _ fun (opening, below) => ?_
  dsimp only
  split
  next function waiting isTop =>
    split
    · exact (call_kept within function _).bind fun _ _ same => same ▸ .refl _
    · exact .refl _
  next => exact .refl _

theorem add_kept (within : functions.Within more) (previous : Option Kind) (s : Stacks) (token : Token) :
    Kept Unknown Eq (s.add operators functions previous token)
      (s.add operators more previous token) := by
  unfold add
  split
  case h_10 => exact closeParen_kept within s token
  all_goals exact .refl _

theorem addAll_kept (within : functions.Within more) (previous : Option Kind) (s : Stacks)
    (tokens : List Token) :
    Kept Unknown Eq (addAll operators functions previous s tokens)
      (addAll operators more previous s tokens) := by
  induction tokens generalizing previous s with
  | nil => exact .refl _
  | cons token tokens ih =>
    exact (add_kept within previous s token).bind fun between _ same => same ▸ ih _ between

end Stacks

theorem ofTokens_kept (within : functions.Within more) (source : String) (tokens : List Token) :
    Kept Unknown Eq (ofTokens operators functions source tokens)
      (ofTokens operators more source tokens) :=
  (Stacks.addAll_kept within none {} tokens).bind fun _ _ same => same ▸ .refl _

end Tree

theorem parse_kept {functions more : FunctionArity} (within : functions.Within more)
    (operators : Operators) (features : Features) (source : String) :
    Kept SyntaxError.Unknown Eq (parse operators functions features source)
      (parse operators more features source) :=
  Kept.bind_right _ fun tokens => Tree.ofTokens_kept within source tokens

end Formulary

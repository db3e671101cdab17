import Formulary.Proofs.Token.Lexing

set_option autoImplicit false

/-!
# Which tokens stand next to each other

Brackets match, and each kind of token has its own neighbours. The lexer checks a token against the
one before it when it adds it, and by then a product sign may have come between them. So what is kept
is that every token may follow the one that it follows.
-/

namespace Formulary

namespace Kind

/-- What a token of a kind may stand after. -/
def Follows (previous : Option Kind) : Kind → Prop
  | operator .infixOp => ∃ p ∈ previous, p.endsOperand = true ∨ p = operator .postfixOp
  | operator .prefixOp => ∀ p ∈ previous,
      p.isOpening = true ∨ p = comma ∨ p = operator .infixOp ∨ p = operator .prefixOp
  | operator .postfixOp => ∃ p ∈ previous, p.endsOperand = true
  | opening .square | opening .curly | field =>
    ∃ p ∈ previous, p = name ∨ p = text ∨ ∃ bracket, p = closing bracket
  | comma => ∀ p ∈ previous, p.isOpening = false ∧ p ≠ comma
  | closing .paren => previous ≠ some comma
  | _ => True

/-- What may stand after a token of a kind. -/
def LeadsTo (next : Option Kind) : Kind → Prop
  | operator .infixOp =>
    ∀ n ∈ next, n ≠ operator .infixOp ∧ n ≠ comma ∧ ∀ bracket, n ≠ closing bracket
  | function => next = some (opening .paren)
  | _ => True

end Kind

/-- The open brackets after another token, the innermost first, if one that closes is of the kind of
the innermost. -/
def nest (opened : List Token) (token : Token) : Option (List Token) :=
  match token.kind with
  | .opening _ => some (token :: opened)
  | .closing bracket =>
    match opened with
    | opening :: outer => if opening.kind = .opening bracket then some outer else none
    | [] => none
  | _ => some opened

/-- The brackets that are open after some tokens, if those among them that close match. -/
def stillOpen (tokens : List Token) : Option (List Token) :=
  tokens.foldlM nest []

@[simp] theorem stillOpen_nil : stillOpen [] = some [] := rfl

theorem stillOpen_append (first second : List Token) :
    stillOpen (first ++ second) = (stillOpen first).bind fun opened => second.foldlM nest opened :=
  List.foldlM_append

theorem stillOpen_snoc (tokens : List Token) (token : Token) :
    stillOpen (tokens ++ [token]) = (stillOpen tokens).bind fun opened => nest opened token := by
  rw [stillOpen_append]
  simp

section Nest

variable {token : Token} {opened : List Token}

theorem nest_opening {bracket : Bracket} (opens : token.kind = .opening bracket) :
    nest opened token = some (token :: opened) := by
  simp only [nest, opens]

theorem nest_closing {opening : Token} {bracket : Bracket} (closes : token.kind = .closing bracket)
    (opens : opening.kind = .opening bracket) :
    nest (opening :: opened) token = some opened := by
  simp only [nest, closes, opens, if_true]

theorem nest_other (noOpening : ∀ bracket, token.kind ≠ .opening bracket)
    (noClosing : ∀ bracket, token.kind ≠ .closing bracket) : nest opened token = some opened := by
  cases kind : token.kind with
  | opening bracket => exact absurd kind (noOpening bracket)
  | closing bracket => exact absurd kind (noClosing bracket)
  | _ => simp only [nest, kind]

theorem exists_of_nest_closing {bracket : Bracket} {outer : List Token}
    (closes : token.kind = .closing bracket) (h : nest opened token = some outer) :
    ∃ opening, opened = opening :: outer ∧ opening.kind = .opening bracket := by
  simp only [nest, closes] at h
  split at h
  next opening below =>
    split at h
    next same =>
      cases h
      exact ⟨opening, rfl, same⟩
    next => cases h
  next => cases h

end Nest

/-- Every bracket is closed by one of its kind, in the order in which they nest, and every token
stands between neighbours of its own. -/
structure WellPlaced (tokens : List Token) : Prop where
  matched : stillOpen tokens = some []
  placed : ∀ before token after, tokens = before ++ token :: after →
    token.kind.Follows (before.getLast?.map (·.kind)) ∧
      token.kind.LeadsTo (after.head?.map (·.kind))

/-- Wherever the tokens are divided, the brackets so far match. -/
theorem WellPlaced.exists_stillOpen {tokens before after : List Token} (h : WellPlaced tokens)
    (split : tokens = before ++ after) : ∃ opened, stillOpen before = some opened := by
  have matched := h.matched
  rw [split, stillOpen_append] at matched
  obtain ⟨opened, isOpen, -⟩ := Option.bind_eq_some_iff.mp matched
  exact ⟨opened, isOpen⟩

namespace Lexer

open Text

variable {operators : Operators} {features : Features}

/-- What is checked of a token that is added without a product sign. -/
theorem arrange_eq_single {previous : Option Kind} {token : Token}
    (h : arrange features previous token = .ok [token]) :
    leavesArgumentEmpty previous token.kind = false ∧
      (previous = some (.operator .infixOp) → cannotFollowInfix token.kind = false) ∧
      (token.kind = .operator .infixOp → permitsInfix previous = true) := by
  rw [arrange] at h
  split at h
  next => cases h
  next leaves =>
    split at h
    next => split at h <;> simp at h
    next =>
      split at h
      next => cases h
      next after =>
        split at h
        next => cases h
        next operand => exact ⟨by simpa using leaves, by simpa using after, by simpa using operand⟩

theorem exists_of_any {previous : Option Kind} {holds : Kind → Bool}
    (h : previous.any holds = true) : ∃ p ∈ previous, holds p = true := by
  cases previous with
  | none => cases h
  | some p => exact ⟨p, rfl, h⟩

theorem follows_of_acceptsAccess {previous : Option Kind}
    (accepts : previous.any Kind.acceptsAccess = true) :
    ∃ p ∈ previous, p = .name ∨ p = .text ∨ ∃ bracket, p = .closing bracket := by
  obtain ⟨p, isPrevious, accepts⟩ := exists_of_any accepts
  refine ⟨p, isPrevious, ?_⟩
  cases p <;> simp_all [Kind.acceptsAccess]

theorem follows_of_permits {previous : Option Kind} {role : Role} (other : role ≠ .infixOp)
    (h : permits previous role = true) : (Kind.operator role).Follows previous := by
  cases role with
  | infixOp => exact absurd rfl other
  | postfixOp => exact exists_of_any h
  | prefixOp =>
    rintro p ⟨⟩
    rcases p with _ | _ | _ | (_ | _ | _) | _ | _ | _ | _ | _ | _ | _ | _ <;>
      simp_all [permits, Kind.isOpening]

/-- A token that is added on its own may stand after the one before it. -/
theorem follows_of_scans {s : State} {c : Char} {rest : List Char} {token : Token} {length : Nat}
    (scans : Scans operators s c rest token.kind length)
    (arranged : arrange features s.previous token = .ok [token]) :
    token.kind.Follows s.previous := by
  obtain ⟨leaves, -, operand⟩ := arrange_eq_single arranged
  generalize token.kind = kind at scans leaves operand
  cases scans with
  | number | text | name | function | openParen => trivial
  | comma =>
    intro p isPrevious
    simp_all [leavesArgumentEmpty]
  | operator role _ permitted =>
    by_cases isInfix : role = .infixOp
    · subst isInfix
      obtain ⟨p, isPrevious, ends⟩ := exists_of_any (operand rfl)
      exact ⟨p, isPrevious, by simpa using ends⟩
    · exact follows_of_permits isInfix permitted
  | @openAccess bracket isAccess accepts =>
    cases bracket with
    | paren => exact absurd rfl isAccess
    | square | curly => exact follows_of_acceptsAccess accepts
  | @closing bracket =>
    cases bracket with
    | paren =>
      intro isComma
      simp [leavesArgumentEmpty, isComma] at leaves
    | square | curly => trivial
  | field accepts => exact follows_of_acceptsAccess accepts

/-- A token that is added on its own is one to which the one before it may lead. -/
theorem leadsTo_of_scans {s : State} {c : Char} {rest : List Char} {token : Token} {length : Nat}
    (scans : Scans operators s c rest token.kind length)
    (arranged : arrange features s.previous token = .ok [token])
    (called : s.previous = some .function → token.kind = .opening .paren) :
    ∀ previous ∈ s.previous, previous.LeadsTo (some token.kind) := by
  obtain ⟨-, after, operand⟩ := arrange_eq_single arranged
  intro previous isPrevious
  cases previous with
  | function => exact congrArg some (called isPrevious)
  | operator role =>
    cases role with
    | prefixOp | postfixOp => trivial
    | infixOp =>
      have allowed := after isPrevious
      have noInfix : token.kind ≠ .operator .infixOp := by
        intro isInfix
        have permitted := operand isInfix
        simp [permitsInfix, Option.mem_def.mp isPrevious, Kind.endsOperand] at permitted
      have noComma : token.kind ≠ .comma := by
        intro isComma
        simp [isComma, cannotFollowInfix] at allowed
      rintro next ⟨⟩
      refine ⟨noInfix, noComma, ?_⟩
      intro bracket closes
      rw [closes] at scans allowed
      cases scans with
      | closing _ accepted =>
        rcases accepted with rfl | accepted
        · cases allowed
        · simp [Option.mem_def.mp isPrevious, Kind.acceptsClosing] at accepted
  | _ => trivial

/-- The tokens, the latest first, may each follow the one before. -/
def Chained (tokens : List Token) : Prop :=
  ∀ after token before, tokens = after ++ token :: before →
    token.kind.Follows (before.head?.map (·.kind)) ∧
      ∀ previous ∈ before.head?, previous.kind.LeadsTo (some token.kind)

theorem chained_nil : Chained [] := by
  intro after token before eq
  simp at eq

theorem Chained.cons {tokens : List Token} {token : Token} (chained : Chained tokens)
    (follows : token.kind.Follows (tokens.head?.map (·.kind)))
    (leads : ∀ previous ∈ tokens.head?, previous.kind.LeadsTo (some token.kind)) :
    Chained (token :: tokens) := by
  intro after other before eq
  cases after with
  | nil =>
    obtain ⟨rfl, rfl⟩ := List.cons.inj eq
    exact ⟨follows, leads⟩
  | cons latest after => exact chained after other before (List.cons.inj eq).2

theorem nest_of_scans {s : State} {c : Char} {rest : List Char} {token : Token} {length : Nat}
    (scans : Scans operators s c rest token.kind length)
    (opens : ∀ entry ∈ s.brackets, entry.2.kind = .opening entry.1) :
    nest (s.brackets.map Prod.snd) token = some ((track token s.brackets).map Prod.snd) ∧
      ∀ entry ∈ track token s.brackets, entry.2.kind = .opening entry.1 := by
  cases kind : token.kind with
  | opening bracket =>
    refine ⟨by simp [nest_opening kind, track, kind], ?_⟩
    simpa [track, kind] using opens
  | closing bracket =>
    rw [kind] at scans
    cases scans with
    | closing innermost =>
      rw [innermost] at opens ⊢
      have own := opens _ List.mem_cons_self
      refine ⟨by simp [nest_closing kind own, track, kind], ?_⟩
      intro entry member
      simp only [track, kind, List.tail_cons] at member
      exact opens entry (List.mem_cons_of_mem _ member)
  | _ =>
    rw [nest_other (by simp [kind]) (by simp [kind])]
    simpa [track, kind] using opens

/-- A product is implied after the end of an operand, before what begins one. -/
theorem impliesProduct_eq_true {previous : Option Kind} {kind : Kind}
    (h : impliesProduct previous kind = true) :
    (∃ p, previous = some p ∧ p.endsOperand = true) ∧
      (kind = .opening .paren ∨ kind = .name ∨ kind = .function) := by
  unfold impliesProduct at h
  split at h
  · rcases Bool.or_eq_true_iff.mp h with isPrevious | isPrevious <;> simp_all [Kind.endsOperand]
  all_goals simp_all [Kind.endsOperand]

theorem Chained.cons_product {tokens : List Token} {token : Token} (chained : Chained tokens)
    (implied : impliesProduct (tokens.head?.map (·.kind)) token.kind = true) :
    Chained (token :: token.impliedProduct :: tokens) := by
  obtain ⟨⟨p, isPrevious, ends⟩, begins⟩ := impliesProduct_eq_true implied
  have product : Chained (token.impliedProduct :: tokens) := by
    apply chained.cons
    · exact ⟨p, isPrevious, .inl ends⟩
    · intro previous isHead
      obtain rfl : previous.kind = p := by simpa [Option.mem_def.mp isHead] using isPrevious
      generalize previous.kind = kind at ends
      cases kind <;> trivial
  apply product.cons
  · rcases begins with kind | kind | kind <;> rw [kind] <;> trivial
  · rintro previous ⟨⟩
    rcases begins with kind | kind | kind <;>
      simp [Token.impliedProduct, Kind.LeadsTo, kind]

theorem Chained.add {s : State} {c : Char} {rest : List Char} {token : Token} {length : Nat}
    {added : List Token} (chained : Chained s.tokens)
    (scans : Scans operators s c rest token.kind length)
    (arranged : arrange features s.previous token = .ok added)
    (called : s.previous = some .function → token.kind = .opening .paren) :
    Chained (added.reverse ++ s.tokens) := by
  rcases arrange_eq_ok arranged with rfl | ⟨rfl, implied⟩
  · apply chained.cons (follows_of_scans scans arranged)
    intro previous isHead
    exact leadsTo_of_scans scans arranged called _ (Option.mem_map_of_mem _ isHead)
  · exact chained.cons_product implied

theorem stillOpen_add {tokens : List Token} {token : Token} {added opened : List Token}
    {previous : Option Kind} (arranged : arrange features previous token = .ok added)
    (matched : stillOpen tokens.reverse = some opened) :
    stillOpen (added.reverse ++ tokens).reverse = nest opened token := by
  rcases arrange_eq_ok arranged with rfl | ⟨rfl, -⟩
  · simpa [matched] using stillOpen_snoc tokens.reverse token
  · have product : stillOpen (tokens.reverse ++ [token.impliedProduct]) = some opened := by
      rw [stillOpen_snoc, matched]
      change nest opened token.impliedProduct = some opened
      apply nest_other <;> simp [Token.impliedProduct]
    simpa [product] using stillOpen_snoc (tokens.reverse ++ [token.impliedProduct]) token

/-- The tokens so far are in order, and a function at their end is about to get its parenthesis. -/
structure Placed (s : State) (cs : List Char) : Prop where
  matched : stillOpen s.tokens.reverse = some (s.brackets.map Prod.snd)
  opens : ∀ entry ∈ s.brackets, entry.2.kind = .opening entry.1
  chained : Chained s.tokens
  called : s.previous = some .function → (cs.dropWhile isWhitespace).head? = some '('

theorem Placed.add {s : State} {c : Char} {rest : List Char} {kind : Kind} {length : Nat}
    {added : List Token} (visible : isWhitespace c = false)
    (scanned : scan operators features s c rest = .ok (kind, length))
    (arranged : arrange features s.previous (s.token kind (c :: rest.take (length - 1))) = .ok added)
    (placed : Placed s (c :: rest)) :
    Placed (s.add kind (c :: rest.take (length - 1)) added) (rest.drop (length - 1)) := by
  let token := s.token kind (c :: rest.take (length - 1))
  have scans : Scans operators s c rest token.kind length := scans_of_scan scanned
  obtain ⟨nests, opens⟩ := nest_of_scans scans placed.opens
  have paren : s.previous = some .function → token.kind = .opening .paren := by
    intro isFunction
    have follows := placed.called isFunction
    obtain rfl : c = '(' := by simpa [visible] using follows
    cases scanned
    rfl
  refine ⟨(stillOpen_add arranged placed.matched).trans nests, opens,
    placed.chained.add scans arranged paren, ?_⟩
  intro isFunction
  have kindEq : kind = .function := by
    rcases arrange_eq_ok arranged with rfl | ⟨rfl, -⟩ <;>
      simpa [State.previous, State.add, State.token] using isFunction
  subst kindEq
  cases scans with
  | function _ follows => exact follows

theorem placed_of_runs {s t : State} {cs : List Char} (h : Runs operators features s cs t)
    (placed : Placed s cs) : Placed t [] := by
  refine h.preserves ?_ ?_ placed
  · intro s c rest blank placed
    refine ⟨placed.matched, placed.opens, placed.chained, ?_⟩
    intro isFunction
    simpa [blank] using placed.called isFunction
  · intro s c rest kind length added visible scanned arranged placed
    exact placed.add visible scanned arranged

end Lexer

open Lexer

theorem wellPlaced_of_tokenize {operators : Operators} {features : Features} {source : String}
    {tokens : List Token} (h : tokenize operators features source = .ok tokens) :
    WellPlaced tokens := by
  obtain ⟨s, runs, closed, rfl⟩ := tokenize_eq_ok h
  have placed : Placed s [] := placed_of_runs runs ⟨rfl, by simp, chained_nil, by simp [State.previous]⟩
  refine ⟨by simpa [closed] using placed.matched, ?_⟩
  intro before token after split
  have reversed : s.tokens = after.reverse ++ token :: before.reverse := by
    simpa using congrArg List.reverse split
  refine ⟨by simpa using (placed.chained _ _ _ reversed).1, ?_⟩
  cases after with
  | nil =>
    have last : s.previous = some token.kind := by simp [State.previous, reversed]
    cases kind : token.kind with
    | function => simpa using placed.called (last.trans (congrArg some kind))
    | operator role => cases role <;> simp [Kind.LeadsTo]
    | _ => trivial
  | cons next after =>
    have nextReversed : s.tokens = after.reverse ++ next :: token :: before.reverse := by
      simpa using reversed
    exact (placed.chained _ _ _ nextReversed).2 token rfl

/-- In the tokens of a source the brackets match, and each token stands between neighbours of its
own. -/
theorem tokenize_wellPlaced (operators : Operators) (features : Features) (source : String)
    (tokens : List Token) (h : tokenize operators features source = .ok tokens) :
    WellPlaced tokens :=
  wellPlaced_of_tokenize h

/-- A product is implied before the group, and the name of a function stands before its bracket. -/
theorem tokenize_wellPlaced_call :
    ∃ tokens, tokenize (.ofLayers (.single .standard)) {} "2(x[0] + MAX(1, -y))" = .ok tokens ∧
      tokens.length = 16 ∧ WellPlaced tokens := by
  have tokenized : (tokenize (.ofLayers (.single .standard)) {}
      "2(x[0] + MAX(1, -y))").toOption.map List.length = some 16 := by
    decide +kernel
  cases h : tokenize (.ofLayers (.single .standard)) {} "2(x[0] + MAX(1, -y))" with
  | error e =>
    rw [h] at tokenized
    cases tokenized
  | ok tokens =>
    rw [h] at tokenized
    exact ⟨tokens, rfl, Option.some.inj tokenized, tokenize_wellPlaced _ _ _ tokens h⟩

end Formulary

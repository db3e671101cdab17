import Formulary.Proofs.Token.Outline
import Formulary.Proofs.Tree.Conservation

set_option autoImplicit false

/-!
# Reading one bracket level at a time

What is in brackets is read on top of what waits outside, and nothing of that is touched until the
bracket closes. So what an outline does to the stacks can be said level by level, with only those
tokens waiting that stand on the level.
-/

namespace Formulary.Tree.Stacks

/-- What the tokens of an outline do to the operands and to what waits on its level. Where an
operator completes some of those before it, nothing is said about which. -/
inductive Reading (functions : FunctionArity) : Outline → Stacks → Stacks → Prop
  | nil (s : Stacks) : Reading functions .nil s s
  | operand {token : Token} {plain : token.kind.isPlain = true} {rest : Outline} {s t : Stacks} :
      token.IsLeaf →
      Reading functions rest ⟨leaf token :: s.operands, s.waiting⟩ t →
      Reading functions (.item token plain rest) s t
  | prefixed {token : Token} {plain : token.kind.isPlain = true} {rest : Outline} {s t : Stacks} :
      token.kind = .operator .prefixOp →
      Reading functions rest ⟨s.operands, token :: s.waiting⟩ t →
      Reading functions (.item token plain rest) s t
  | operator {token : Token} {plain : token.kind.isPlain = true} {rest : Outline}
      {s between t : Stacks} {role : Role} :
      token.kind = .operator role → role ≠ .prefixOp → Joins (fun _ => True) s between →
      Reading functions rest ⟨between.operands, token :: between.waiting⟩ t →
      Reading functions (.item token plain rest) s t
  | field {token : Token} {plain : token.kind.isPlain = true} {rest : Outline}
      {s between t : Stacks} :
      token.kind = .field → Joins (·.kind = .field) s between →
      (∀ top ∈ between.waiting.head?, top.kind ≠ .field) →
      Reading functions rest ⟨between.operands, token :: between.waiting⟩ t →
      Reading functions (.item token plain rest) s t
  | comma {token : Token} {plain : token.kind.isPlain = true} {rest : Outline} {s t : Stacks}
      {joined : List Tree} :
      token.kind = .comma → Joins (fun _ => True) s ⟨joined, []⟩ →
      Reading functions rest ⟨joined, []⟩ t →
      Reading functions (.item token plain rest) s t
  | group {opening closing : Token} {opens : opening.kind = .opening .paren}
      {closes : closing.kind = .closing .paren} {inner rest : Outline} {s within t : Stacks}
      {joined : List Tree} :
      Reading functions inner ⟨s.operands, []⟩ within →
      Joins (fun _ => True) within ⟨joined, []⟩ →
      Reading functions rest ⟨joined, s.waiting⟩ t →
      Reading functions (.group opening closing opens closes inner rest) s t
  | call {function opening closing : Token} {isCall : function.kind = .function}
      {opens : opening.kind = .opening .paren} {closes : closing.kind = .closing .paren}
      {inner rest : Outline} {s within t : Stacks} {joined called : List Tree} :
      Reading functions inner
        ⟨leaf { opening with kind := .argumentsStart } :: s.operands, []⟩ within →
      Joins (fun _ => True) within ⟨joined, []⟩ →
      call functions function joined = .ok called →
      Reading functions rest ⟨called, s.waiting⟩ t →
      Reading functions (.call function opening closing isCall opens closes inner rest) s t
  | access {opening closing accessed : Token} {bracket : Bracket} {isAccess : bracket ≠ .paren}
      {opens : opening.kind = .opening bracket} {closes : closing.kind = .closing bracket}
      {inner rest : Outline} {s between within t : Stacks} {joined results : List Tree} :
      opening.content? = some accessed → Joins (·.kind = .field) s between →
      (∀ top ∈ between.waiting.head?, top.kind ≠ .field) →
      Reading functions inner ⟨between.operands, []⟩ within →
      Joins (fun _ => True) within ⟨joined, []⟩ → Joined accessed joined results →
      Reading functions rest ⟨results, between.waiting⟩ t →
      Reading functions (.access opening closing bracket isAccess opens closes inner rest) s t

/-- Tokens that can wait on a level: no brackets, and no functions, which wait below theirs. -/
def OnLevel (waiting : List Token) : Prop :=
  ∀ token ∈ waiting, token.kind.isOpening = false ∧ token.kind ≠ .function

/-- A level ends below at the bracket that opens it. -/
def Bottom (base : List Token) : Prop :=
  ∀ top ∈ base.head?, top.kind.isOpening = true

theorem bottom_nil : Bottom [] := by
  simp [Bottom]

theorem bottom_cons {opening : Token} (isOpening : opening.kind.isOpening = true)
    (below : List Token) : Bottom (opening :: below) := by
  simpa [Bottom] using isOpening

theorem onLevel_nil : OnLevel [] := by
  simp [OnLevel]

theorem OnLevel.cons {token : Token} {waiting : List Token} (level : OnLevel waiting)
    (opening : token.kind.isOpening = false) (function : token.kind ≠ .function) :
    OnLevel (token :: waiting) := by
  intro other member
  rcases List.mem_cons.mp member with rfl | inRest
  · exact ⟨opening, function⟩
  · exact level other inRest

theorem OnLevel.eq_nil {waiting base : List Token} (level : OnLevel waiting)
    (stop : ∀ top ∈ (waiting ++ base).head?, top.kind.isOpening = true) : waiting = [] := by
  cases waiting with
  | nil => rfl
  | cons top rest =>
    have opening := stop top (by simp)
    simp [(level top (by simp)).1] at opening

theorem Joins.waiting_suffix {ready : Token → Prop} {s t : Stacks} (h : Joins ready s t) :
    t.waiting <:+ s.waiting := by
  induction h with
  | refl s => exact List.suffix_refl _
  | step _ _ _ ih => exact ih.trans (List.suffix_cons _ _)

/-- Joining stops at the bracket that opens a level. -/
theorem Joins.on_level {ready : Token → Prop} {operands : List Tree} {waiting base : List Token}
    {t : Stacks} (h : Joins ready ⟨operands, waiting ++ base⟩ t) (bottom : Bottom base) :
    ∃ u, t = ⟨u.operands, u.waiting ++ base⟩ ∧ Joins ready ⟨operands, waiting⟩ u := by
  generalize eq : (⟨operands, waiting ++ base⟩ : Stacks) = s at h
  induction h generalizing operands waiting with
  | refl s =>
    subst eq
    exact ⟨⟨operands, waiting⟩, rfl, .refl _⟩
  | @step token below before joined t isReady isJoined _ ih =>
    obtain ⟨rfl, split⟩ := Stacks.mk.inj eq
    cases waiting with
    | nil =>
      obtain rfl : base = token :: below := split
      have opening := bottom token (by simp)
      simp [isJoined.isOpening_eq_false] at opening
    | cons top waiting =>
      obtain ⟨rfl, rfl⟩ := List.cons.inj split
      obtain ⟨u, rfl, joins⟩ := ih rfl
      exact ⟨u, rfl, .step isReady isJoined joins⟩

section Levels

variable {operators : Operators} {functions : FunctionArity} {previous : Option Kind}
  {operands : List Tree} {waiting base : List Token} {t : Stacks}

theorem joins_onLevel {ready : Token → Prop} {u : Stacks} (level : OnLevel waiting)
    (joins : Joins ready ⟨operands, waiting⟩ u) : OnLevel u.waiting :=
  fun token member => level token (joins.waiting_suffix.subset member)

theorem Joins.to_bottom {ready : Token → Prop} (level : OnLevel waiting) (bottom : Bottom base)
    (h : Joins ready ⟨operands, waiting ++ base⟩ t)
    (stop : ∀ top ∈ t.waiting.head?, top.kind.isOpening = true) :
    t.waiting = base ∧ Joins (fun _ => True) ⟨operands, waiting⟩ ⟨t.operands, []⟩ := by
  obtain ⟨u, rfl, joins⟩ := h.on_level bottom
  have nothing := (joins_onLevel level joins).eq_nil stop
  refine ⟨by simp [nothing], ?_⟩
  obtain ⟨uOperands, uWaiting⟩ := u
  subst nothing
  exact joins.mono fun _ _ => trivial

theorem OnLevel.not_function (level : OnLevel waiting) (bottom : Bottom base) :
    ∀ top ∈ (waiting ++ base).head?, top.kind ≠ .function := by
  intro top isTop function
  cases waiting with
  | nil =>
    have opening := bottom top isTop
    simp [function, Kind.isOpening] at opening
  | cons own rest =>
    obtain rfl : own = top := by simpa using isTop
    exact (level own (by simp)).2 function

namespace Step

variable {s : Stacks} {token opening : Token}

theorem waits_function (h : Step functions previous token s t) (isCall : token.kind = .function) :
    t = ⟨s.operands, token :: s.waiting⟩ := by
  cases h with
  | wait => rfl
  | operand kind | operator kind | field kind | comma kind | openGroup kind | openCall kind
  | openAccess kind | closeGroup kind | closeCall kind | closeAccess kind =>
    exact absurd kind (by simp [isCall, Token.IsLeaf])

theorem opens_group (h : Step functions previous token s t) (opens : token.kind = .opening .paren)
    (start : previous ≠ some .function) : t = ⟨s.operands, token :: s.waiting⟩ := by
  cases h with
  | openGroup => rfl
  | openCall _ isCall => exact absurd isCall start
  | operand kind | wait kind | operator kind | field kind | comma kind | openAccess kind
  | closeGroup kind | closeCall kind | closeAccess kind =>
    exact absurd kind (by simp [opens, Token.IsLeaf])

theorem opens_call (h : Step functions previous token s t) (opens : token.kind = .opening .paren)
    (isCall : previous = some .function) :
    t = ⟨leaf { token with kind := .argumentsStart } :: s.operands, token :: s.waiting⟩ := by
  cases h with
  | openCall => rfl
  | openGroup _ noCall => exact absurd isCall noCall
  | operand kind | wait kind | operator kind | field kind | comma kind | openAccess kind
  | closeGroup kind | closeCall kind | closeAccess kind =>
    exact absurd kind (by simp [opens, Token.IsLeaf])

theorem opens_access {bracket : Bracket} (h : Step functions previous token s t)
    (opens : token.kind = .opening bracket) (isAccess : bracket ≠ .paren) :
    ∃ between accessed, t = ⟨between.operands, token :: accessed :: between.waiting⟩ ∧
      token.content? = some accessed ∧ Joins (·.kind = .field) s between ∧
      ∀ top ∈ between.waiting.head?, top.kind ≠ .field := by
  cases h with
  | openAccess _ isAccessed joins stop => exact ⟨_, _, rfl, isAccessed, joins, stop⟩
  | operand kind | wait kind | operator kind | field kind | comma kind | openGroup kind
  | openCall kind | closeGroup kind | closeCall kind | closeAccess kind =>
    exact absurd kind (by simp [opens, isAccess, Token.IsLeaf])

/-- A parenthesis that closes joins what waits since the one that opens the level. -/
theorem closes_group (h : Step functions previous token ⟨operands, waiting ++ opening :: base⟩ t)
    (closes : token.kind = .closing .paren) (level : OnLevel waiting)
    (isOpening : opening.kind.isOpening = true)
    (noCall : ∀ top ∈ base.head?, top.kind ≠ .function) :
    t.waiting = base ∧ Joins (fun _ => True) ⟨operands, waiting⟩ ⟨t.operands, []⟩ := by
  have bottom := bottom_cons isOpening base
  cases h with
  | closeGroup _ joins stop =>
    obtain ⟨same, above⟩ := joins.to_bottom level bottom (by simpa using stop)
    exact ⟨(List.cons.inj same).2, above⟩
  | closeCall _ joins stop isCall =>
    obtain ⟨same, -⟩ := joins.to_bottom level bottom (by simpa using stop)
    have function := (List.cons.inj same).2
    exact absurd isCall (noCall _ (by simp [← function]))
  | operand kind | wait kind | operator kind | field kind | comma kind | openGroup kind
  | openCall kind | openAccess kind | closeAccess kind =>
    exact absurd kind (by simp [closes, Token.IsLeaf])

theorem closes_call {function : Token}
    (h : Step functions previous token ⟨operands, waiting ++ opening :: function :: base⟩ t)
    (closes : token.kind = .closing .paren) (level : OnLevel waiting)
    (isOpening : opening.kind.isOpening = true) (isCall : function.kind = .function) :
    t.waiting = base ∧ ∃ joined, Joins (fun _ => True) ⟨operands, waiting⟩ ⟨joined, []⟩ ∧
      call functions function joined = .ok t.operands := by
  have bottom := bottom_cons isOpening (function :: base)
  cases h with
  | closeGroup _ joins stop noCall =>
    obtain ⟨same, -⟩ := joins.to_bottom level bottom (by simpa using stop)
    have below := (List.cons.inj same).2
    exact absurd isCall (noCall function (by simp [below]))
  | closeCall _ joins stop _ called =>
    obtain ⟨same, above⟩ := joins.to_bottom level bottom (by simpa using stop)
    obtain ⟨rfl, below⟩ := List.cons.inj same
    obtain ⟨rfl, rfl⟩ := List.cons.inj below
    exact ⟨rfl, _, above, called⟩
  | operand kind | wait kind | operator kind | field kind | comma kind | openGroup kind
  | openCall kind | openAccess kind | closeAccess kind =>
    exact absurd kind (by simp [closes, Token.IsLeaf])

theorem closes_access {accessed : Token} {bracket : Bracket}
    (h : Step functions previous token ⟨operands, waiting ++ opening :: accessed :: base⟩ t)
    (closes : token.kind = .closing bracket) (isAccess : bracket ≠ .paren) (level : OnLevel waiting)
    (isOpening : opening.kind.isOpening = true) :
    t.waiting = base ∧ ∃ joined, Joins (fun _ => True) ⟨operands, waiting⟩ ⟨joined, []⟩ ∧
      Joined accessed joined t.operands := by
  have bottom := bottom_cons isOpening (accessed :: base)
  cases h with
  | closeAccess _ joins stop isJoined =>
    obtain ⟨same, above⟩ := joins.to_bottom level bottom (by simpa using stop)
    obtain ⟨rfl, below⟩ := List.cons.inj same
    obtain ⟨rfl, rfl⟩ := List.cons.inj below
    exact ⟨rfl, _, above, isJoined⟩
  | operand kind | wait kind | operator kind | field kind | comma kind | openGroup kind
  | openCall kind | openAccess kind | closeGroup kind | closeCall kind =>
    exact absurd kind (by simp [closes, isAccess, Token.IsLeaf])

end Step

/-- The tokens of an outline are read on their level, whatever waits below it. -/
theorem reading_of_addAll (outline : Outline) (level : OnLevel waiting) (bottom : Bottom base)
    (start : previous ≠ some .function)
    (h : addAll operators functions previous ⟨operands, waiting ++ base⟩ outline.tokens = .ok t) :
    ∃ u, t = ⟨u.operands, u.waiting ++ base⟩ ∧ OnLevel u.waiting ∧
      Reading functions outline ⟨operands, waiting⟩ u := by
  induction outline generalizing previous operands waiting base t with
  | nil =>
    cases h
    exact ⟨⟨operands, waiting⟩, rfl, level, .nil _⟩
  | item token plain rest ih =>
    obtain ⟨after, added, readRest⟩ := addAll_cons_eq_ok.mp h
    have isPlain : token.kind.isPlain = true := plain
    have next : some token.kind ≠ some .function := by
      intro function
      simp [Option.some.inj function, Kind.isPlain] at isPlain
    cases step_of_add added with
    | operand kind =>
      obtain ⟨u, rfl, uLevel, reading⟩ := ih level bottom next readRest
      exact ⟨u, rfl, uLevel, .operand kind reading⟩
    | wait kind =>
      have isPrefix : token.kind = .operator .prefixOp := by
        rcases kind with function | role
        · exact absurd (congrArg some function) next
        · exact role
      have waits : OnLevel (token :: waiting) :=
        level.cons (by simp [isPrefix, Kind.isOpening]) (by simp [isPrefix])
      obtain ⟨u, rfl, uLevel, reading⟩ := ih waits bottom next readRest
      exact ⟨u, rfl, uLevel, .prefixed isPrefix reading⟩
    | operator kind other joins =>
      obtain ⟨between, rfl, above⟩ := joins.on_level bottom
      have waits : OnLevel (token :: between.waiting) :=
        (joins_onLevel level above).cons (by simp [kind, Kind.isOpening]) (by simp [kind])
      obtain ⟨u, rfl, uLevel, reading⟩ := ih waits bottom next readRest
      exact ⟨u, rfl, uLevel, .operator kind other above reading⟩
    | field kind joins stop =>
      obtain ⟨between, rfl, above⟩ := joins.on_level bottom
      have waits : OnLevel (token :: between.waiting) :=
        (joins_onLevel level above).cons (by simp [kind, Kind.isOpening]) (by simp [kind])
      obtain ⟨u, rfl, uLevel, reading⟩ := ih waits bottom next readRest
      refine ⟨u, rfl, uLevel, .field kind above ?_ reading⟩
      intro top isTop
      exact stop top (by simp [List.head?_append, Option.mem_def.mp isTop])
    | comma kind joins stop =>
      obtain ⟨rfl, above⟩ := joins.to_bottom level bottom stop
      obtain ⟨u, rfl, uLevel, reading⟩ := ih onLevel_nil bottom next readRest
      exact ⟨u, rfl, uLevel, .comma kind above reading⟩
    | openGroup kind | openCall kind | closeGroup kind | closeCall kind =>
      simp [kind, Kind.isPlain] at isPlain
    | openAccess kind | closeAccess kind =>
      rcases kind with kind | kind <;> simp [kind, Kind.isPlain] at isPlain
  | group opening closing opens closes inner rest inner_ih ih =>
    obtain ⟨after, added, readAll⟩ := addAll_cons_eq_ok.mp h
    obtain ⟨ended, readInner, readClosing⟩ := addAll_append_eq_ok.mp readAll
    obtain ⟨closed, addedClosing, readRest⟩ := addAll_cons_eq_ok.mp readClosing
    have isOpening : opening.kind.isOpening = true := congrArg Kind.isOpening opens
    have inside : some opening.kind ≠ some .function := by simp [opens]
    have next : some closing.kind ≠ some .function := by simp [closes]
    obtain rfl : after = ⟨operands, [] ++ opening :: (waiting ++ base)⟩ :=
      (step_of_add added).opens_group opens start
    obtain ⟨within, rfl, innerLevel, reading⟩ :=
      inner_ih onLevel_nil (bottom_cons isOpening _) inside readInner
    obtain ⟨closedLevel, joins⟩ := (step_of_add addedClosing).closes_group closes innerLevel
      isOpening (level.not_function bottom)
    obtain ⟨closedOperands, closedWaiting⟩ := closed
    obtain rfl : closedWaiting = waiting ++ base := closedLevel
    obtain ⟨u, rfl, uLevel, readingRest⟩ := ih level bottom next readRest
    exact ⟨u, rfl, uLevel, .group reading joins readingRest⟩
  | call function opening closing isCall opens closes inner rest inner_ih ih =>
    obtain ⟨after, added, readAll⟩ := addAll_cons_eq_ok.mp h
    obtain ⟨begun, addedOpening, readAll⟩ := addAll_cons_eq_ok.mp readAll
    obtain ⟨ended, readInner, readClosing⟩ := addAll_append_eq_ok.mp readAll
    obtain ⟨closed, addedClosing, readRest⟩ := addAll_cons_eq_ok.mp readClosing
    have isOpening : opening.kind.isOpening = true := congrArg Kind.isOpening opens
    have inside : some opening.kind ≠ some .function := by simp [opens]
    have next : some closing.kind ≠ some .function := by simp [closes]
    obtain rfl : after = ⟨operands, function :: (waiting ++ base)⟩ :=
      (step_of_add added).waits_function isCall
    obtain rfl : begun = ⟨leaf { opening with kind := .argumentsStart } :: operands,
        [] ++ opening :: function :: (waiting ++ base)⟩ :=
      (step_of_add addedOpening).opens_call opens (congrArg some isCall)
    obtain ⟨within, rfl, innerLevel, reading⟩ :=
      inner_ih onLevel_nil (bottom_cons isOpening _) inside readInner
    obtain ⟨closedLevel, joined, joins, called⟩ :=
      (step_of_add addedClosing).closes_call closes innerLevel isOpening isCall
    obtain ⟨closedOperands, closedWaiting⟩ := closed
    obtain rfl : closedWaiting = waiting ++ base := closedLevel
    obtain ⟨u, rfl, uLevel, readingRest⟩ := ih level bottom next readRest
    exact ⟨u, rfl, uLevel, .call reading joins called readingRest⟩
  | access opening closing bracket isAccess opens closes inner rest inner_ih ih =>
    obtain ⟨after, added, readAll⟩ := addAll_cons_eq_ok.mp h
    obtain ⟨ended, readInner, readClosing⟩ := addAll_append_eq_ok.mp readAll
    obtain ⟨closed, addedClosing, readRest⟩ := addAll_cons_eq_ok.mp readClosing
    have isOpening : opening.kind.isOpening = true := congrArg Kind.isOpening opens
    have inside : some opening.kind ≠ some .function := by simp [opens]
    have next : some closing.kind ≠ some .function := by simp [closes]
    obtain ⟨object, accessed, rfl, isAccessed, joinsFields, stop⟩ :=
      (step_of_add added).opens_access opens isAccess
    obtain ⟨between, rfl, fields⟩ := joinsFields.on_level bottom
    obtain ⟨within, rfl, innerLevel, reading⟩ :=
      inner_ih onLevel_nil (bottom_cons isOpening _) inside readInner
    obtain ⟨closedLevel, joined, joins, isJoined⟩ :=
      (step_of_add addedClosing).closes_access closes isAccess innerLevel isOpening
    obtain ⟨closedOperands, closedWaiting⟩ := closed
    obtain rfl : closedWaiting = between.waiting ++ base := closedLevel
    obtain ⟨u, rfl, uLevel, readingRest⟩ := ih (joins_onLevel level fields) bottom next readRest
    refine ⟨u, rfl, uLevel, .access isAccessed fields ?_ reading joins isJoined readingRest⟩
    intro top isTop
    exact stop top (by simp [List.head?_append, Option.mem_def.mp isTop])

end Levels

end Formulary.Tree.Stacks

namespace Formulary.Tree

open Stacks

/-- A tree is what an outline leaves when all that waits on its level is joined. -/
theorem ofTokens_outline {operators : Operators} {functions : FunctionArity} {source : String}
    {outline : Outline} {tree : Tree}
    (h : ofTokens operators functions source outline.tokens = .ok tree) :
    ∃ s, Reading functions outline {} s ∧ Joins (fun _ => True) s ⟨[tree], []⟩ ∧
      ¬tree.isMark := by
  obtain ⟨t, read, joins, real⟩ := ofTokens_eq_ok h
  obtain ⟨s, rfl, -, reading⟩ :=
    reading_of_addAll outline onLevel_nil bottom_nil (by simp) read
  simp only [List.append_nil] at joins
  exact ⟨s, reading, joins, real⟩

end Formulary.Tree

namespace Formulary

variable {operators : Operators} {functions : FunctionArity} {features : Features}
  {source : String}

/-- What is read has brackets that match, and its tree is that of the tokens between them. -/
theorem parse_eq_ok {tree : Tree}
    (h : parse operators functions features source = .ok tree) :
    ∃ outline : Outline, tokenize operators features source = .ok outline.tokens ∧
      Tree.ofTokens operators functions source outline.tokens = .ok tree := by
  obtain ⟨tokens, tokenized, read⟩ := bind_eq_ok_iff.mp h
  obtain ⟨outline, rfl⟩ := tokenize_outline tokenized
  exact ⟨outline, tokenized, read⟩

theorem parse_of_tokenize {tokens : List Token}
    (h : tokenize operators features source = .ok tokens) :
    parse operators functions features source = Tree.ofTokens operators functions source tokens := by
  rw [parse, h]
  rfl

end Formulary

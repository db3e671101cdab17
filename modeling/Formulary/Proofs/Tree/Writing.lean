import Formulary.Proofs.Token.Rereading
import Formulary.Proofs.Tree.Alike
import Formulary.Proofs.Tree.Grouping
import Formulary.Proofs.Tree.Readable

set_option autoImplicit false

/-!
# What the text of a tree is read as

The text of a tree has parentheses around all that needs them, so each token of the tree is found
again in it. The exception is a number after the point of a field: if it begins with a digit, the
point becomes a part of it, and one field less is read.
-/

namespace Formulary

namespace Tree

open Lexer Text

/-- A number that can be taken for the decimals after a point. -/
def IsDigitLed (tree : Tree) : Prop :=
  tree.kind = .number ∧ tree.text.toList.head?.any isDigit = true

theorem IsDigitLed.alike {first second : Tree} (h : first.IsDigitLed) (alike : first.Alike second) :
    second.IsDigitLed := by
  obtain ⟨kind, text⟩ := alike.root
  unfold IsDigitLed Tree.kind Tree.text at h ⊢
  rw [← kind, ← text]
  exact h

/-- What stands after the point of each field satisfies `holds`. -/
def FieldOperands (holds : Tree → Prop) (tree : Tree) : Prop :=
  ∀ part ∈ tree.nodes, part.kind = .field → ∀ operand ∈ part.children.getLast?, holds operand

theorem fieldOperands_node {holds : Tree → Prop} {token : Token} {children : List Tree} :
    FieldOperands holds (node token children) ↔
      (token.kind = .field → ∀ operand ∈ children.getLast?, holds operand) ∧
        ∀ child ∈ children, FieldOperands holds child := by
  simp only [FieldOperands, nodes_node, List.forall_mem_cons, List.mem_flatMap]
  constructor
  · rintro ⟨root, below⟩
    exact ⟨root, fun child isChild part member => below part ⟨child, isChild, member⟩⟩
  · rintro ⟨root, below⟩
    exact ⟨root, fun part ⟨child, isChild, member⟩ => below child isChild part member⟩

theorem FieldOperands.child {holds : Tree → Prop} {token : Token} {children : List Tree}
    (h : FieldOperands holds (node token children)) {child : Tree} (isChild : child ∈ children) :
    FieldOperands holds child :=
  (fieldOperands_node.mp h).2 child isChild

theorem fieldOperands_of_childless {holds : Tree → Prop} {token : Token} {children : List Tree}
    (notField : token.kind ≠ .field) (childless : children.length = 0) :
    FieldOperands holds (node token children) := by
  rw [List.eq_nil_of_length_eq_zero childless, fieldOperands_node]
  exact ⟨fun isField => absurd isField notField, by simp⟩

theorem FieldOperands.imp {holds other : Tree → Prop} {tree : Tree} (h : FieldOperands holds tree)
    (imp : ∀ operand : Tree, holds operand → other operand) : FieldOperands other tree :=
  fun part member kind operand isLast => imp operand (h part member kind operand isLast)

theorem FieldOperands.alike {holds : Tree → Prop} {first second : Tree}
    (h : FieldOperands holds first) (alike : first.Alike second)
    (imp : ∀ operand other : Tree, operand.Alike other → holds operand → holds other) :
    FieldOperands holds second := by
  refine alike.forall_nodes ?_ h
  intro part other same holds kind last isLast
  obtain ⟨operand, isOperand, sameOperand⟩ := forall₂_getLast? same.children last isLast
  exact imp operand last sameOperand (holds (same.root.1.trans kind) operand isOperand)

/-- A tree or the arguments of a call. -/
inductive Phrase where
  | tree (tree : Tree)
  | arguments (trees : List Tree)

/-- The tokens that the text of a tree may be read as, with the tokens of the tree among them. After
a point a number that begins with a digit is lost together with the point. -/
inductive Written (functions : FunctionArity) : Phrase → List Token → Prop
  | leaf {token : Token} : token.IsLeaf → Written functions (.tree (leaf token)) [token]
  | prefixed {token outer inner innerEnd outerEnd : Token} {operand : Tree} {tokens : List Token} :
      token.kind = .operator .prefixOp → token.IsDefined Operators.standard →
      outer.kind = .opening .paren → inner.kind = .opening .paren →
      innerEnd.kind = .closing .paren → outerEnd.kind = .closing .paren →
      Written functions (.tree operand) tokens →
      Written functions (.tree (node token [operand]))
        (outer :: token :: inner :: (tokens ++ [innerEnd, outerEnd]))
  | infixed {token opening closing : Token} {left right : Tree} {first second : List Token} :
      token.kind = .operator .infixOp → token.IsDefined Operators.standard →
      opening.kind = .opening .paren → closing.kind = .closing .paren →
      Written functions (.tree left) first → Written functions (.tree right) second →
      Written functions (.tree (node token [left, right]))
        (opening :: (first ++ token :: (second ++ [closing])))
  | field {token opening closing : Token} {object operand : Tree} {first second : List Token} :
      token.kind = .field → opening.kind = .opening .paren → closing.kind = .closing .paren →
      ¬operand.IsDigitLed →
      Written functions (.tree object) first → Written functions (.tree operand) second →
      Written functions (.tree (node token [object, operand]))
        (opening :: (first ++ closing :: token :: second))
  | merged {token opening closing : Token} {object operand : Tree} {first rest : List Token} :
      token.kind = .field → opening.kind = .opening .paren → closing.kind = .closing .paren →
      operand.IsDigitLed → (∀ other ∈ rest, other.kind ≠ .field) →
      Written functions (.tree object) first →
      Written functions (.tree (node token [object, operand]))
        (opening :: (first ++ closing :: rest))
  | access {token opening closing bracket bracketEnd : Token} {shape : Bracket}
      {object key : Tree} {first second : List Token} :
      opening.kind = .opening .paren → closing.kind = .closing .paren → shape ≠ .paren →
      bracket.kind = .opening shape → bracketEnd.kind = .closing shape →
      bracket.content? = some token →
      Written functions (.tree object) first → Written functions (.tree key) second →
      Written functions (.tree (node token [object, key]))
        (opening :: (first ++ closing :: bracket :: (second ++ [bracketEnd])))
  | call {token opening closing : Token} {arguments : List Tree} {tokens : List Token} :
      token.kind = .function → functions.has token.span.text = true →
      functions.accepts token.span.text arguments.length = true →
      opening.kind = .opening .paren → closing.kind = .closing .paren →
      Written functions (.arguments arguments) tokens →
      Written functions (.tree (node token arguments)) (token :: opening :: (tokens ++ [closing]))
  | noArgument : Written functions (.arguments []) []
  | lastArgument {argument : Tree} {tokens : List Token} :
      Written functions (.tree argument) tokens → Written functions (.arguments [argument]) tokens
  | nextArgument {argument next : Tree} {arguments : List Tree} {first rest : List Token}
      {comma : Token} :
      comma.kind = .comma → Written functions (.tree argument) first →
      Written functions (.arguments (next :: arguments)) rest →
      Written functions (.arguments (argument :: next :: arguments)) (first ++ comma :: rest)

section Render

variable {token : Token}

theorem render_leaf (isLeaf : token.IsLeaf) : (leaf token).render = token.span.text := by
  rcases isLeaf with kind | kind | kind <;> simp [leaf, render, renderAll, kind]

theorem toList_render_prefixed (kind : token.kind = .operator .prefixOp) (operand : Tree) :
    (node token [operand]).render.toList =
      '(' :: (token.span.text.toList ++ '(' :: (operand.render.toList ++ [')', ')'])) := by
  simp [render, renderAll, kind]

theorem toList_render_infixed (kind : token.kind = .operator .infixOp) (left right : Tree) :
    (node token [left, right]).render.toList =
      '(' :: (left.render.toList ++ ' ' :: (token.span.text.toList ++
        ' ' :: (right.render.toList ++ [')']))) := by
  simp [render, renderAll, kind]

theorem toList_render_field (kind : token.kind = .field) (object operand : Tree) :
    (node token [object, operand]).render.toList =
      '(' :: (object.render.toList ++ ')' :: '.' :: operand.render.toList) := by
  simp [render, renderAll, kind]

theorem toList_render_element (kind : token.kind = .element) (object key : Tree) :
    (node token [object, key]).render.toList =
      '(' :: (object.render.toList ++ ')' :: '[' :: (key.render.toList ++ [']'])) := by
  simp [render, renderAll, kind]

theorem toList_render_entry (kind : token.kind = .entry) (object key : Tree) :
    (node token [object, key]).render.toList =
      '(' :: (object.render.toList ++ ')' :: '\x7b' :: (key.render.toList ++ ['\x7d'])) := by
  simp [render, renderAll, kind]

theorem toList_render_call (kind : token.kind = .function) (arguments : List Tree) :
    (node token arguments).render.toList = token.span.text.toList ++
      '(' :: ((", ".intercalate (arguments.map render)).toList ++ [')']) := by
  simp [render, renderAll_eq, kind]

end Render

section Read

variable {functions : FunctionArity} {features : Features} {s : State} {rest : List Char}
  {token : Token}

theorem token_alike (s : State) {kind : Kind} (same : token.kind = kind) :
    (s.token kind token.span.text.toList).Alike token := by
  simp [State.token, Token.Alike, same]

theorem delimits_closing {c : Char} (closes : c ∈ [')', ']', '\x7d', ',']) (rest : List Char) :
    Delimits (c :: rest) := by
  have facts : ∀ c ∈ [')', ']', '\x7d', ','], c ∈ [')', ']', '\x7d', ',', ' '] ∧
      isWhitespace c = false ∧ c ≠ '(' :=
    forall_mem_of_all (by decide)
  obtain ⟨delimiter, visible, noParen⟩ := facts c closes
  refine ⟨?_, by simp [visible, noParen]⟩
  rintro d ⟨⟩
  exact delimiter

theorem delimits_operator {role : Role} {text : List Char}
    (spelled : Spelled features (.operator role) text) (rest : List Char) :
    Delimits (' ' :: (text ++ rest)) := by
  cases spelled with
  | operator found =>
    obtain ⟨nonempty, ofSymbols⟩ := OperatorTable.symbols_of_find? found
    refine ⟨by rintro d ⟨⟩; decide, ?_⟩
    cases text with
    | nil => exact absurd rfl nonempty
    | cons c text =>
      obtain ⟨visible, -, -, -, -, -, noBracket⟩ := symbols_plain c (ofSymbols c List.mem_cons_self)
      have blank : isWhitespace ' ' = true := by decide
      simp only [List.mem_cons, not_or] at noBracket
      simp [blank, visible, noBracket.1]

theorem delimits_nil : Delimits [] :=
  ⟨by simp, by simp⟩

theorem awaits_opening (s : State) (bracket : Bracket) (text : List Char) :
    AwaitsOperand (s.put (.opening bracket) text).previous := by
  rintro p ⟨⟩
  exact .inl rfl

theorem awaits_comma (s : State) (text : List Char) :
    AwaitsOperand (s.put .comma text).previous := by
  rintro p ⟨⟩
  exact .inr (.inl rfl)

theorem awaits_field (s : State) (text : List Char) :
    AwaitsOperand (s.put .field text).previous := by
  rintro p ⟨⟩
  exact .inr (.inr (.inl rfl))

theorem awaits_prefixed (s : State) (text : List Char) :
    AwaitsOperand (s.put (.operator .prefixOp) text).previous := by
  rintro p ⟨⟩
  exact .inr (.inr (.inr (.inl rfl)))

theorem awaits_infixed (s : State) (text : List Char) :
    AwaitsOperand (s.put (.operator .infixOp) text).previous := by
  rintro p ⟨⟩
  exact .inr (.inr (.inr (.inr rfl)))

theorem found_of_spelled {role : Role} {text : List Char}
    (spelled : Spelled features (.operator role) text) :
    (Operators.standard.find? role (String.ofList text)).isSome := by
  cases spelled with
  | operator found => exact found

theorem isDefined_token (s : State) {role : Role} {text : List Char}
    (found : (Operators.standard.find? role (String.ofList text)).isSome) :
    (s.token (.operator role) text).IsDefined Operators.standard :=
  found

/-- From the state `now`, reading comes to where `rest` is left, with tokens since `start` that
satisfy `holds`; otherwise it fails, and `excused` is why. -/
def ReadsFrom (features : Features) (start : State) (holds : List Token → Prop) (excused : Prop)
    (now : State) (input rest : List Char) : Prop :=
  (∃ u added, run Operators.standard features now input = run Operators.standard features u rest ∧
      Past start u added ∧ holds added) ∨
    excused ∧ ∃ e, run Operators.standard features now input = .error e

theorem ReadsFrom.andThen {start : State} {holds next : List Token → Prop} {excused other : Prop}
    {input more : List Char} (h : ReadsFrom features s holds excused s input more)
    (excuses : excused → other)
    (continues : ∀ u added, Past s u added → holds added →
      ReadsFrom features start next other u more rest) :
    ReadsFrom features start next other s input rest := by
  rcases h with ⟨u, added, read, past, holds⟩ | ⟨excused, failed⟩
  · unfold ReadsFrom
    rw [read]
    exact continues u added past holds
  · exact .inr ⟨excuses excused, failed⟩

/-- The text of a tree is read as its tokens at other places. -/
abbrev RendersAs (functions : FunctionArity) (features : Features) (tree : Tree) (s : State)
    (rest : List Char) : Prop :=
  ReadsFrom features s
    (fun added => ∃ copy : Tree, copy.Alike tree ∧ Written functions (.tree copy) added)
    (¬FieldOperands (fun operand => ¬operand.IsDigitLed) tree) s (tree.render.toList ++ rest) rest

/-- Wherever an operand may begin, the text of a tree is read as its tokens. -/
def Renders (functions : FunctionArity) (features : Features) (tree : Tree) : Prop :=
  ∀ s rest, AwaitsOperand s.previous → Delimits rest → RendersAs functions features tree s rest

theorem renders_leaf (isLeaf : token.IsLeaf)
    (spelled : Spelled features token.kind token.span.text.toList) :
    Renders functions features (leaf token) := by
  intro s rest awaits delimits
  have read : run Operators.standard features s (token.span.text.toList ++ rest) =
      run Operators.standard features (s.put token.kind token.span.text.toList) rest := by
    rcases isLeaf with kind | kind | kind <;> rw [kind] at spelled ⊢
    · exact run_number spelled awaits delimits.endsNumeral
    · exact run_text spelled awaits
    · exact run_name spelled awaits delimits
  have past : Past s (s.put token.kind token.span.text.toList)
      [s.token token.kind token.span.text.toList] := by
    rcases isLeaf with kind | kind | kind <;> rw [kind] <;> exact .operand rfl rfl
  rw [RendersAs, render_leaf isLeaf]
  exact .inl ⟨_, _, read, past, leaf _, .leaf (token_alike s rfl), .leaf isLeaf⟩

theorem renders_prefixed {operand : Tree} (kind : token.kind = .operator .prefixOp)
    (spelled : Spelled features token.kind token.span.text.toList)
    (ih : Renders functions features operand) : Renders functions features (node token [operand]) := by
  intro s rest awaits _
  have found := found_of_spelled (kind ▸ spelled)
  rw [RendersAs, toList_render_prefixed kind]
  simp only [List.cons_append, List.append_assoc, List.nil_append]
  unfold ReadsFrom
  rw [run_openParen (.inl awaits), run_prefix rfl found (by decide),
    run_openParen (.inl (awaits_prefixed _ _))]
  apply (ih _ _ (awaits_opening _ _ _) (delimits_closing (by simp) _)).andThen
  · exact fun excused all => excused (all.child (by simp))
  · rintro u added past ⟨copy, alike, written⟩
    let s₁ := s.put (.opening .paren) ['(']
    have signed : Past s₁ _ _ := (past.enclosed [')']).cons rfl
    refine .inl ⟨_, _, ?_, signed.enclosed [')'], node (s₁.token _ _) [copy],
      alike_node.mpr ⟨token_alike s₁ kind, .cons alike .nil⟩, ?_⟩
    · rw [run_closeParen past.brackets (.inl past.ended),
        run_closeParen signed.brackets (.inl signed.ended)]
    · simpa using Written.prefixed rfl (isDefined_token s₁ found) rfl rfl rfl rfl written

theorem renders_infixed {left right : Tree} (kind : token.kind = .operator .infixOp)
    (spelled : Spelled features token.kind token.span.text.toList)
    (left_ih : Renders functions features left) (right_ih : Renders functions features right) :
    Renders functions features (node token [left, right]) := by
  intro s rest awaits _
  rw [kind] at spelled
  have found := found_of_spelled spelled
  rw [RendersAs, toList_render_infixed kind]
  simp only [List.cons_append, List.append_assoc, List.nil_append]
  unfold ReadsFrom
  rw [run_openParen (.inl awaits)]
  apply (left_ih _ _ (awaits_opening _ _ _) (delimits_operator spelled _)).andThen
  · exact fun excused all => excused (all.child (by simp))
  · rintro u first past ⟨leftCopy, leftAlike, leftWritten⟩
    have ended : EndedOperand u.skip.previous := past.ended
    unfold ReadsFrom
    rw [run_blank, run_infix ended found (by decide), run_blank]
    have begins : AwaitsOperand (u.skip.put (.operator .infixOp) token.span.text.toList).skip.previous :=
      awaits_infixed u.skip _
    apply (right_ih _ _ begins (delimits_closing (by simp) _)).andThen
    · exact fun excused all => excused (all.child (by simp))
    · rintro v second after ⟨copy, alike, written⟩
      have inside := past.trans (after.skip.cons rfl).skip
      refine .inl ⟨_, _, run_closeParen inside.brackets (.inl inside.ended),
        inside.enclosed [')'], node (u.skip.token _ _) [leftCopy, copy],
        alike_node.mpr ⟨token_alike u.skip kind, .cons leftAlike (.cons alike .nil)⟩, ?_⟩
      simpa using Written.infixed rfl (isDefined_token u.skip found) rfl rfl leftWritten written

/-- Of literals, names and functions, only numbers begin with digits. -/
theorem head_of_spelled {kind : Kind} {text : List Char} (spelled : Spelled features kind text)
    (begins : kind = .number ∨ kind = .text ∨ kind = .name ∨ kind = .function) :
    ∃ c tail, text = c :: tail ∧ (isDigit c = true → kind = .number) := by
  cases spelled with
  | number => exact ⟨_, _, rfl, fun _ => rfl⟩
  | text => exact ⟨_, _, rfl, by decide⟩
  | name starts | function starts =>
    have noDigit := not_digit_of_startsName starts
    exact ⟨_, _, rfl, by simp [noDigit]⟩
  | _ => simp at begins

theorem not_digit_of_readable {functions : FunctionArity} {tree : Tree}
    (readable : Readable functions features tree) (other : ¬tree.IsDigitLed) :
    ∀ d ∈ (tree.render.toList ++ rest).head?, isDigit d = false := by
  have paren : isDigit '(' = false := by decide
  cases readable with
  | prefixed kind => simp [toList_render_prefixed kind, paren]
  | infixed kind => simp [toList_render_infixed kind, paren]
  | field kind => simp [toList_render_field kind, paren]
  | access kind =>
    rcases kind with kind | kind
    · simp [toList_render_element kind, paren]
    · simp [toList_render_entry kind, paren]
  | @call token _ kind spelled =>
    obtain ⟨c, tail, split, noDigit⟩ := head_of_spelled spelled (by simp [kind])
    simpa [toList_render_call kind, split, kind] using noDigit
  | @leaf token isLeaf spelled =>
    obtain ⟨c, tail, split, isNumber⟩ := head_of_spelled spelled (by
      rcases isLeaf with kind | kind | kind <;> simp [kind])
    rw [render_leaf isLeaf, split]
    rintro d ⟨⟩
    cases digit : isDigit c with
    | false => rfl
    | true => exact absurd ⟨isNumber digit, by simp [leaf, Tree.text, Tree.token, split, digit]⟩ other

theorem isNumeral_of_spelled {text : List Char} (spelled : Spelled features .number text) :
    IsNumeral text := by
  cases spelled with
  | number _ isNumeral => exact isNumeral

theorem eq_of_spelled_field {text : List Char} (spelled : Spelled features .field text) :
    features.structures = true ∧ text = ['.'] := by
  cases spelled with
  | field structures => exact ⟨structures, rfl⟩

theorem eq_of_spelled_element {text : List Char} (spelled : Spelled features .element text) :
    features.arrays = true ∧ text = ['['] := by
  cases spelled with
  | element arrays => exact ⟨arrays, rfl⟩

theorem eq_of_spelled_entry {text : List Char} (spelled : Spelled features .entry text) :
    features.associates = true ∧ text = ['\x7b'] := by
  cases spelled with
  | entry associates => exact ⟨associates, rfl⟩

theorem IsDigitLed.numeral {functions : FunctionArity} {tree : Tree} (digitLed : tree.IsDigitLed)
    (readable : Readable functions features tree) :
    tree.render = tree.text ∧ IsNumeral tree.text.toList := by
  have isNumber := digitLed.1
  cases readable with
  | @leaf token isLeaf spelled =>
    rw [show token.kind = .number from isNumber] at spelled
    exact ⟨render_leaf isLeaf, isNumeral_of_spelled spelled⟩
  | prefixed kind | infixed kind | field kind | call kind => cases kind.symm.trans isNumber
  | access kind => rcases kind with kind | kind <;> cases kind.symm.trans isNumber

theorem renders_field {functions : FunctionArity} {object operand : Tree} (kind : token.kind = .field)
    (spelled : Spelled features token.kind token.span.text.toList)
    (object_ih : Renders functions features object) (readable : Readable functions features operand)
    (ih : Renders functions features operand) :
    Renders functions features (node token [object, operand]) := by
  intro s rest awaits delimits
  rw [kind] at spelled
  obtain ⟨structures, isPoint⟩ := eq_of_spelled_field spelled
  rw [RendersAs, toList_render_field kind]
  simp only [List.cons_append, List.append_assoc]
  unfold ReadsFrom
  rw [run_openParen (.inl awaits)]
  apply (object_ih _ _ (awaits_opening _ _ _) (delimits_closing (by simp) _)).andThen
  · exact fun excused all => excused (all.child (by simp))
  · rintro u first past ⟨objectCopy, objectAlike, objectWritten⟩
    let u₁ := u.put (.closing .paren) [')']
    have group : Past s u₁ _ := past.enclosed [')']
    have closed : u₁.previous = some (.closing .paren) := rfl
    unfold ReadsFrom
    rw [run_closeParen past.brackets (.inl past.ended)]
    by_cases merges : operand.IsDigitLed
    · obtain ⟨render, isNumeral⟩ := merges.numeral readable
      rw [render]
      rcases run_pointed isNumeral merges.2 closed delimits with
        failed | ⟨v, second, read, after, noField⟩
      · refine .inr ⟨?_, failed⟩
        intro all
        exact all _ (self_mem_nodes _) kind operand (by simp [children]) merges
      · refine .inl ⟨v, _, read, group.trans after, node token [objectCopy, operand],
          alike_node.mpr ⟨⟨rfl, rfl⟩, .cons objectAlike (.cons (.refl operand) .nil)⟩, ?_⟩
        simpa using Written.merged kind rfl rfl merges noField objectWritten
    · have isPointed : (u₁.token .field ['.']).Alike token := by
        rw [← isPoint]
        exact token_alike u₁ kind
      rw [run_field structures closed (not_digit_of_readable readable merges)]
      apply (ih _ _ (awaits_field _ _) delimits).andThen
      · exact fun excused all => excused (all.child (by simp))
      · rintro v second after ⟨copy, alike, written⟩
        have apart : ¬copy.IsDigitLed := fun digitLed => merges (digitLed.alike alike)
        refine .inl ⟨v, _, rfl, group.trans (after.cons rfl), node (u₁.token _ _) [objectCopy, copy],
          alike_node.mpr ⟨isPointed, .cons objectAlike (.cons alike .nil)⟩, ?_⟩
        simpa using Written.field rfl rfl rfl apart objectWritten written

theorem mem_of_closing {d : Char} {shape : Bracket}
    (isClosing : bracket? features d = some (.closing shape)) : d ∈ [')', ']', '\x7d', ','] := by
  unfold bracket? at isClosing
  split at isClosing <;> simp_all

theorem renders_access {object key : Tree} {c d : Char} {shape : Bracket}
    (isOpening : bracket? features c = some (.opening shape))
    (isClosing : bracket? features d = some (.closing shape)) (isAccess : shape ≠ .paren)
    (text : token.span.text.toList = [c])
    (content : ∀ bracket : Token, bracket.kind = .opening shape →
      bracket.content? = some { bracket with kind := token.kind })
    (render : (node token [object, key]).render.toList =
      '(' :: (object.render.toList ++ ')' :: c :: (key.render.toList ++ [d])))
    (object_ih : Renders functions features object) (key_ih : Renders functions features key) :
    Renders functions features (node token [object, key]) := by
  intro s rest awaits _
  have closes : d ∈ [')', ']', '\x7d', ','] := mem_of_closing isClosing
  rw [RendersAs, render]
  simp only [List.cons_append, List.append_assoc, List.nil_append]
  unfold ReadsFrom
  rw [run_openParen (.inl awaits)]
  apply (object_ih _ _ (awaits_opening _ _ _) (delimits_closing (by simp) _)).andThen
  · exact fun excused all => excused (all.child (by simp))
  · rintro u first past ⟨objectCopy, objectAlike, objectWritten⟩
    let u₁ := u.put (.closing .paren) [')']
    have group : Past s u₁ _ := past.enclosed [')']
    unfold ReadsFrom
    rw [run_closeParen past.brackets (.inl past.ended), run_openAccess isOpening isAccess rfl]
    apply (key_ih _ _ (awaits_opening _ _ _) (delimits_closing closes _)).andThen
    · exact fun excused all => excused (all.child (by simp))
    · rintro v second after ⟨copy, alike, written⟩
      have isCopy : ({ u₁.token (.opening shape) [c] with kind := token.kind } : Token).Alike token := by
        simp [State.token, Token.Alike, ← text]
      refine .inl ⟨_, _, run_closeAccess isClosing isAccess after.brackets after.ended,
        group.trans (after.enclosed [d]),
        node { u₁.token _ _ with kind := token.kind } [objectCopy, copy],
        alike_node.mpr ⟨isCopy, .cons objectAlike (.cons alike .nil)⟩, ?_⟩
      simpa using Written.access rfl rfl isAccess rfl rfl (content _ rfl) objectWritten written

/-- The text of the arguments of a call is read as their tokens, with commas between them. -/
theorem readsFrom_arguments {argument : Tree} {arguments : List Tree}
    (ih : ∀ tree ∈ argument :: arguments, Renders functions features tree)
    (awaits : AwaitsOperand s.previous) (delimits : Delimits rest) :
    ReadsFrom features s
      (fun added => ∃ copies, List.Forall₂ Alike copies (argument :: arguments) ∧
        Written functions (.arguments copies) added)
      (∃ tree ∈ argument :: arguments, ¬FieldOperands (fun operand => ¬operand.IsDigitLed) tree) s
      ((", ".intercalate ((argument :: arguments).map render)).toList ++ rest) rest := by
  induction arguments generalizing argument s with
  | nil =>
    apply (ih argument (by simp) s rest awaits delimits).andThen
    · exact fun excused => ⟨argument, by simp, excused⟩
    · rintro u added past ⟨copy, alike, written⟩
      exact .inl ⟨u, added, rfl, past, [copy], .cons alike .nil, .lastArgument written⟩
  | cons next arguments more_ih =>
    have split : ((", ".intercalate ((argument :: next :: arguments).map render)).toList ++ rest) =
        argument.render.toList ++ ',' :: ' ' ::
          ((", ".intercalate ((next :: arguments).map render)).toList ++ rest) := by
      simp [String.intercalate_cons_cons]
    rw [split]
    apply (ih argument (by simp) s _ awaits (delimits_closing (by simp) _)).andThen
    · exact fun excused => ⟨argument, by simp, excused⟩
    · rintro u first past ⟨copy, alike, written⟩
      let u₁ := u.put .comma [',']
      unfold ReadsFrom
      rw [run_comma past.ended, run_blank]
      have begins : AwaitsOperand u₁.skip.previous := awaits_comma u _
      apply (more_ih (fun tree member => ih tree (List.mem_cons_of_mem _ member)) begins).andThen
      · rintro ⟨tree, member, excused⟩
        exact ⟨tree, List.mem_cons_of_mem _ member, excused⟩
      · rintro v second after ⟨copies, allAlike, allWritten⟩
        refine .inl ⟨v, _, rfl, past.trans (after.skip.cons rfl), copy :: copies,
          .cons alike allAlike, ?_⟩
        cases allAlike with
        | cons => exact .nextArgument rfl written allWritten

theorem renders_call {arguments : List Tree} (kind : token.kind = .function)
    (spelled : Spelled features token.kind token.span.text.toList)
    (known : functions.has token.span.text = true)
    (accepted : functions.accepts token.span.text arguments.length = true)
    (ih : ∀ argument ∈ arguments, Renders functions features argument) :
    Renders functions features (node token arguments) := by
  intro s rest awaits delimits
  rw [kind] at spelled
  rw [RendersAs, toList_render_call kind]
  simp only [List.append_assoc, List.cons_append, List.nil_append]
  unfold ReadsFrom
  rw [run_function spelled awaits, run_openParen (.inr rfl)]
  let copy := s.token .function token.span.text.toList
  have text : copy.span.text = token.span.text := by simp [copy, State.token]
  rw [← text] at known accepted
  let s₁ := s.put .function token.span.text.toList
  let s₂ := s₁.put (.opening .paren) ['(']
  cases arguments with
  | nil =>
    let s₃ := s₂.put (.closing .paren) [')']
    let added := [copy, s₁.token (.opening .paren) ['('], s₂.token (.closing .paren) [')']]
    have past : Past s s₃ added := ⟨rfl, rfl, ⟨_, rfl, rfl⟩⟩
    have written : Written functions (.tree (node copy [])) added :=
      .call rfl known accepted rfl rfl .noArgument
    exact .inl ⟨s₃, added, run_closeParen rfl (.inr rfl), past, node copy [],
      alike_node.mpr ⟨token_alike s kind, .nil⟩, written⟩
  | cons argument arguments =>
    apply (readsFrom_arguments ih (awaits_opening s₁ _ _) (delimits_closing (by simp) _)).andThen
    · rintro ⟨tree, member, excused⟩ all
      exact excused (all.child member)
    · rintro u added past ⟨copies, allAlike, allWritten⟩
      rw [← allAlike.length_eq] at accepted
      refine .inl ⟨_, _, run_closeParen past.brackets (.inl past.ended),
        (past.enclosed [')']).cons rfl, node copy copies,
        alike_node.mpr ⟨token_alike s kind, allAlike⟩, ?_⟩
      exact .call rfl known accepted rfl rfl allWritten

/-- Wherever an operand may begin, the text of a tree is read as its tokens, unless a point is lost. -/
theorem renders_of_readable {functions : FunctionArity} {tree : Tree}
    (readable : Readable functions features tree) : Renders functions features tree := by
  induction readable with
  | leaf isLeaf spelled => exact renders_leaf isLeaf spelled
  | prefixed kind spelled _ ih => exact renders_prefixed kind spelled ih
  | infixed kind spelled _ _ left_ih right_ih => exact renders_infixed kind spelled left_ih right_ih
  | field kind spelled _ readable object_ih ih =>
    exact renders_field kind spelled object_ih readable ih
  | @access token object key kind spelled _ _ object_ih key_ih =>
    rcases kind with kind | kind <;> rw [kind] at spelled
    · obtain ⟨arrays, text⟩ := eq_of_spelled_element spelled
      have opens : bracket? features '[' = some (.opening .square) := by simp [bracket?, arrays]
      have closes : bracket? features ']' = some (.closing .square) := by simp [bracket?, arrays]
      apply renders_access opens closes (by simp) text ?_ (toList_render_element kind _ _) object_ih
        key_ih
      intro bracket isBracket
      simp [Token.content?, isBracket, kind]
    · obtain ⟨associates, text⟩ := eq_of_spelled_entry spelled
      have opens : bracket? features '\x7b' = some (.opening .curly) := by simp [bracket?, associates]
      have closes : bracket? features '\x7d' = some (.closing .curly) := by simp [bracket?, associates]
      apply renders_access opens closes (by simp) text ?_ (toList_render_entry kind _ _) object_ih
        key_ih
      intro bracket isBracket
      simp [Token.content?, isBracket, kind]
  | call kind spelled known accepted _ ih => exact renders_call kind spelled known accepted ih

/-- The text of a tree is read as the tokens of a tree of the same structure, unless a point is lost. -/
theorem tokenize_render {functions : FunctionArity} {tree : Tree}
    (readable : Readable functions features tree) :
    (∃ tokens copy, tokenize Operators.standard features tree.render = .ok tokens ∧
      copy.Alike tree ∧ Written functions (.tree copy) tokens) ∨
    ¬FieldOperands (fun operand => ¬operand.IsDigitLed) tree ∧
      ∃ e, tokenize Operators.standard features tree.render = .error e := by
  have start : AwaitsOperand ({} : State).previous := by simp [AwaitsOperand, State.previous]
  have read := renders_of_readable readable {} [] start delimits_nil
  rw [RendersAs, List.append_nil] at read
  unfold tokenize
  rcases read with ⟨u, added, read, past, copy, alike, written⟩ | ⟨excused, e, failed⟩
  · rw [run] at read
    have brackets : u.brackets = [] := past.brackets
    have tokens : u.tokens.reverse = added := by simp [past.tokens]
    rw [read]
    simp only [brackets, tokens]
    exact .inl ⟨added, copy, rfl, alike, written⟩
  · rw [failed]
    exact .inr ⟨excused, e, rfl⟩

end Read

section Count

/-- How many of the tokens are points of fields. -/
def fieldCount (tokens : List Token) : Nat :=
  tokens.countP fun token => token.kind = .field

@[simp] theorem fieldCount_nil : fieldCount [] = 0 := rfl

@[simp] theorem fieldCount_cons (token : Token) (tokens : List Token) :
    fieldCount (token :: tokens) = fieldCount tokens + if token.kind = .field then 1 else 0 := by
  simp [fieldCount, List.countP_cons]

@[simp] theorem fieldCount_append (first second : List Token) :
    fieldCount (first ++ second) = fieldCount first + fieldCount second :=
  List.countP_append

theorem fieldCount_content (tokens : List Token) : fieldCount (content tokens) = fieldCount tokens := by
  induction tokens with
  | nil => rfl
  | cons token tokens ih =>
    rw [content_cons, fieldCount_append, ih, fieldCount_cons, Nat.add_comm]
    congr 1
    unfold Token.content?
    split <;> simp_all

theorem fieldCount_eq_of_alike {first second : List Token}
    (h : List.Forall₂ Token.Alike first second) : fieldCount first = fieldCount second := by
  induction h with
  | nil => rfl
  | cons alike _ ih => rw [fieldCount_cons, fieldCount_cons, ih, alike.1]

def Phrase.trees : Phrase → List Tree
  | .tree root => [root]
  | .arguments roots => roots

/-- The tokens have no more points than the trees, and if they have as many, no number that begins with
a digit stands after one. -/
def Keeps (tokens : List Token) (trees : List Tree) : Prop :=
  fieldCount tokens ≤ fieldCount (trees.flatMap Tree.tokens) ∧
    (fieldCount tokens = fieldCount (trees.flatMap Tree.tokens) →
      ∀ tree ∈ trees, FieldOperands (fun operand => ¬operand.IsDigitLed) tree)

section Keeps

variable {token : Token} {tokens first second : List Token} {trees others : List Tree}

theorem Keeps.recount (h : Keeps first trees) (count : fieldCount tokens = fieldCount first) :
    Keeps tokens trees := by
  unfold Keeps
  rw [count]
  exact h

theorem Keeps.append (h : Keeps first trees) (rest : Keeps second others) :
    Keeps (first ++ second) (trees ++ others) := by
  obtain ⟨most, apart⟩ := h
  obtain ⟨restMost, restApart⟩ := rest
  unfold Keeps
  rw [List.flatMap_append, fieldCount_append, fieldCount_append]
  refine ⟨by omega, ?_⟩
  intro same
  exact List.forall_mem_append.mpr ⟨apart (by omega), restApart (by omega)⟩

theorem Keeps.root (h : Keeps first trees) (notField : token.kind ≠ .field)
    (count : fieldCount tokens = fieldCount first) : Keeps tokens [Tree.node token trees] := by
  have total : fieldCount ([Tree.node token trees].flatMap Tree.tokens) =
      fieldCount (trees.flatMap Tree.tokens) := by
    simp [notField]
  unfold Keeps
  rw [total, count]
  refine ⟨h.1, ?_⟩
  intro same
  simpa [fieldOperands_node, notField] using h.2 same

theorem Keeps.field {object operand : Tree} (h : Keeps first [object, operand])
    (kind : token.kind = .field) (apart : ¬operand.IsDigitLed)
    (count : fieldCount tokens = fieldCount first + 1) :
    Keeps tokens [Tree.node token [object, operand]] := by
  have total : fieldCount ([Tree.node token [object, operand]].flatMap Tree.tokens) =
      fieldCount ([object, operand].flatMap Tree.tokens) + 1 := by
    simp [kind]
  unfold Keeps
  rw [total, count]
  refine ⟨Nat.succ_le_succ h.1, ?_⟩
  intro same
  simpa [fieldOperands_node, apart] using h.2 (Nat.succ.inj same)

theorem Keeps.merged {object operand : Tree} (h : Keeps first [object]) (kind : token.kind = .field)
    (count : fieldCount tokens = fieldCount first) :
    Keeps tokens [Tree.node token [object, operand]] := by
  have total : fieldCount ([Tree.node token [object, operand]].flatMap Tree.tokens) =
      fieldCount ([object].flatMap Tree.tokens) + fieldCount operand.tokens + 1 := by
    simp [kind]
  have most := h.1
  refine ⟨by omega, ?_⟩
  intro same
  omega

end Keeps

/-- No point is added where a tree is written, and if none is lost, no number that begins with a digit
stands after one. -/
theorem Written.keeps {functions : FunctionArity} {phrase : Phrase} {tokens : List Token}
    (h : Written functions phrase tokens) : Keeps tokens phrase.trees := by
  induction h with
  | leaf isLeaf => simp [Keeps, Phrase.trees, Tree.leaf, fieldOperands_node]
  | prefixed kind _ outer inner innerEnd outerEnd _ ih =>
    exact ih.root (by simp [kind]) (by simp [kind, outer, inner, innerEnd, outerEnd])
  | infixed kind _ opening closing _ _ left_ih ih =>
    exact (left_ih.append ih).root (by simp [kind]) (by simp [kind, opening, closing])
  | field kind opening closing apart _ _ object_ih ih =>
    apply (object_ih.append ih).field kind apart
    simp [kind, opening, closing, Nat.add_assoc]
  | @merged _ _ _ _ _ _ rest kind opening closing _ noField _ ih =>
    have none : fieldCount rest = 0 := by simpa [fieldCount] using noField
    exact ih.merged kind (by simp [opening, closing, none])
  | access opening closing _ bracket bracketEnd isAccess _ _ object_ih ih =>
    apply (object_ih.append ih).root
    · rcases Token.kind_of_content? bracket isAccess with kind | kind <;> simp [kind]
    · simp [opening, closing, bracket, bracketEnd]
  | call kind _ _ opening closing _ ih =>
    exact ih.root (by simp [kind]) (by simp [kind, opening, closing])
  | noArgument => simp [Keeps, Phrase.trees]
  | lastArgument _ ih => exact ih
  | nextArgument comma _ _ ih rest_ih => exact (ih.append rest_ih).recount (by simp [comma])

end Count

end Tree

end Formulary

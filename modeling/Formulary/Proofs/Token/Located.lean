import Formulary.Proofs.Token.Faults

set_option autoImplicit false

/-!
# Where tokens and errors stand in a source

Each token is cut out of the source where it says, but for a multiplication sign that is implied, which
has the place of the token after it. An error of the lexer is about a piece of the source as well.
-/

namespace Formulary

namespace Position

theorem offset_advance (p : Position) (cs : List Char) :
    (p.advance cs).offset = p.offset + (String.ofList cs).utf8ByteSize := by
  induction cs generalizing p with
  | nil => rfl
  | cons c cs ih =>
    have size : (p.next c).offset = p.offset + c.utf8Size := by
      rw [next]
      split <;> rfl
    rw [advance_cons, ih, size, String.ofList_cons, String.utf8ByteSize_append,
      String.utf8ByteSize_singleton, Nat.add_assoc]

theorem line_advance (p : Position) (cs : List Char) :
    (p.advance cs).line = p.line + cs.count '\n' := by
  induction cs generalizing p with
  | nil => rfl
  | cons c cs ih =>
    rw [advance_cons, ih, List.count_cons, next]
    by_cases ends : c = '\n'
    · simp only [ends, if_true, beq_self_eq_true]
      omega
    · simp only [ends, if_false, beq_iff_eq]
      rfl

/-- The column counts the characters since the line began. -/
theorem column_advance (cs : List Char) :
    (start.advance cs).column = 1 + (cs.reverse.takeWhile (· ≠ '\n')).length := by
  suffices reversed : ∀ back : List Char,
      (start.advance back.reverse).column = 1 + (back.takeWhile (· ≠ '\n')).length by
    simpa using reversed cs.reverse
  intro back
  induction back with
  | nil => rfl
  | cons c back ih =>
    rw [List.reverse_cons, advance_append, advance_cons, advance_nil, next]
    by_cases ends : c = '\n'
    · simp [ends]
    · simp only [ends, if_false, ih, List.takeWhile_cons]
      simp [ends]
      omega

/-- What is left of a source at a position in it. -/
def Leaves (p : Position) (source : String) (rest : List Char) : Prop :=
  ∃ before, source.toList = before ++ rest ∧ p = start.advance before

theorem start_leaves (source : String) : start.Leaves source source.toList :=
  ⟨[], rfl, rfl⟩

theorem Leaves.advance {p : Position} {source : String} {text rest : List Char}
    (h : p.Leaves source (text ++ rest)) : (p.advance text).Leaves source rest := by
  obtain ⟨before, split, rfl⟩ := h
  exact ⟨before ++ text, by rw [split, List.append_assoc], (advance_append _ _ _).symm⟩

end Position

namespace Span

/-- A piece of the source, between characters, with the line and the column at which it begins: lines
count the line feeds before it, and columns the characters since the last of these. -/
structure CutFrom (span : Span) (source : String) : Prop where
  start_le_stop : span.start.offset ≤ span.stop
  stop_le_size : span.stop ≤ source.utf8ByteSize
  cut : ∃ before after : String, source = before ++ span.text ++ after ∧
    span.start.offset = before.utf8ByteSize ∧
    span.start.line = 1 + before.toList.count '\n' ∧
    span.start.column = 1 + (before.toList.reverse.takeWhile (· ≠ '\n')).length

theorem cutFrom_of_leaves {p : Position} {source : String} {text after : List Char}
    (h : p.Leaves source (text ++ after)) : (Span.mk p (String.ofList text)).CutFrom source := by
  obtain ⟨before, split, rfl⟩ := h
  have whole : source = String.ofList before ++ String.ofList text ++ String.ofList after := by
    rw [← String.ofList_append, ← String.ofList_append, List.append_assoc, ← split,
      String.ofList_toList]
  have offset : (Position.start.advance before).offset = (String.ofList before).utf8ByteSize := by
    rw [Position.offset_advance, Position.start, Nat.zero_add]
  refine ⟨Nat.le_add_right _ _, ?_, _, _, whole, offset, ?_, ?_⟩
  · rw [stop, offset, whole, String.utf8ByteSize_append, String.utf8ByteSize_append]
    exact Nat.le_add_right _ _
  · rw [Position.line_advance, Position.start, String.toList_ofList]
  · rw [Position.column_advance, String.toList_ofList]

theorem whole_cutFrom (source : String) : (whole source).CutFrom source := by
  have all : Position.start.Leaves source (source.toList ++ []) := by
    rw [List.append_nil]
    exact Position.start_leaves source
  have cut := cutFrom_of_leaves all
  rwa [String.ofList_toList] at cut

end Span

/-- A multiplication sign is implied before a name, a call or a group, and has its place. -/
structure Token.ImpliedBefore (token next : Token) (tokens : List Token) (source : String) : Prop where
  sign : token = next.impliedProduct
  beside : [token, next] <:+: tokens
  operand : next.kind = .name ∨ next.kind = .function ∨ next.kind = .opening .paren
  placed : next.span.CutFrom source

theorem Token.ImpliedBefore.mono {token next : Token} {tokens others : List Token} {source : String}
    (h : token.ImpliedBefore next tokens source) (within : tokens <:+: others) :
    token.ImpliedBefore next others source :=
  ⟨h.sign, h.beside.trans within, h.operand, h.placed⟩

namespace Lexer

variable {operators : Operators} {features : Features} {source : String}

/-- Tokens of a state, latest first, of which each is cut from the source or implied before the next. -/
def TokensLocated (source : String) (tokens : List Token) : Prop :=
  ∀ token ∈ tokens, token.span.CutFrom source ∨
    ∃ next, token.ImpliedBefore next tokens.reverse source

/-- What is left of the source, and where all that is kept of it stands. -/
structure Located (source : String) (s : State) (rest : List Char) : Prop where
  leaves : s.position.Leaves source rest
  tokens : TokensLocated source s.tokens
  brackets : ∀ entry ∈ s.brackets, entry.2.span.CutFrom source

theorem located_start (source : String) : Located source {} source.toList :=
  ⟨Position.start_leaves source, by simp [TokensLocated], by simp⟩

theorem Located.blank {s : State} {c : Char} {rest : List Char} (h : Located source s (c :: rest)) :
    Located source { s with position := s.position.next c } rest :=
  have leaves : s.position.Leaves source ([c] ++ rest) := h.leaves
  ⟨leaves.advance, h.tokens, h.brackets⟩

theorem TokensLocated.append {added tokens : List Token} (h : TokensLocated source tokens)
    (new : TokensLocated source added) : TokensLocated source (added ++ tokens) := by
  intro token member
  rw [List.reverse_append]
  rcases List.mem_append.mp member with isNew | isOld
  · exact (new token isNew).imp id fun ⟨next, implied⟩ =>
      ⟨next, implied.mono (List.suffix_append _ _).isInfix⟩
  · exact (h token isOld).imp id fun ⟨next, implied⟩ =>
      ⟨next, implied.mono (List.prefix_append _ _).isInfix⟩

theorem operand_of_impliesProduct {previous : Option Kind} {kind : Kind}
    (h : impliesProduct previous kind = true) :
    kind = .name ∨ kind = .function ∨ kind = .opening .paren := by
  unfold impliesProduct at h
  split at h <;> simp_all

theorem tokensLocated_of_arrange {previous : Option Kind} {token : Token} {added : List Token}
    (cut : token.span.CutFrom source) (h : arrange features previous token = .ok added) :
    TokensLocated source added.reverse := by
  intro other member
  rw [List.reverse_reverse]
  rcases arrange_eq_ok h with rfl | ⟨rfl, implies⟩
  · exact .inl (List.mem_singleton.mp member ▸ cut)
  · rcases List.mem_cons.mp (List.mem_reverse.mp member) with rfl | isToken
    · exact .inr ⟨token, rfl, List.infix_rfl, operand_of_impliesProduct implies, cut⟩
    · exact .inl (List.mem_singleton.mp isToken ▸ cut)

theorem cutFrom_of_track {token : Token} {brackets : List (Bracket × Token)}
    (cut : token.span.CutFrom source) (h : ∀ entry ∈ brackets, entry.2.span.CutFrom source) :
    ∀ entry ∈ track token brackets, entry.2.span.CutFrom source := by
  unfold track
  split
  · exact List.forall_mem_cons.mpr ⟨cut, h⟩
  · exact fun entry member => h entry (List.mem_of_mem_tail member)
  · exact h

theorem Located.cutFrom_token {s : State} {c : Char} {rest : List Char}
    (h : Located source s (c :: rest)) (kind : Kind) (count : Nat) :
    (s.token kind (c :: rest.take count)).span.CutFrom source := by
  have leaves : s.position.Leaves source (c :: rest.take count ++ rest.drop count) := by
    rw [List.cons_append, List.take_append_drop]
    exact h.leaves
  exact Span.cutFrom_of_leaves leaves

theorem Located.add {s : State} {c : Char} {rest : List Char} {kind : Kind} {count : Nat}
    {added : List Token} (h : Located source s (c :: rest))
    (arranged : arrange features s.previous (s.token kind (c :: rest.take count)) = .ok added) :
    Located source (s.add kind (c :: rest.take count) added) (rest.drop count) := by
  have cut := h.cutFrom_token kind count
  refine ⟨?_, h.tokens.append (tokensLocated_of_arrange cut arranged),
    cutFrom_of_track cut h.brackets⟩
  apply Position.Leaves.advance
  rw [List.cons_append, List.take_append_drop]
  exact h.leaves

theorem located_of_reached {s : State} {rest : List Char}
    (h : Reached operators features source s rest) : Located source s rest := by
  induction h with
  | start => exact located_start source
  | blank _ _ ih => exact ih.blank
  | token _ _ _ arranged ih => exact ih.add arranged

theorem located_of_runs {s : State} (h : Runs operators features {} source.toList s) :
    Located source s [] := by
  refine h.preserves (P := Located source) ?_ ?_ (located_start source)
  · intro s c rest _ located
    exact located.blank
  · intro s c rest kind length added _ _ arranged located
    exact located.add arranged

section Errors

/-- The error is about a piece of what is left. -/
def PointsInto (s : State) (rest : List Char) (e : SyntaxError) : Prop :=
  ∃ before text after, rest = before ++ (text ++ after) ∧
    e.span = ⟨s.position.advance before, String.ofList text⟩

variable {s : State} {rest : List Char} {e : SyntaxError}

theorem PointsInto.cutFrom (h : PointsInto s rest e) (leaves : s.position.Leaves source rest) :
    e.span.CutFrom source := by
  obtain ⟨before, text, after, rfl, same⟩ := h
  rw [same]
  exact Span.cutFrom_of_leaves leaves.advance

theorem pointsInto_error {cause : SyntaxError.Cause} {text : List Char} (isPrefix : text <+: rest) :
    PointsInto s rest (s.error cause text) := by
  obtain ⟨after, rfl⟩ := isPrefix
  exact ⟨[], text, after, rfl, rfl⟩

theorem scanText_pointsInto {written cs : List Char} {read : Nat}
    (left : written.drop read = cs) (h : scanText s written read cs = .error e) :
    PointsInto s written e := by
  fun_induction scanText s written read cs with
  | case1 | case2 =>
    cases h
    exact pointsInto_error (List.prefix_rfl)
  | case3 => cases h
  | case4 read c rest _ ih =>
    exact ih (by rw [← List.drop_drop, left]; rfl) h
  | case5 read c rest =>
    cases h
    -- An escape stands behind all that has been read, so this is not about the start of the text.
    refine ⟨written.take read, ['\\', c], rest, ?_, rfl⟩
    exact (left ▸ List.take_append_drop read written).symm
  | case6 read c rest _ _ _ ih =>
    exact ih (by rw [← List.drop_drop, left]; rfl) h

theorem scanDecimal_pointsInto (h : scanDecimal s rest = .error e) : PointsInto s rest e := by
  unfold scanDecimal at h
  dsimp only at h
  split at h
  · cases h
  · split at h
    · cases h
      exact pointsInto_error (List.take_prefix _ _)
    · split at h <;> cases h
      exact pointsInto_error (List.take_prefix _ _)

theorem scanNumber_pointsInto (h : scanNumber s rest = .error e) : PointsInto s rest e := by
  unfold scanNumber at h
  split at h
  next x digits =>
    split at h
    next =>
      dsimp only at h
      split at h <;> cases h
      exact pointsInto_error ⟨digits, rfl⟩
    next => exact scanDecimal_pointsInto h
  next => exact scanDecimal_pointsInto h

theorem checkClosing_cases {bracket : Bracket} {c : Char} (h : checkClosing s bracket c = .error e) :
    (∃ cause, e = s.error cause [c]) ∨ ∃ entry ∈ s.brackets, e.span = entry.2.span := by
  unfold checkClosing at h
  split at h
  next =>
    cases h
    exact .inl ⟨_, rfl⟩
  next innermost token others isOpen =>
    split at h <;> cases h
    exact .inr ⟨(innermost, token), by simp [isOpen], rfl⟩

theorem checkBracket_cases {kind : Kind} {c : Char} (h : checkBracket s c kind = .error e) :
    (∃ cause, e = s.error cause [c]) ∨ ∃ entry ∈ s.brackets, e.span = entry.2.span := by
  unfold checkBracket at h
  split at h
  · cases h
  · split at h <;> cases h
    exact .inl ⟨_, rfl⟩
  · exact checkClosing_cases h
  · split at h
    · exact checkClosing_cases h
    · cases h
      exact .inl ⟨_, rfl⟩
  · cases h

/-- Where no token can be read, the error is about what is there or about the bracket that is open. -/
theorem scan_cases {c : Char} (h : scan operators features s c rest = .error e) :
    PointsInto s (c :: rest) e ∨ ∃ entry ∈ s.brackets, e.span = entry.2.span := by
  have single : [c] <+: c :: rest := ⟨rest, rfl⟩
  rw [scan] at h
  split at h
  next =>
    rcases checkBracket_cases (map_eq_error h) with ⟨cause, rfl⟩ | innermost
    · exact .inl (pointsInto_error single)
    · exact .inr innermost
  next =>
    left
    split at h
    next => exact scanText_pointsInto rfl (map_eq_error h)
    next =>
    split at h
    next => cases h
    next =>
    split at h
    next => exact scanNumber_pointsInto (map_eq_error h)
    next =>
    split at h
    next =>
      split at h <;> cases h
      exact pointsInto_error single
    next =>
    split at h
    next => cases h
    next =>
      dsimp only at h
      split at h <;> cases h
      exact pointsInto_error (List.take_prefix _ _)

end Errors

end Lexer

open Lexer

variable {operators : Operators} {features : Features} {source : String}

theorem tokenize_located {tokens : List Token} (h : tokenize operators features source = .ok tokens) :
    ∀ token ∈ tokens, token.span.CutFrom source ∨
      ∃ next, token.ImpliedBefore next tokens source := by
  obtain ⟨s, runs, -, rfl⟩ := tokenize_eq_ok h
  intro token member
  exact (located_of_runs runs).tokens token (List.mem_reverse.mp member)

theorem tokenize_error_cutFrom {e : SyntaxError}
    (h : tokenize operators features source = .error e) : e.span.CutFrom source := by
  rw [tokenize] at h
  split at h
  next failed =>
    cases h
    obtain ⟨s, c, rest, reached, noToken | ⟨kind, length, notAdded⟩⟩ := run_eq_error .start failed
    · have located := located_of_reached reached
      rcases scan_cases noToken with points | ⟨entry, member, same⟩
      · exact points.cutFrom located.leaves
      · exact same ▸ located.brackets entry member
    · obtain ⟨cause, rfl, -⟩ := arrange_eq_error notAdded
      exact (located_of_reached reached).cutFrom_token kind _
  next s ran =>
    split at h <;> cases h
    next bracket token others isOpen =>
      have located := located_of_runs (runs_of_run ran)
      exact located.brackets (bracket, token) (by simp [isOpen])

end Formulary

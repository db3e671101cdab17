import Formulary.Proofs.Token.Faults

set_option autoImplicit false

/-!
# The longest operator

Where no other token begins, characters are read as long as some operator begins with them, and the
last operator among them is taken. The beginnings of an operator can all grow into it, so that none is
missed by stopping early: what is found is the longest operator there is.
-/

namespace Formulary

namespace Lexer

open Text

/-- No other token begins here, so an operator is looked for. -/
structure SeeksOperator (features : Features) (c : Char) (rest : List Char) : Prop where
  noBracket : bracket? features c = none
  noQuote : c ≠ '"'
  noComma : c ≠ ','
  noNumber : (isDigit c || (c == '.' && rest.head?.any isDigit)) = false
  noField : (decide (c = '.') && features.structures) = false
  noName : startsName c = false

/-- A text is an operator in a role that is permitted after `previous`. -/
def IsOperator (operators : Operators) (previous : Option Kind) (role : Role) (text : List Char) :
    Prop :=
  permits previous role = true ∧ (operators.find? role (String.ofList text)).isSome = true

/-- The role of an operator: prefix before postfix before infix. -/
inductive ReadsAs (operators : Operators) (previous : Option Kind) (text : List Char) : Role → Prop
  | prefixOp : IsOperator operators previous .prefixOp text →
      ReadsAs operators previous text .prefixOp
  | postfixOp : ¬IsOperator operators previous .prefixOp text →
      IsOperator operators previous .postfixOp text → ReadsAs operators previous text .postfixOp
  | infixOp : ¬IsOperator operators previous .prefixOp text →
      ¬IsOperator operators previous .postfixOp text →
      IsOperator operators previous .infixOp text → ReadsAs operators previous text .infixOp

/-- The longest operator at the start of a text, and its role. -/
structure Longest (operators : Operators) (previous : Option Kind) (cs : List Char) (length : Nat)
    (role : Role) : Prop where
  positive : 0 < length
  within : length ≤ cs.length
  reads : ReadsAs operators previous (cs.take length) role
  maximal : ∀ text, text <+: cs → length < text.length →
    ∀ other, ¬IsOperator operators previous other text

/-- What is known after a number of characters: the longest operator among their beginnings, or that
there is none. -/
def FoundAmong (operators : Operators) (previous : Option Kind) (cs : List Char) (read : Nat) :
    Option (Nat × Role) → Prop
  | some (length, role) => 0 < length ∧ length ≤ read ∧
      ReadsAs operators previous (cs.take length) role ∧
      ∀ longer, length < longer → longer ≤ read →
        ∀ other, ¬IsOperator operators previous other (cs.take longer)
  | none => ∀ longer, 0 < longer → longer ≤ read →
      ∀ other, ¬IsOperator operators previous other (cs.take longer)

variable {operators : Operators} {features : Features} {previous : Option Kind}

section Roles

variable {text : List Char} {role : Role}

theorem ReadsAs.isOperator (h : ReadsAs operators previous text role) :
    IsOperator operators previous role text := by
  cases h <;> assumption

theorem roleOf?_eq_none_iff : roleOf? operators previous (String.ofList text) = none ↔
    ∀ role, ¬IsOperator operators previous role text := by
  rw [roleOf?, List.find?_eq_none]
  constructor
  · rintro missing role ⟨permitted, known⟩
    exact missing role (by cases role <;> simp) (by rw [permitted, known]; rfl)
  · intro missing role _ isRole
    exact missing role (Bool.and_eq_true_iff.mp isRole)

theorem roleOf?_eq_some_iff : roleOf? operators previous (String.ofList text) = some role ↔
    ReadsAs operators previous text role := by
  have isOperator (role : Role) :
      (permits previous role && (operators.find? role (String.ofList text)).isSome) = true ↔
        IsOperator operators previous role text := Bool.and_eq_true_iff
  simp only [roleOf?, List.find?_cons, List.find?_nil]
  constructor
  · intro h
    split at h
    next isPrefix =>
      cases h
      exact .prefixOp ((isOperator _).mp isPrefix)
    next noPrefix =>
    have noPrefix := (not_congr (isOperator _)).mp (Bool.eq_false_iff.mp noPrefix)
    split at h
    next isPostfix =>
      cases h
      exact .postfixOp noPrefix ((isOperator _).mp isPostfix)
    next noPostfix =>
    have noPostfix := (not_congr (isOperator _)).mp (Bool.eq_false_iff.mp noPostfix)
    split at h
    next isInfix =>
      cases h
      exact .infixOp noPrefix noPostfix ((isOperator _).mp isInfix)
    next => cases h
  · intro h
    cases h with
    | prefixOp isPrefix => rw [(isOperator _).mpr isPrefix]
    | postfixOp noPrefix isPostfix =>
      rw [Bool.eq_false_iff.mpr ((not_congr (isOperator _)).mpr noPrefix),
        (isOperator _).mpr isPostfix]
    | infixOp noPrefix noPostfix isInfix =>
      rw [Bool.eq_false_iff.mpr ((not_congr (isOperator _)).mpr noPrefix),
        Bool.eq_false_iff.mpr ((not_congr (isOperator _)).mpr noPostfix), (isOperator _).mpr isInfix]

end Roles

section Scan

variable {cs : List Char} {read length : Nat} {role : Role} {found : Option (Nat × Role)}

theorem foundAmong_start : FoundAmong operators previous cs 0 none := by
  intro longer positive within
  omega

/-- One character more: either what has been read up to it is an operator, or nothing changes. -/
theorem FoundAmong.step (h : FoundAmong operators previous cs read found) :
    FoundAmong operators previous cs (read + 1)
      (match roleOf? operators previous (String.ofList (cs.take (read + 1))) with
        | some role => some (read + 1, role)
        | none => found) := by
  split
  next role isRole =>
    refine ⟨Nat.succ_pos read, Nat.le_refl _, roleOf?_eq_some_iff.mp isRole, ?_⟩
    intro longer more within
    omega
  next noRole =>
    have isNone := roleOf?_eq_none_iff.mp noRole
    have last : ∀ longer, read < longer → longer ≤ read + 1 →
        ∀ other, ¬IsOperator operators previous other (cs.take longer) := by
      intro longer more within
      obtain rfl : longer = read + 1 := by omega
      exact isNone
    match found, h with
    | some (length, role), ⟨positive, within, reads, maximal⟩ =>
      refine ⟨positive, by omega, reads, ?_⟩
      intro longer more within
      by_cases old : longer ≤ read
      · exact maximal longer more old
      · exact last longer (by omega) within
    | none, nothing =>
      intro longer positive within
      by_cases old : longer ≤ read
      · exact nothing longer positive old
      · exact last longer (by omega) within

/-- No operator is longer than what has been read. -/
theorem FoundAmong.all (h : FoundAmong operators previous cs read found) (within : read ≤ cs.length)
    (beyond : ∀ longer, read < longer →
      ∀ other, ¬IsOperator operators previous other (cs.take longer)) :
    FoundAmong operators previous cs cs.length found := by
  match found, h with
  | some (length, role), ⟨positive, bound, reads, maximal⟩ =>
    refine ⟨positive, Nat.le_trans bound within, reads, ?_⟩
    intro longer more _
    by_cases old : longer ≤ read
    · exact maximal longer more old
    · exact beyond longer (by omega)
  | none, nothing =>
    intro longer positive _
    by_cases old : longer ≤ read
    · exact nothing longer positive old
    · exact beyond longer (by omega)

theorem foundAmong_scanOperator (foresees : operators.Foresees) {scan : OperatorScan}
    (all seen cs : List Char) (split : all = seen ++ cs) (count : scan.read = seen.length)
    (h : FoundAmong operators previous all scan.read scan.found) :
    FoundAmong operators previous all all.length
      (scanOperator operators previous (String.ofList seen) scan cs).found := by
  induction cs generalizing seen scan with
  | nil =>
    have finished : all.length = scan.read := by simp [split, count]
    rw [finished]
    exact h
  | cons c rest ih =>
    have pushed : (String.ofList seen).push c = String.ofList (seen ++ [c]) := by
      simp
    have begins : seen ++ [c] <+: all := ⟨rest, by simp [split]⟩
    rw [scanOperator]
    dsimp only
    rw [pushed]
    split
    next =>
      have taken : all.take (scan.read + 1) = seen ++ [c] := by
        rw [List.prefix_iff_eq_take.mp begins, count]
        simp
      apply ih (seen ++ [c]) (by simp [split]) (by simp [count])
      have step := h.step
      rw [taken] at step
      exact step
    next stuck =>
      apply h.all (by simp [split, count])
      rintro longer more other ⟨permitted, known⟩
      have within : seen ++ [c] <+: all.take longer :=
        List.prefix_take_iff.mpr ⟨begins, by simp; omega⟩
      exact stuck (canGrow_of_canStart permitted (foresees other _ _ known within))

theorem Longest.take_ne_nil (h : Longest operators previous cs length role) :
    cs.take length ≠ [] := by
  have positive := h.positive
  have within := h.within
  exact List.ne_nil_of_length_pos (by rw [List.length_take]; omega)

theorem Longest.unique (h : Longest operators previous cs length role) {length' : Nat} {role' : Role}
    (h' : Longest operators previous cs length' role') : length = length' ∧ role = role' := by
  have noLonger : ∀ {l l' r r'}, Longest operators previous cs l r →
      Longest operators previous cs l' r' → ¬l < l' := by
    intro l l' r r' short long less
    refine short.maximal (cs.take l') (List.take_prefix _ _) ?_ r' long.reads.isOperator
    rw [List.length_take]
    have := long.within
    omega
  obtain rfl : length = length' := by
    have := noLonger h h'
    have := noLonger h' h
    omega
  refine ⟨rfl, Option.some.inj ?_⟩
  rw [← roleOf?_eq_some_iff.mpr h.reads, roleOf?_eq_some_iff.mpr h'.reads]

theorem FoundAmong.longest
    (h : FoundAmong operators previous cs cs.length (some (length, role))) :
    Longest operators previous cs length role := by
  obtain ⟨positive, within, reads, maximal⟩ := h
  refine ⟨positive, within, reads, ?_⟩
  intro text isBeginning more
  rw [List.prefix_iff_eq_take.mp isBeginning]
  exact maximal text.length more isBeginning.length_le

theorem FoundAmong.not_isOperator (h : FoundAmong operators previous cs cs.length none) {text : List Char}
    (nonempty : text ≠ []) (isBeginning : text <+: cs) (role : Role) :
    ¬IsOperator operators previous role text := by
  rw [List.prefix_iff_eq_take.mp isBeginning]
  exact h text.length (List.length_pos_iff.mpr nonempty) isBeginning.length_le role

theorem le_read_scanOperator (operators : Operators) (previous : Option Kind) (seen : String)
    (scan : OperatorScan) (cs : List Char) :
    scan.read ≤ (scanOperator operators previous seen scan cs).read := by
  induction cs generalizing seen scan with
  | nil => exact Nat.le_refl _
  | cons c rest ih =>
    rw [scanOperator]
    dsimp only
    split
    next => exact Nat.le_trans (Nat.le_succ _) (ih _ ⟨scan.read + 1, _⟩)
    next => exact Nat.le_max_left _ _

/-- At least one character is read in search of an operator. -/
theorem read_scanOperator_pos (operators : Operators) (previous : Option Kind) (c : Char)
    (rest : List Char) : 0 < (scanOperator operators previous "" {} (c :: rest)).read := by
  rw [scanOperator]
  dsimp only
  split
  next => exact le_read_scanOperator _ _ _ ⟨1, _⟩ rest
  next => exact Nat.le_max_right 0 1

end Scan

theorem SeeksOperator.scan_eq {s : State} {c : Char} {rest : List Char}
    (seeks : SeeksOperator features c rest) :
    scan operators features s c rest =
      match (scanOperator operators s.previous "" {} (c :: rest)).found with
      | some (length, role) => .ok (.operator role, length)
      | none =>
        let text := (c :: rest).take (scanOperator operators s.previous "" {} (c :: rest)).read
        .error (s.error (.undefinedOperator (String.ofList text)) text) := by
  rw [scan, seeks.noBracket]
  refine (if_neg seeks.noQuote).trans ((if_neg seeks.noComma).trans ?_)
  refine (if_neg (by simp [seeks.noNumber])).trans ((if_neg (by simp [seeks.noField])).trans ?_)
  exact if_neg (by simp [seeks.noName])

end Lexer

open Lexer

/-- Where an operator is looked for, the longest one is found that may stand there, and none is found
only where there is none; a text without characters is not looked for. -/
theorem scan_longest (layers : Layers OperatorTable) (features : Features) (s : State) (c : Char)
    (rest : List Char) (seeks : SeeksOperator features c rest) :
    (∀ kind length, scan (.ofLayers layers) features s c rest = .ok (kind, length) ↔
      ∃ role, kind = .operator role ∧
        Longest (.ofLayers layers) s.previous (c :: rest) length role) ∧
    ((∃ text, text ≠ [] ∧ text <+: c :: rest ∧ scan (.ofLayers layers) features s c rest =
        .error (s.error (.undefinedOperator (String.ofList text)) text)) ↔
      ∀ text, text ≠ [] → text <+: c :: rest →
        ∀ role, ¬IsOperator (.ofLayers layers) s.previous role text) := by
  have found : FoundAmong (.ofLayers layers) s.previous (c :: rest) (c :: rest).length
      (scanOperator (.ofLayers layers) s.previous "" {} (c :: rest)).found := by
    rw [← String.ofList_nil]
    exact foundAmong_scanOperator (Operators.ofLayers_foresees layers) (c :: rest) [] (c :: rest)
      rfl rfl foundAmong_start
  rw [seeks.scan_eq]
  cases isFound : (scanOperator (.ofLayers layers) s.previous "" {} (c :: rest)).found with
  | some result =>
    obtain ⟨length, role⟩ := result
    have longest := (isFound ▸ found).longest
    dsimp only
    constructor
    · intro kind length'
      constructor
      · intro same
        cases same
        exact ⟨role, rfl, longest⟩
      · rintro ⟨role', rfl, longest'⟩
        obtain ⟨rfl, rfl⟩ := longest.unique longest'
        rfl
    · constructor
      · rintro ⟨_, -, -, failed⟩
        cases failed
      · intro nothing
        have missing := nothing _ longest.take_ne_nil (List.take_prefix _ _) role
        exact absurd longest.reads.isOperator missing
  | none =>
    rw [isFound] at found
    have nothing : ∀ text, text ≠ [] → text <+: c :: rest →
        ∀ role, ¬IsOperator (.ofLayers layers) s.previous role text :=
      fun _ nonempty isBeginning role => found.not_isOperator nonempty isBeginning role
    dsimp only
    constructor
    · intro kind length
      constructor
      · intro same
        cases same
      · rintro ⟨role, -, longest⟩
        have missing := nothing _ longest.take_ne_nil (List.take_prefix _ _) role
        exact absurd longest.reads.isOperator missing
    · refine ⟨fun _ => nothing, fun _ => ⟨_, ?_, List.take_prefix _ _, rfl⟩⟩
      have positive := read_scanOperator_pos (.ofLayers layers) s.previous c rest
      exact List.ne_nil_of_length_pos (by simp only [List.length_take, List.length_cons]; omega)

/-- An operator that is not there to its end is given up for the last one before it, which is read as a
postfix operator although it is an infix operator too. -/
theorem scan_longest_given_up :
    let table := (OperatorTable.empty.insert .infixOp "<<<" ⟨15, true, "shift"⟩).insert
      .postfixOp "<" ⟨50, true, "mark"⟩
    let layers : Layers OperatorTable := .upon (.single table) (.single .standard)
    let s : State := { tokens := [⟨.name, .start, "x"⟩] }
    SeeksOperator {} '<' ['<', '-', '1'] ∧
      scan (.ofLayers layers) {} s '<' ['<', '-', '1'] = .ok (.operator .postfixOp, 1) ∧
      Longest (.ofLayers layers) s.previous ['<', '<', '-', '1'] 1 .postfixOp := by
  intro table layers s
  have seeks : SeeksOperator {} '<' ['<', '-', '1'] :=
    ⟨by decide, by decide, by decide, by decide, by decide, by decide +kernel⟩
  have found : (scanOperator (.ofLayers layers) s.previous "" {} ['<', '<', '-', '1']).found =
      some (1, .postfixOp) := by
    decide +kernel
  have scanned : scan (.ofLayers layers) {} s '<' ['<', '-', '1'] = .ok (.operator .postfixOp, 1) := by
    rw [seeks.scan_eq, found]
  obtain ⟨role, same, longest⟩ := ((scan_longest layers {} s '<' _ seeks).1 _ _).mp scanned
  cases same
  exact ⟨seeks, scanned, longest⟩

/-- An operator without characters stands before every text, but is not found there. -/
theorem scan_overlooks_empty :
    let operators := Operators.ofLayers (.single (OperatorTable.empty.insert .infixOp "" ⟨1, true, "f"⟩))
    SeeksOperator {} '#' [] ∧ [] <+: ['#'] ∧ IsOperator operators none .infixOp [] ∧
      scan operators {} {} '#' [] = .error (State.error {} (.undefinedOperator "#") ['#']) := by
  intro operators
  have seeks : SeeksOperator {} '#' [] :=
    ⟨by decide, by decide, by decide, by decide, by decide, by decide +kernel⟩
  have found : (scanOperator operators none "" {} ['#']).found = none := by decide +kernel
  have read : (scanOperator operators none "" {} ['#']).read = 1 := by decide +kernel
  refine ⟨seeks, List.nil_prefix, ⟨rfl, by decide +kernel⟩, ?_⟩
  rw [seeks.scan_eq, show State.previous {} = none from rfl, found, read]
  rfl

end Formulary

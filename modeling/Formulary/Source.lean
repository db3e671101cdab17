set_option autoImplicit false

/-!
# Places in a source text

Offsets count the bytes of the UTF-8 form, from zero; lines and columns count from one. A line ends
at each line feed, and a column is one character wide whatever the character is.
-/

namespace Formulary

structure Position where
  offset : Nat
  line : Nat
  column : Nat
  deriving DecidableEq, Repr

namespace Position

def start : Position := ⟨0, 1, 1⟩

def next (p : Position) (c : Char) : Position :=
  if c = '\n' then ⟨p.offset + c.utf8Size, p.line + 1, 1⟩
  else ⟨p.offset + c.utf8Size, p.line, p.column + 1⟩

def advance (p : Position) (cs : List Char) : Position :=
  cs.foldl next p

@[simp] theorem advance_nil (p : Position) : p.advance [] = p := rfl

@[simp] theorem advance_cons (p : Position) (c : Char) (cs : List Char) :
    p.advance (c :: cs) = (p.next c).advance cs := rfl

theorem advance_append (p : Position) (xs ys : List Char) :
    p.advance (xs ++ ys) = (p.advance xs).advance ys := by
  simp [advance]

end Position

/-- A stretch of text and the place where it begins. -/
structure Span where
  start : Position
  text : String
  deriving DecidableEq, Repr

namespace Span

def stop (s : Span) : Nat :=
  s.start.offset + s.text.utf8ByteSize

def whole (source : String) : Span :=
  ⟨.start, source⟩

def place (s : Span) : String :=
  s!"{s.start.line}:{s.start.column}"

/-- The text from `p` up to byte `stop`, if a character ends there. -/
def cut? (p : Position) (stop : Nat) : List Char → Option (List Char)
  | [] => if p.offset = stop then some [] else none
  | c :: rest =>
    if p.offset = stop then some []
    else (cut? (p.next c) stop rest).map (c :: ·)

/-- The bytes from `start` up to `stop` of a text that begins at `p`, if both lie between characters. -/
def slice? (p : Position) (start stop : Nat) : List Char → Option Span
  | [] => if p.offset = start ∧ start = stop then some ⟨p, ""⟩ else none
  | c :: rest =>
    if p.offset = start then (cut? p stop (c :: rest)).map fun cs => ⟨p, String.ofList cs⟩
    else slice? (p.next c) start stop rest

def ofRange? (source : String) (start stop : Nat) : Option Span :=
  slice? .start start stop source.toList

end Span

end Formulary

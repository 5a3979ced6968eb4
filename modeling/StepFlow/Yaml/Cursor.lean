/-!
A place in a YAML text: what is left of it, and how far it is from the start. Also the character
classes of the format, which decide where words, lines and scalars end.
-/

namespace StepFlow.Yaml

/-! ### Character classes -/

/-- The characters a YAML text may hold at all. -/
def isPermitted (c : Char) : Bool :=
  let n := c.toNat
  n == 9 || n == 10 || n == 13 || (0x20 ≤ n && n ≤ 0x7E) || n == 0x85 ||
    (0xA0 ≤ n && n ≤ 0xD7FF) || (0xE000 ≤ n && n ≤ 0xFFFD) || 0x10000 ≤ n

/-- Ends a line: carriage return, line feed, next line, line and paragraph separator. -/
def isBreak (c : Char) : Bool :=
  c == '\n' || c == '\r' || c == '\x85' || c == '\u2028' || c == '\u2029'

/-- A space or a tab. -/
def isGap (c : Char) : Bool := c == ' ' || c == '\t'

/-- A gap, a line break, or the end of the text. -/
def isGapOrEnd : Option Char → Bool
  | none => true
  | some c => isGap c || isBreak c

/-- A line break or the end of the text. -/
def isBreakOrEnd : Option Char → Bool
  | none => true
  | some c => isBreak c

/-- The characters of anchors, handles and directive names. -/
def isWord (c : Char) : Bool := c.isAlphanum || c == '_' || c == '-'

/-- The value of a hexadecimal digit. -/
def hexValue? (c : Char) : Option Nat :=
  if c.isDigit then some (c.toNat - 48)
  else if 'a' ≤ c ∧ c ≤ 'f' then some (c.toNat - 87)
  else if 'A' ≤ c ∧ c ≤ 'F' then some (c.toNat - 55)
  else none

/-- The line break that a scalar keeps: a line feed, unless the separator is one of Unicode's. -/
def keptBreak (c : Char) : Char := if c == '\u2028' || c == '\u2029' then c else '\n'

/-! ### Places -/

/-- How far a place is from the start of the text, counted in characters. -/
structure Mark where
  index : Nat := 0
  line : Nat := 0
  column : Nat := 0
  deriving DecidableEq, Repr

namespace Mark

/-- `n` characters further on the same line. -/
def forward (m : Mark) (n : Nat) : Mark := { m with index := m.index + n, column := m.column + n }

/-- The start of the next line, behind a break of `n` characters. -/
def nextLine (m : Mark) (n : Nat) : Mark := ⟨m.index + n, m.line + 1, 0⟩

end Mark

/-- A place in a text and what follows it. -/
structure Cursor where
  rest : List Char
  mark : Mark := {}

namespace Cursor

/-- The character `n` places ahead. -/
def at? (c : Cursor) (n : Nat) : Option Char := c.rest[n]?

/-- The next character is `x`. -/
def looksAt (c : Cursor) (x : Char) : Bool := c.rest.head? == some x

/-- Behind `n` characters of the line. -/
def skip (c : Cursor) (n : Nat) : Cursor := ⟨c.rest.drop n, c.mark.forward n⟩

/-- Behind all characters of the class that come next on the line. -/
def skipWhile (c : Cursor) (p : Char → Bool) : Cursor := c.skip (c.rest.takeWhile p).length

/-- Behind the line break that comes next, if one does; a carriage return and a line feed are one
break. -/
def skipBreak (c : Cursor) : Cursor :=
  match c.rest with
  | '\r' :: '\n' :: r => ⟨r, c.mark.nextLine 2⟩
  | x :: r => if isBreak x then ⟨r, c.mark.nextLine 1⟩ else c
  | [] => c

/-- Behind a comment, if one comes next. -/
def skipComment (c : Cursor) : Cursor :=
  if c.looksAt '#' then c.skipWhile (fun x => !isBreak x) else c

/-- Three times `x` and then a gap or the end, at the start of a line. -/
def atMarker (c : Cursor) (x : Char) : Bool :=
  c.mark.column == 0 && c.at? 0 == some x && c.at? 1 == some x && c.at? 2 == some x &&
    isGapOrEnd (c.at? 3)

/-- A line that separates documents. -/
def atDocumentMarker (c : Cursor) : Bool := c.atMarker '-' || c.atMarker '.'

end Cursor

end StepFlow.Yaml

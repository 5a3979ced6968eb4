/-!
JSON values with ordered members, and their two written forms: the compact one without any
space, and the indented one with two spaces per level, in which an empty array is `[]` and an
empty object is written as a pair of braces.
-/

namespace StepFlow

/-- A JSON value; the members of an object keep their order. Numbers are integers. -/
inductive Json where
  | null
  | bool (b : Bool)
  | num (n : Int)
  | str (s : String)
  | arr (items : List Json)
  | obj (members : List (String × Json))

namespace Json

/-- A natural number. -/
def nat (n : Nat) : Json := .num n

/-- A list of strings. -/
def strs (texts : List String) : Json := .arr (texts.map .str)

/-- A string, or `null`. -/
def str? (s : Option String) : Json := (s.map .str).getD .null

/-! ### Strings -/

private def hexDigit (n : Nat) : Char :=
  if n < 10 then Char.ofNat (48 + n) else Char.ofNat (87 + n)

/-- How a character stands inside a string: quote, backslash and the characters below U+0020 are
escaped, all others stand for themselves. -/
def escapeChar (c : Char) : List Char :=
  if c = '\x22' then ['\\', '\x22']
  else if c = '\\' then ['\\', '\\']
  else if c = '\x08' then ['\\', 'b']
  else if c = '\x0c' then ['\\', 'f']
  else if c = '\n' then ['\\', 'n']
  else if c = '\r' then ['\\', 'r']
  else if c = '\t' then ['\\', 't']
  else if c.toNat < 0x20 then
    ['\\', 'u', '0', '0', hexDigit (c.toNat / 16), hexDigit (c.toNat % 16)]
  else [c]

/-- A string with its quotes. -/
def quote (s : String) : String :=
  String.ofList ('\x22' :: s.toList.flatMap escapeChar ++ ['\x22'])

/-! ### Written forms -/

mutual

/-- The text without any space. -/
def compact : Json → String
  | .null => "null"
  | .bool b => if b then "true" else "false"
  | .num n => toString n
  | .str s => quote s
  | .arr items => "[" ++ compactItems items ++ "]"
  | .obj members => "\x7b" ++ compactMembers members ++ "\x7d"

private def compactItems : List Json → String
  | [] => ""
  | [v] => compact v
  | v :: w :: r => compact v ++ "," ++ compactItems (w :: r)

private def compactMembers : List (String × Json) → String
  | [] => ""
  | [(k, v)] => quote k ++ ":" ++ compact v
  | (k, v) :: m :: r => quote k ++ ":" ++ compact v ++ "," ++ compactMembers (m :: r)

end

private def newline (level : Nat) : String := String.ofList ('\n' :: List.replicate (2 * level) ' ')

mutual

private def indented (level : Nat) : Json → String
  | .null => "null"
  | .bool b => if b then "true" else "false"
  | .num n => toString n
  | .str s => quote s
  | .arr [] => "[]"
  | .arr (v :: r) =>
    "[" ++ newline (level + 1) ++ indented (level + 1) v ++ indentedItems (level + 1) r ++
      newline level ++ "]"
  | .obj [] => "\x7b\x7d"
  | .obj ((k, v) :: r) =>
    "\x7b" ++ newline (level + 1) ++ quote k ++ ": " ++ indented (level + 1) v ++
      indentedMembers (level + 1) r ++ newline level ++ "\x7d"

private def indentedItems (level : Nat) : List Json → String
  | [] => ""
  | v :: r => "," ++ newline level ++ indented level v ++ indentedItems level r

private def indentedMembers (level : Nat) : List (String × Json) → String
  | [] => ""
  | (k, v) :: r =>
    "," ++ newline level ++ quote k ++ ": " ++ indented level v ++ indentedMembers level r

end

/-- The text with one item or member per line and two spaces per level. -/
def pretty (v : Json) : String := indented 0 v

end Json

end StepFlow

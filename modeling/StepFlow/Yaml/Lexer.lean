import StepFlow.Yaml.Token

/-!
The tokens of a whole text. Indentation opens and closes block collections, and a scalar turns out
to be a key only when the colon behind it is met, so tokens wait in a queue: one is handed out as
soon as nothing can be put in front of it any more. When the text is malformed at some place, the
tokens that were handed out before it was met still count.
-/

namespace StepFlow.Yaml

/-- A place where a key may have begun. -/
structure KeyStart where
  /-- The number of the token that would be the key. -/
  number : Nat
  /-- A line that starts a block entry: without a colon it is malformed. -/
  required : Bool
  mark : Mark

/-- A key is on one line and at most 1024 characters long. -/
def KeyStart.isStale (m : Mark) (k : KeyStart) : Bool :=
  k.mark.line < m.line || k.mark.index + 1024 < m.index

/-- The state of scanning. -/
structure Lexer where
  cursor : Cursor
  /-- The columns of the open block collections, innermost first. -/
  indents : List Nat := []
  /-- The possible key of each bracket level, innermost first; one more than brackets are open. -/
  keys : List (Option KeyStart) := [none]
  /-- A key may begin here. -/
  keyAllowed : Bool := true
  /-- How many tokens were handed out. -/
  taken : Nat := 0
  /-- The tokens that wait. -/
  queue : List Token := []
  /-- The end of the text was met. -/
  ended : Bool := false

namespace Lexer

/-- Inside brackets. -/
def inFlow (l : Lexer) : Bool := l.keys.length > 1

/-- Adds a token behind those that wait. -/
def push (l : Lexer) (t : Token) : Lexer := { l with queue := l.queue ++ [t] }

/-- Moves on by `n` characters of the line. -/
def skip (l : Lexer) (n : Nat) : Lexer := { l with cursor := l.cursor.skip n }

/-- The column `c` is to the right of the innermost block collection. -/
def deeper (l : Lexer) (c : Nat) : Bool :=
  match l.indents with
  | [] => true
  | i :: _ => i < c

/-- Opens a block collection at a column, unless one is open there; its token goes to the place
`at?` of the queue, or to the end. -/
def openBlock (l : Lexer) (column : Nat) (opening : Token) (place : Nat) : Lexer :=
  if l.inFlow || !l.deeper column then l
  else
    { l with
      indents := column :: l.indents,
      queue := l.queue.take place ++ opening :: l.queue.drop place }

/-- How many open block collections are to the right of a column. -/
private def deeperThan (column : Nat) : List Nat → Nat
  | [] => 0
  | i :: r => if column < i then 1 + deeperThan column r else 0

/-- Closes the block collections to the right of a column. -/
def closeTo (l : Lexer) (column : Nat) : Lexer :=
  if l.inFlow then l
  else
    let n := deeperThan column l.indents
    { l with indents := l.indents.drop n, queue := l.queue ++ List.replicate n .blockEnd }

/-- Closes all block collections. -/
def closeAll (l : Lexer) : Lexer :=
  if l.inFlow then l
  else
    { l with indents := [], queue := l.queue ++ List.replicate l.indents.length .blockEnd }

/-! ### Possible keys -/

/-- Gives up the possible key of the innermost level; a required one may not be given up. -/
def dropKey (l : Lexer) : Option Lexer :=
  match l.keys with
  | some k :: r => if k.required then none else some { l with keys := none :: r }
  | _ => some l

/-- Notes that a key may begin here, if one may. -/
def noteKey (l : Lexer) : Option Lexer :=
  if l.keyAllowed then
    l.dropKey.map fun l =>
      let required := !l.inFlow && l.indents.head? == some l.cursor.mark.column
      { l with keys := some ⟨l.taken + l.queue.length, required, l.cursor.mark⟩ :: l.keys.tail }
  else some l

/-- Gives up the possible keys that are too far back. -/
def dropStale (l : Lexer) : Option Lexer :=
  let stale := fun (k : Option KeyStart) => k.any (·.isStale l.cursor.mark)
  if l.keys.any fun k => stale k && k.any (·.required) then none
  else some { l with keys := l.keys.map fun k => if stale k then none else k }

/-! ### One token -/

/-- Moves over gaps, comments and line breaks. A tab is no gap where a key may begin outside
brackets. -/
def toToken (l : Lexer) : Lexer :=
  go l.cursor.rest.length l
where
  go : Nat → Lexer → Lexer
  | 0, l => l
  | n + 1, l =>
    let c := if l.cursor.mark.index == 0 && l.cursor.looksAt '\ufeff' then l.cursor.skip 1
      else l.cursor
    let c := c.skipWhile fun x => x == ' ' || ((l.inFlow || !l.keyAllowed) && x == '\t')
    let c := c.skipComment
    if isBreakOrEnd (c.at? 0) && !c.rest.isEmpty then
      go n { l with cursor := c.skipBreak, keyAllowed := l.keyAllowed || !l.inFlow }
    else { l with cursor := c }

/-- A token that ends the collections around it: a directive or a line between documents. -/
private def atTop (l : Lexer) : Option Lexer :=
  l.closeAll.dropKey.map fun l => { l with keyAllowed := false }

private def openFlow (l : Lexer) (t : Token) : Option Lexer :=
  l.noteKey.map fun l => ({ l with keys := none :: l.keys, keyAllowed := true }.skip 1).push t

private def closeFlow (l : Lexer) (t : Token) : Option Lexer :=
  l.dropKey.map fun l =>
    let keys := if l.inFlow then l.keys.tail else l.keys
    ({ l with keys, keyAllowed := false }.skip 1).push t

private def flowEntry (l : Lexer) : Option Lexer :=
  l.dropKey.map fun l => ({ l with keyAllowed := true }.skip 1).push .flowEntry

private def blockEntry (l : Lexer) : Option Lexer :=
  if !l.inFlow && !l.keyAllowed then none
  else
    let l := l.openBlock l.cursor.mark.column .blockSequenceStart l.queue.length
    l.dropKey.map fun l => ({ l with keyAllowed := true }.skip 1).push .blockEntry

private def explicitKey (l : Lexer) : Option Lexer :=
  if !l.inFlow && !l.keyAllowed then none
  else
    let l := l.openBlock l.cursor.mark.column .blockMappingStart l.queue.length
    l.dropKey.map fun l => ({ l with keyAllowed := !l.inFlow }.skip 1).push .key

private def mappingValue (l : Lexer) : Option Lexer :=
  match l.keys with
  | some k :: r =>
    let place := k.number - l.taken
    let l := { l with
      queue := l.queue.take place ++ Token.key :: l.queue.drop place,
      keys := none :: r, keyAllowed := false }
    some (((l.openBlock k.mark.column .blockMappingStart place).skip 1).push .value)
  | _ =>
    if !l.inFlow && !l.keyAllowed then none
    else
      let l := l.openBlock l.cursor.mark.column .blockMappingStart l.queue.length
      some (({ l with keyAllowed := !l.inFlow }.skip 1).push .value)

/-- Adds what a scan found, behind a place where a key may begin. -/
private def scanned (l : Lexer) (scan : Cursor → Option (Token × Cursor)) : Option Lexer := do
  let l ← l.noteKey
  let (t, c) ← scan l.cursor
  return { l with cursor := c, keyAllowed := false }.push t

private def blockScalar (l : Lexer) (style : Style) : Option Lexer := do
  let l ← l.dropKey
  let least := match l.indents with
    | [] => 0
    | i :: _ => i + 1
  let (t, c) ← Token.block? style least l.cursor
  return { l with cursor := c, keyAllowed := true }.push t

private def plainScalar (l : Lexer) : Option Lexer := do
  let l ← l.noteKey
  let indent := match l.indents with
    | [] => 0
    | i :: _ => i + 1
  let (t, atLineStart, c) ← Token.plain? l.inFlow indent l.cursor
  return { l with cursor := c, keyAllowed := atLineStart }.push t

/-- Behind the last line, also when that has no break. -/
private def pastEnd (c : Cursor) : Cursor :=
  if c.mark.column == 0 then c else { c with mark := c.mark.nextLine 0 }

private def streamEnd (l : Lexer) : Option Lexer :=
  (atTop { l with cursor := pastEnd l.cursor }).map fun l =>
    { l with ended := true }.push .streamEnd

/-- The characters that start no plain scalar, whatever follows them. -/
private def isIndicator (c : Char) : Bool :=
  Token.isFlowIndicator c || c == '#' || c == '&' || c == '*' || c == '!' || c == '|' ||
    c == '>' || c == '\'' || c == '\x22' || c == '%' || c == '@' || c == '\x60'

/-- Scans the next token, with the tokens that its place in the text implies. -/
def next (l : Lexer) : Option Lexer := do
  let l ← l.toToken.dropStale
  let l := l.closeTo l.cursor.mark.column
  let c := l.cursor
  match c.at? 0 with
  | none => l.streamEnd
  | some x =>
    let spaced := isGapOrEnd (c.at? 1)
    if c.mark.column == 0 && x == '%' then
      let l ← l.atTop
      let (t, c) ← Token.directive? l.cursor
      return { l with cursor := c }.push t
    else if c.atMarker '-' then l.atTop.map fun l => (l.skip 3).push .documentStart
    else if c.atMarker '.' then l.atTop.map fun l => (l.skip 3).push .documentEnd
    else if x == '[' then l.openFlow .flowSequenceStart
    else if x == '\x7b' then l.openFlow .flowMappingStart
    else if x == ']' then l.closeFlow .flowSequenceEnd
    else if x == '\x7d' then l.closeFlow .flowMappingEnd
    else if x == ',' then l.flowEntry
    else if x == '-' && spaced then l.blockEntry
    else if x == '?' && (l.inFlow || spaced) then l.explicitKey
    else if x == ':' && (l.inFlow || spaced) then l.mappingValue
    else if x == '*' then
      l.scanned fun c => (Token.anchorName? c).map fun (s, c) => (.alias s, c)
    else if x == '&' then
      l.scanned fun c => (Token.anchorName? c).map fun (s, c) => (.anchor s, c)
    else if x == '!' then l.scanned (Token.tag? l.inFlow)
    else if x == '|' && !l.inFlow then l.blockScalar .literal
    else if x == '>' && !l.inFlow then l.blockScalar .folded
    else if x == '\'' then l.scanned (Token.quoted? .single)
    else if x == '\x22' then l.scanned (Token.quoted? .double)
    else if isGap x || isIndicator x then none
    else l.plainScalar

/-! ### All tokens -/

/-- Hands out the tokens in front of which nothing can be put any more. -/
def handOut (l : Lexer) : Option (List Token × Lexer) :=
  if l.queue.isEmpty then some ([], l)
  else
    l.dropStale.map fun l =>
      let held := l.keys.filterMap fun k => k.map (·.number - l.taken)
      let n := held.foldl min l.queue.length
      (l.queue.take n, { l with taken := l.taken + n, queue := l.queue.drop n })

/-- The tokens from a state on; the flag says that the text has an end, that is, is well formed. -/
def run (l : Lexer) : List Token × Bool :=
  match l.next with
  | none => ([], false)
  | some l' =>
    match l'.handOut with
    | none => ([], false)
    | some (ts, l'') =>
      if l'.ended then (ts, true)
      else if l''.cursor.rest.length < l.cursor.rest.length then
        let (more, ok) := l''.run
        (ts ++ more, ok)
      else (ts, false)
termination_by l.cursor.rest.length

end Lexer

/-- The tokens of a text, and whether it could be scanned to its end. A text with a character that
is not permitted has none. -/
def Token.ofText (text : String) : List Token × Bool :=
  let cs := text.toList
  if cs.all isPermitted then Lexer.run { cursor := { rest := cs } } else ([], false)

end StepFlow.Yaml

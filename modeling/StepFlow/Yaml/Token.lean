import StepFlow.Yaml.Cursor

/-!
The tokens of a YAML text and the scanning of a single one: block, quoted and plain scalars, tags,
anchors and directives. Each scan starts where its token starts and returns the token with the
place behind it, or nothing if the text is malformed there.
-/

namespace StepFlow.Yaml

/-- How a scalar is written. -/
inductive Style where
  | plain
  | single
  | double
  | literal
  | folded
  deriving DecidableEq, Repr

/-- The smallest pieces of a YAML text. -/
inductive Token where
  | version (major minor : Nat)
  | tagDirective (handle lead : String)
  | documentStart
  | documentEnd
  | streamEnd
  | blockSequenceStart
  | blockMappingStart
  | blockEnd
  | flowSequenceStart
  | flowSequenceEnd
  | flowMappingStart
  | flowMappingEnd
  | blockEntry
  | flowEntry
  | key
  | value
  | alias (name : String)
  | anchor (name : String)
  | tag (handle suffix : String)
  | scalar (text : String) (style : Style)
  deriving DecidableEq, Repr

namespace Token

/-! ### Folding

A line break inside a scalar that is folded becomes a space; if more breaks follow it, it
disappears and they stay. -/

/-- Blanks and breaks met inside a scalar, not yet written to it. -/
structure Pending where
  /-- Gaps met before any break, last first. -/
  gaps : List Char := []
  /-- A break has been met. -/
  broken : Bool := false
  /-- The first break, in the form that is kept. -/
  first : Option Char := none
  /-- The breaks after the first, last first. -/
  more : List Char := []

namespace Pending

/-- Nothing is pending. -/
def isEmpty (p : Pending) : Bool := p.gaps.isEmpty && !p.broken

/-- Meets a gap: after a break it is indentation and is dropped. -/
def gap (p : Pending) (c : Char) : Pending :=
  if p.broken then p else { p with gaps := c :: p.gaps }

/-- Meets a break: the gaps before the first one are dropped. -/
def lineBreak (p : Pending) (c : Char) : Pending :=
  if p.broken then { p with more := keptBreak c :: p.more }
  else { gaps := [], broken := true, first := some (keptBreak c), more := [] }

/-- Meets a break that is escaped: it leaves nothing behind. -/
def escapedBreak : Pending := { broken := true }

/-- Writes what is pending to a text that is kept last character first. -/
def flush (p : Pending) (text : List Char) : List Char :=
  if p.broken then
    if p.first == some '\n' then
      if p.more.isEmpty then ' ' :: text else p.more ++ text
    else p.more ++ p.first.toList ++ text
  else p.gaps ++ text

end Pending

/-! ### Plain scalars -/

/-- What a plain scalar has gathered so far. -/
structure PlainScan where
  text : List Char := []
  pending : Pending := {}
  mark : Mark

/-- The characters that end a plain scalar inside brackets. -/
def isFlowIndicator (c : Char) : Bool :=
  c == ',' || c == '[' || c == ']' || c == '\x7b' || c == '\x7d'

/-- Reads a plain scalar. Inside brackets (`flow`) the brackets and the comma end it too; outside
them a line that is indented by less than `indent` does. -/
def plainFrom (flow : Bool) (indent : Nat) (s : PlainScan) :
    List Char → Option (PlainScan × List Char)
  | [] => some (s, [])
  | '\r' :: '\n' :: r =>
    plainFrom flow indent
      { s with pending := s.pending.lineBreak '\n', mark := s.mark.nextLine 2 } r
  | c :: r =>
    if isBreak c then
      plainFrom flow indent { s with pending := s.pending.lineBreak c, mark := s.mark.nextLine 1 } r
    else if isGap c then
      if s.pending.broken && s.mark.column < indent && c == '\t' then none
      else plainFrom flow indent { s with pending := s.pending.gap c, mark := s.mark.forward 1 } r
    else
      let here : Cursor := ⟨c :: r, s.mark⟩
      if !s.pending.isEmpty &&
          ((!flow && s.mark.column < indent) || here.atDocumentMarker || c == '#') then
        some (s, c :: r)
      else if flow && c == ':' &&
          (match r.head? with
           | some x => isFlowIndicator x || x == '?'
           | none => false) then
        none
      else if (c == ':' && isGapOrEnd r.head?) || (flow && isFlowIndicator c) then
        some (s, c :: r)
      else
        plainFrom flow indent
          { text := c :: s.pending.flush s.text, pending := {}, mark := s.mark.forward 1 } r

/-- A plain scalar; the flag says that the place behind it is at the start of a line. -/
def plain? (flow : Bool) (indent : Nat) (c : Cursor) : Option (Token × Bool × Cursor) :=
  (plainFrom flow indent { mark := c.mark } c.rest).map fun (s, rest) =>
    (.scalar (String.ofList s.text.reverse) .plain, s.pending.broken, ⟨rest, s.mark⟩)

/-! ### Quoted scalars -/

/-- What a quoted scalar has gathered so far. -/
structure QuotedScan where
  text : List Char := []
  pending : Pending := {}
  mark : Mark

/-- A separating line or a missing quote makes a quoted scalar malformed. -/
private def cutsQuoted (s : QuotedScan) (rest : List Char) : Bool :=
  Cursor.atDocumentMarker ⟨rest, s.mark⟩

/-- Adds a character that stands for itself and takes `n` characters of the text. -/
private def QuotedScan.put (s : QuotedScan) (c : Char) (n : Nat) : QuotedScan :=
  { text := c :: s.pending.flush s.text, pending := {}, mark := s.mark.forward n }

/-- Reads what is inside single quotes; a doubled quote stands for one. -/
def singleFrom (s : QuotedScan) : List Char → Option (QuotedScan × List Char)
  | [] => none
  | '\r' :: '\n' :: r =>
    singleFrom { s with pending := s.pending.lineBreak '\n', mark := s.mark.nextLine 2 } r
  | '\'' :: '\'' :: r => singleFrom (s.put '\'' 2) r
  | c :: r =>
    if isBreak c then
      singleFrom { s with pending := s.pending.lineBreak c, mark := s.mark.nextLine 1 } r
    else if isGap c then
      singleFrom { s with pending := s.pending.gap c, mark := s.mark.forward 1 } r
    else if cutsQuoted s (c :: r) then none
    else if c == '\'' then
      some ({ text := s.pending.flush s.text, pending := {}, mark := s.mark.forward 1 }, r)
    else singleFrom (s.put c 1) r

/-- What a backslash and one character stand for. -/
def simpleEscape? : Char → Option Char
  | '0' => some '\x00'
  | 'a' => some '\x07'
  | 'b' => some '\x08'
  | 't' => some '\t'
  | '\t' => some '\t'
  | 'n' => some '\n'
  | 'v' => some '\x0b'
  | 'f' => some '\x0c'
  | 'r' => some '\r'
  | 'e' => some '\x1b'
  | ' ' => some ' '
  | '\x22' => some '\x22'
  | '/' => some '/'
  | '\\' => some '\\'
  | 'N' => some '\x85'
  | '_' => some '\xa0'
  | 'L' => some '\u2028'
  | 'P' => some '\u2029'
  | _ => none

/-- How many hexadecimal digits follow a backslash and this character. -/
def escapeWidth? : Char → Option Nat
  | 'x' => some 2
  | 'u' => some 4
  | 'U' => some 8
  | _ => none

/-- The character with a code point; surrogates are none. -/
def charOfCode? (n : Nat) : Option Char :=
  if h : n.isValidChar then some (Char.ofNatAux n h) else none

/-- A code point inside double quotes: how many characters are to come, and the number so far. -/
structure CodeScan where
  left : Nat
  sum : Nat := 0

/-- Reads what is inside double quotes. `code` is set while the digits of an escaped code point
are read. -/
def doubleFrom (code : Option CodeScan) (s : QuotedScan) :
    List Char → Option (QuotedScan × List Char)
  | [] => none
  | c :: r =>
    match code with
    | some ⟨left, sum⟩ =>
      match hexValue? c with
      | none => none
      | some d =>
        let total := sum * 16 + d
        if left ≤ 1 then
          match charOfCode? total with
          | none => none
          | some x => doubleFrom none (s.put x 1) r
        else doubleFrom (some ⟨left - 1, total⟩) { s with mark := s.mark.forward 1 } r
    | none =>
      match c, r with
      | '\r', '\n' :: r' =>
        doubleFrom none { s with pending := s.pending.lineBreak '\n', mark := s.mark.nextLine 2 } r'
      | '\\', '\r' :: '\n' :: r' =>
        doubleFrom none
          { text := s.pending.flush s.text, pending := .escapedBreak,
            mark := (s.mark.forward 1).nextLine 2 } r'
      | '\\', e :: r' =>
        if isBreak e then
          doubleFrom none
            { text := s.pending.flush s.text, pending := .escapedBreak,
              mark := (s.mark.forward 1).nextLine 1 } r'
        else
          match simpleEscape? e, escapeWidth? e with
          | some x, _ => doubleFrom none (s.put x 2) r'
          | none, some width =>
            doubleFrom (some ⟨width, 0⟩)
              { text := s.pending.flush s.text, pending := {}, mark := s.mark.forward 2 } r'
          | none, none => none
      | c, r =>
        if isBreak c then
          doubleFrom none { s with pending := s.pending.lineBreak c, mark := s.mark.nextLine 1 } r
        else if isGap c then
          doubleFrom none { s with pending := s.pending.gap c, mark := s.mark.forward 1 } r
        else if cutsQuoted s (c :: r) then none
        else if c == '\x22' then
          some ({ text := s.pending.flush s.text, pending := {}, mark := s.mark.forward 1 }, r)
        else doubleFrom none (s.put c 1) r

/-- A scalar in single or double quotes, from its opening quote on. -/
def quoted? (style : Style) (c : Cursor) : Option (Token × Cursor) :=
  let start : QuotedScan := { mark := c.mark.forward 1 }
  let scan := if style = .single then singleFrom start c.rest.tail
    else doubleFrom none start c.rest.tail
  scan.map fun (s, rest) => (.scalar (String.ofList s.text.reverse) style, ⟨rest, s.mark⟩)

/-! ### Block scalars -/

/-- Which of the last line breaks of a block scalar stay. -/
inductive Chomp where
  | strip
  | clip
  | keep
  deriving DecidableEq

/-- What a block scalar has gathered so far. -/
structure BlockScan where
  /-- How far its lines are indented; zero as long as that is not known. -/
  indent : Nat
  /-- The indentation of the collection around it, plus one. -/
  least : Nat
  literal : Bool
  /-- A line of content is being read. -/
  inLine : Bool := false
  /-- The deepest indentation met on blank lines. -/
  deepest : Nat := 0
  text : List Char := []
  /-- The break that ended the last line of content. -/
  lineEnd : Option Char := none
  /-- The breaks of the blank lines since then, last first. -/
  blanks : List Char := []
  /-- The last line of content started with a gap. -/
  gapped : Bool := false
  mark : Mark

namespace BlockScan

/-- Starts a line of content with `c`: joins it to the line before, or keeps the break. -/
def startLine (s : BlockScan) (c : Char) : BlockScan :=
  let joined :=
    if !s.literal && s.lineEnd == some '\n' && !s.gapped && !isGap c then
      if s.blanks.isEmpty then ' ' :: s.text else s.text
    else s.lineEnd.toList ++ s.text
  { s with
    text := c :: (s.blanks ++ joined), lineEnd := none, blanks := [], gapped := isGap c,
    inLine := true, mark := s.mark.forward 1 }

/-- Meets a break. -/
def lineBreak (s : BlockScan) (c : Char) (n : Nat) : BlockScan :=
  if s.inLine then
    { s with inLine := false, lineEnd := some (keptBreak c), mark := s.mark.nextLine n }
  else
    { s with
      blanks := keptBreak c :: s.blanks, deepest := max s.deepest s.mark.column,
      mark := s.mark.nextLine n }

/-- Settles the indentation when the first line that is not blank is met. -/
def settleIndent (s : BlockScan) : BlockScan :=
  if s.indent == 0 then { s with indent := max (max s.deepest s.mark.column) (max s.least 1) }
  else s

/-- The text of the scalar, its last breaks treated as `chomp` says. -/
def finish (s : BlockScan) (chomp : Chomp) : String :=
  let tail := match chomp with
    | .strip => s.text
    | .clip => s.lineEnd.toList ++ s.text
    | .keep => s.blanks ++ s.lineEnd.toList ++ s.text
  String.ofList tail.reverse

end BlockScan

/-- Reads the lines of a block scalar. -/
def blockFrom (s : BlockScan) : List Char → Option (BlockScan × List Char)
  | [] => some (s, [])
  | '\r' :: '\n' :: r => blockFrom (s.lineBreak '\n' 2) r
  | c :: r =>
    if isBreak c then blockFrom (s.lineBreak c 1) r
    else if s.inLine then
      blockFrom { s with text := c :: s.text, mark := s.mark.forward 1 } r
    else
      let indenting := s.indent == 0 || s.mark.column < s.indent
      if c == ' ' && indenting then blockFrom { s with mark := s.mark.forward 1 } r
      else if c == '\t' && indenting then none
      else
        let t := s.settleIndent
        if t.mark.column == t.indent then blockFrom (t.startLine c) r else some (t, c :: r)

/-- The indicators behind `|` or `>`: how to chomp, and the indentation if it is given. -/
def blockHeader? (c : Cursor) : Option (Chomp × Nat × Cursor) :=
  let chomp (c : Cursor) : Chomp × Cursor :=
    if c.looksAt '+' then (.keep, c.skip 1)
    else if c.looksAt '-' then (.strip, c.skip 1)
    else (.clip, c)
  let digit (c : Cursor) : Option (Nat × Cursor) :=
    match c.at? 0 with
    | some d => if d == '0' then none else if d.isDigit then some (d.toNat - 48, c.skip 1)
      else some (0, c)
    | none => some (0, c)
  let (how, c₁) := chomp c
  match digit c₁ with
  | none => none
  | some (n, c₂) =>
    if how = .clip && n ≠ 0 then
      let (how', c₃) := chomp c₂
      some (how', n, c₃)
    else some (how, n, c₂)

/-- A block scalar, from its indicator on; `least` is one more than the indentation around it. -/
def block? (style : Style) (least : Nat) (c : Cursor) : Option (Token × Cursor) := do
  let (chomp, increment, c) ← blockHeader? (c.skip 1)
  let c := (c.skipWhile isGap).skipComment
  if !isBreakOrEnd (c.at? 0) then none
  let c := c.skipBreak
  let indent := if increment == 0 then 0 else (least - 1) + increment
  let (s, rest) ← blockFrom
    { indent, least, literal := style = .literal, mark := c.mark } c.rest
  return (.scalar (s.finish chomp) style, ⟨rest, s.mark⟩)

/-! ### Anchors, tags and directives -/

/-- An anchor or alias, from its indicator on: the name and the place behind it. -/
def anchorName? (c : Cursor) : Option (String × Cursor) :=
  let word := (c.skip 1).rest.takeWhile isWord
  let c' := c.skip (1 + word.length)
  let closes := match c'.at? 0 with
    | some x =>
      isGapOrEnd (some x) || x == '?' || x == ':' || x == ',' || x == ']' || x == '\x7d' ||
        x == '%' || x == '@' || x == '\x60'
    | none => true
  if word.isEmpty || !closes then none else some (String.ofList word, c')

/-- A tag handle: an exclamation mark, and a word with another one behind it. In a directive the
second mark must be there, unless there is no word. -/
def tagHandle? (directive : Bool) (c : Cursor) : Option (List Char × Cursor) :=
  if !c.looksAt '!' then none
  else
    let word := (c.skip 1).rest.takeWhile isWord
    let c' := c.skip (1 + word.length)
    if c'.looksAt '!' then some ('!' :: word ++ ['!'], c'.skip 1)
    else if directive && !word.isEmpty then none
    else some ('!' :: word, c')

/-- The characters of a tag; those of a list only where the tag is written between angle
brackets. -/
def isTagChar (verbatim : Bool) (c : Char) : Bool :=
  isWord c || c == ';' || c == '/' || c == '?' || c == ':' || c == '@' || c == '&' || c == '=' ||
    c == '+' || c == '$' || c == '.' || c == '%' || c == '!' || c == '~' || c == '*' ||
    c == '\'' || c == '(' || c == ')' || (verbatim && (c == ',' || c == '[' || c == ']'))

/-- How many bytes a character takes whose first byte is `b`. -/
private def byteCount? (b : Nat) : Option Nat :=
  if b < 0x80 then some 1
  else if 0xC0 ≤ b && b < 0xE0 then some 2
  else if 0xE0 ≤ b && b < 0xF0 then some 3
  else if 0xF0 ≤ b && b < 0xF8 then some 4
  else none

/-- A character that is being put together from escaped bytes. -/
structure ByteScan where
  left : Nat
  code : Nat

/-- Resolves the escapes of a tag: a percent sign and two digits are a byte, and the bytes of one
character must all be escaped. -/
def unescapeTag (bytes : Option ByteScan) : List Char → Option (List Char)
  | [] => if bytes.isNone then some [] else none
  | '%' :: a :: b :: r =>
    match hexValue? a, hexValue? b with
    | some x, some y =>
      let byte := x * 16 + y
      match bytes with
      | none =>
        match byteCount? byte with
        | none => none
        | some 1 => (charOfCode? byte).bind fun c => (unescapeTag none r).map (c :: ·)
        | some n =>
          let bits := if n == 2 then byte % 32 else if n == 3 then byte % 16 else byte % 8
          unescapeTag (some ⟨n - 1, bits⟩) r
      | some ⟨left, code⟩ =>
        if byte / 64 ≠ 2 then none
        else
          let code := code * 64 + byte % 64
          if left ≤ 1 then (charOfCode? code).bind fun c => (unescapeTag none r).map (c :: ·)
          else unescapeTag (some ⟨left - 1, code⟩) r
    | _, _ => none
  | c :: r => if c == '%' || bytes.isSome then none else (unescapeTag none r).map (c :: ·)

/-- The characters of a tag that come next, with its escapes resolved. -/
def tagText? (verbatim : Bool) (c : Cursor) : Option (List Char × Cursor) :=
  let raw := c.rest.takeWhile (isTagChar verbatim)
  (unescapeTag none raw).map fun text => (text, c.skip raw.length)

/-- A tag, from its exclamation mark on. -/
def tag? (flow : Bool) (c : Cursor) : Option (Token × Cursor) := do
  let (token, c') ← (
    if c.at? 1 == some '<' then do
      let (text, c') ← tagText? true (c.skip 2)
      if text.isEmpty || !c'.looksAt '>' then none
      return (Token.tag "" (String.ofList text), c'.skip 1)
    else do
      let (handle, c') ← tagHandle? false c
      let (text, c'') ← tagText? false c'
      if handle.length > 1 && handle.getLast? == some '!' then
        if text.isEmpty then none
        return (Token.tag (String.ofList handle) (String.ofList text), c'')
      else
        let suffix := handle.tail ++ text
        if suffix.isEmpty then return (Token.tag "" "!", c'')
        else return (Token.tag "!" (String.ofList suffix), c''))
  if isGapOrEnd (c'.at? 0) || (flow && c'.looksAt ',') then some (token, c') else none

/-- A number of at most nine digits. -/
private def versionNumber? (c : Cursor) : Option (Nat × Cursor) :=
  let digits := c.rest.takeWhile Char.isDigit
  if digits.isEmpty || digits.length > 9 then none
  else some (digits.foldl (fun n d => n * 10 + (d.toNat - 48)) 0, c.skip digits.length)

/-- A directive, from its percent sign to the end of its line. -/
def directive? (c : Cursor) : Option (Token × Cursor) := do
  let name := (c.skip 1).rest.takeWhile isWord
  let c := c.skip (1 + name.length)
  if name.isEmpty || !isGapOrEnd (c.at? 0) then none
  let (token, c) ← (
    if name = "YAML".toList then do
      let (major, c) ← versionNumber? (c.skipWhile isGap)
      if !c.looksAt '.' then none
      let (minor, c) ← versionNumber? (c.skip 1)
      return (Token.version major minor, c)
    else if name = "TAG".toList then do
      let (handle, c) ← tagHandle? true (c.skipWhile isGap)
      if !(match c.at? 0 with | some x => isGap x | none => false) then none
      let (lead, c) ← tagText? true (c.skipWhile isGap)
      if lead.isEmpty || !isGapOrEnd (c.at? 0) then none
      return (Token.tagDirective (String.ofList handle) (String.ofList lead), c)
    else none)
  let c := (c.skipWhile isGap).skipComment
  if !isBreakOrEnd (c.at? 0) then none
  return (token, c.skipBreak)

end Token

end StepFlow.Yaml

import StepFlow.Yaml.Token

/-!
The events of a YAML text: where documents and collections begin and end, and the scalars and
aliases between them. They follow from the tokens one after the other; the places where a
collection is left open are kept on a stack. If the tokens stop making sense, the events before
that place still count.
-/

namespace StepFlow.Yaml

/-- What stands in front of a node: an anchor and a tag. -/
structure Marking where
  anchor : Option String := none
  tag : Option String := none
  deriving DecidableEq, Repr

/-- What is met when a text is read from its start to its end. -/
inductive Event where
  | documentStart
  | documentEnd
  | alias (name : String)
  | scalar (marking : Marking) (text : String) (style : Style)
  | sequenceStart (marking : Marking)
  | sequenceEnd
  | mappingStart (marking : Marking)
  | mappingEnd
  deriving DecidableEq, Repr

namespace Event

/-- What is expected next at some place of a text. -/
inductive Place where
  /-- A document; the first one may come without a separating line. -/
  | document (first : Bool)
  | documentContent
  | documentEnd
  | blockNode
  | blockItem
  /-- An item of a sequence that is not indented further than the mapping around it. -/
  | flushItem
  | blockKey
  | blockValue
  | flowItem (first : Bool)
  /-- The key, the value and the end of a pair that stands in a sequence without braces. -/
  | pairKey
  | pairValue
  | pairEnd
  | flowKey (first : Bool)
  | flowValue (absent : Bool)
  | finished
  deriving DecidableEq

/-- Reading a text: the tokens that are left, what is expected, and where each open collection goes
on when what is in it ends. -/
structure Reader where
  tokens : List Token
  place : Place := .document true
  stack : List Place := []
  /-- What the tag handles of the document stand for. -/
  handles : List (String × String) := []

namespace Reader

/-- The reader behind its next token. -/
def drop (r : Reader) : Reader := { r with tokens := r.tokens.tail }

/-- Goes on at the place that was last left open. -/
def pop (r : Reader) : Reader :=
  match r.stack with
  | [] => { r with place := .finished }
  | p :: ps => { r with place := p, stack := ps }

/-- Leaves a place open while a node is read. -/
def leave (r : Reader) (p : Place) : Reader := { r with stack := p :: r.stack }

/-- The reader at a place. -/
def goto (r : Reader) (p : Place) : Reader := { r with place := p }

/-- A node that is not written. -/
def absent : Event := .scalar {} "" .plain

/-- The handles that need no directive. -/
def standardHandles : List (String × String) := [("!", "!"), ("!!", "tag:yaml.org,2002:")]

/-- The tag that a handle and a suffix make. -/
def tagOf? (r : Reader) (handle suffix : String) : Option String :=
  if handle = "" then some suffix else (r.handles.lookup handle).map (· ++ suffix)

/-- Reads the anchor and the tag in front of a node, in either order. The tag comes as handle and
suffix. -/
def marking (tokens : List Token) : Option String × Option (String × String) × List Token :=
  match tokens with
  | .anchor a :: .tag h s :: r => (some a, some (h, s), r)
  | .anchor a :: r => (some a, none, r)
  | .tag h s :: .anchor a :: r => (some a, some (h, s), r)
  | .tag h s :: r => (none, some (h, s), r)
  | r => (none, none, r)

/-- Reads the start of a node. Block collections are allowed only where `block` says so, and a
sequence without indentation of its own where `flush` does. -/
def node (r : Reader) (block flush : Bool) : Option (Event × Reader) :=
  match r.tokens with
  | .alias name :: _ => some (.alias name, r.drop.pop)
  | tokens =>
    let (anchor, tag, rest) := marking tokens
    let tag? : Option (Option String) :=
      match tag with
      | none => some none
      | some (h, s) => (r.tagOf? h s).map some
    match rest, tag? with
    | _, none => none
    | [], _ => none
    | t :: ts, some tag =>
      let m : Marking := ⟨anchor, tag⟩
      let here := { r with tokens := t :: ts }
      match t with
      | .scalar text style =>
        let tag := if tag = some "!" then none else tag
        some (.scalar ⟨anchor, tag⟩ text style, here.drop.pop)
      | .flowSequenceStart => some (.sequenceStart m, here.drop.goto (.flowItem true))
      | .flowMappingStart => some (.mappingStart m, here.drop.goto (.flowKey true))
      | t =>
        if flush && t = .blockEntry then some (.sequenceStart m, here.goto .flushItem)
        else if block && t = .blockSequenceStart then
          some (.sequenceStart m, here.drop.goto .blockItem)
        else if block && t = .blockMappingStart then
          some (.mappingStart m, here.drop.goto .blockKey)
        else if anchor.isSome || tag.isSome then some (.scalar m "" .plain, here.pop)
        else none

/-- Reads the directives in front of a document: at most one version, which must be 1.1 or 1.2, and
handles that are not declared twice. -/
def directives (versioned : Bool) (handles : List (String × String)) :
    List Token → Option (List (String × String) × List Token)
  | .version major minor :: r =>
    if versioned || major ≠ 1 || (minor ≠ 1 && minor ≠ 2) then none
    else directives true handles r
  | .tagDirective h s :: r =>
    if (handles.lookup h).isSome then none else directives versioned (handles ++ [(h, s)]) r
  | r => some (handles ++ standardHandles, r)

/-- A node that is not written, or the one that comes next if the next token is none of `ends`. -/
private def nodeUnless (r : Reader) (ends : List Token) (next : Place) (block flush : Bool) :
    Option (Event × Reader) :=
  match r.tokens with
  | [] => none
  | t :: _ => if t ∈ ends then some (absent, r.goto next) else (r.leave next).node block flush

/-- Starts a document. -/
private def document (r : Reader) (first : Bool) : Option (Event × Reader) :=
  let tokens := if first then r.tokens else r.tokens.dropWhile (· = .documentEnd)
  let explicit (tokens : List Token) : Option (Event × Reader) := do
    let (handles, rest) ← directives false [] tokens
    match rest with
    | .documentStart :: rest =>
      some (.documentStart,
        { r with
          tokens := rest, handles, place := .documentContent, stack := .documentEnd :: r.stack })
    | _ => none
  match tokens with
  | [] => none
  | .version a b :: ts => explicit (.version a b :: ts)
  | .tagDirective h s :: ts => explicit (.tagDirective h s :: ts)
  | .documentStart :: ts => explicit (.documentStart :: ts)
  | t :: ts =>
    if first then
      some (.documentStart,
        { r with
          tokens := t :: ts, handles := standardHandles, place := .blockNode,
          stack := .documentEnd :: r.stack })
    else none

/-- The next event. At the end of the last document there is none. -/
def next (r : Reader) : Option (Event × Reader) :=
  match r.place, r.tokens with
  | .finished, _ => none
  | _, [] => none
  | .document first, _ => r.document first
  | .documentContent, t :: _ =>
    match t with
    | .version _ _ | .tagDirective _ _ | .documentStart | .documentEnd | .streamEnd =>
      some (absent, r.pop)
    | _ => r.node true false
  | .documentEnd, t :: _ =>
    let r := if t = .documentEnd then r.drop else r
    some (.documentEnd, { r with place := .document false, handles := [] })
  | .blockNode, _ => r.node true false
  | .blockItem, t :: _ =>
    match t with
    | .blockEntry => r.drop.nodeUnless [.blockEntry, .blockEnd] .blockItem true false
    | .blockEnd => some (.sequenceEnd, r.drop.pop)
    | _ => none
  | .flushItem, t :: _ =>
    match t with
    | .blockEntry =>
      r.drop.nodeUnless [.blockEntry, .key, .value, .blockEnd] .flushItem true false
    | _ => some (.sequenceEnd, r.pop)
  | .blockKey, t :: _ =>
    match t with
    | .key => r.drop.nodeUnless [.key, .value, .blockEnd] .blockValue true true
    | .blockEnd => some (.mappingEnd, r.drop.pop)
    | _ => none
  | .blockValue, t :: _ =>
    match t with
    | .value => r.drop.nodeUnless [.key, .value, .blockEnd] .blockKey true true
    | _ => some (absent, r.goto .blockKey)
  | .flowItem first, t :: _ =>
    if t = .flowSequenceEnd then some (.sequenceEnd, r.drop.pop)
    else if !first && t ≠ .flowEntry then none
    else
      let r := if first then r else r.drop
      match r.tokens with
      | [] => none
      | .key :: _ => some (.mappingStart {}, r.drop.goto .pairKey)
      | .flowSequenceEnd :: _ => some (.sequenceEnd, r.drop.pop)
      | _ :: _ => (r.leave (.flowItem false)).node false false
  | .pairKey, t :: _ =>
    if t = .value || t = .flowEntry || t = .flowSequenceEnd then
      some (absent, r.drop.goto .pairValue)
    else (r.leave .pairValue).node false false
  | .pairValue, t :: _ =>
    if t = .value then r.drop.nodeUnless [.flowEntry, .flowSequenceEnd] .pairEnd false false
    else some (absent, r.goto .pairEnd)
  | .pairEnd, _ => some (.mappingEnd, r.goto (.flowItem false))
  | .flowKey first, t :: _ =>
    if t = .flowMappingEnd then some (.mappingEnd, r.drop.pop)
    else if !first && t ≠ .flowEntry then none
    else
      let r := if first then r else r.drop
      match r.tokens with
      | [] => none
      | .key :: _ =>
        r.drop.nodeUnless [.value, .flowEntry, .flowMappingEnd] (.flowValue false) false false
      | .flowMappingEnd :: _ => some (.mappingEnd, r.drop.pop)
      | _ :: _ => (r.leave (.flowValue true)).node false false
  | .flowValue isAbsent, t :: _ =>
    if isAbsent || t ≠ .value then some (absent, r.goto (.flowKey false))
    else r.drop.nodeUnless [.flowEntry, .flowMappingEnd] (.flowKey false) false false

/-- The reader is at the end of the text, not at a token that makes no sense. -/
def atEnd (r : Reader) : Bool :=
  match r.place with
  | .document true => r.tokens == [.streamEnd]
  | .document false => r.tokens.dropWhile (· = .documentEnd) == [.streamEnd]
  | _ => false

/-- At most `n` events; the flag says that they reach the end of the text. -/
def events (n : Nat) (r : Reader) : List Event × Bool :=
  match n with
  | 0 => ([], false)
  | n + 1 =>
    if r.atEnd then ([], true)
    else
      match r.next with
      | none => ([], false)
      | some (e, r) =>
        let (es, ok) := events n r
        (e :: es, ok)

end Reader

/-- The events of the tokens of a text, and whether they reach its end. A token stands behind no
more than three events. -/
def ofTokens (tokens : List Token) : List Event × Bool :=
  Reader.events (4 * tokens.length + 4) { tokens }

end Event

end StepFlow.Yaml

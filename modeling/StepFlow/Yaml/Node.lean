import StepFlow.Yaml.Event
import StepFlow.Yaml.Lexer

/-!
The first document of a YAML text as a tree. Where the text is malformed the tree is cut off: the
node that should come next is `broken`, and what comes before it can still be read. An alias
stands in the tree as a number, and the document knows the node that each number means. Readers that
guard against documents which grow when their aliases are followed stop after a hundred jumps to an
anchor for each event of the text; that limit is left out, and an alias may be followed any number of
times.
-/

namespace StepFlow.Yaml

/-- A node of a document. -/
inductive Node where
  | scalar (tag : Option String) (text : String) (style : Style)
  | seq (tag : Option String) (items : List Node)
  | map (tag : Option String) (entries : List (Node × Node))
  | alias (target : Nat)
  /-- The text is malformed here. -/
  | broken

/-- How a document ends. -/
inductive Ending where
  | clean
  /-- The text is malformed before the end of the document. -/
  | malformed
  /-- There is more behind the document. -/
  | more
  deriving DecidableEq, Repr

/-- The first document of a text. -/
structure Document where
  root : Node
  /-- The nodes that aliases mean. -/
  targets : List (Nat × Node) := []
  ending : Ending

namespace Document

/-- The node that an alias means. -/
def target (d : Document) (n : Nat) : Node := (d.targets.lookup n).getD .broken

/-- A node, or what it means if it is an alias. -/
def deref (d : Document) : Node → Node
  | .alias n => d.target n
  | n => n

end Document

namespace Node

/-! ### Building the tree -/

/-- An open collection. -/
structure Frame where
  /-- The number of the event that opened it. -/
  start : Nat
  marking : Marking
  mapping : Bool
  /-- The items of a sequence, last first. -/
  items : List Node := []
  /-- The entries of a mapping, last first. -/
  entries : List (Node × Node) := []
  /-- A key whose value is still to come. -/
  key : Option Node := none

/-- Adds a node that is complete. -/
def Frame.put (f : Frame) (n : Node) : Frame :=
  if f.mapping then
    match f.key with
    | none => { f with key := some n }
    | some k => { f with key := none, entries := (k, n) :: f.entries }
  else { f with items := n :: f.items }

/-- The collection as a node. -/
def Frame.node (f : Frame) : Node :=
  if f.mapping then .map f.marking.tag f.entries.reverse else .seq f.marking.tag f.items.reverse

/-- The collection, cut off where the text is malformed. -/
def Frame.cut (f : Frame) : Frame :=
  if f.mapping then
    { f with key := none, entries := (f.key.getD .broken, .broken) :: f.entries }
  else f.put .broken

/-- A tree while it is built. -/
structure Builder where
  frames : List Frame := []
  root : Option Node := none
  /-- How many events were met. -/
  count : Nat := 0
  /-- The number that each anchor's name has at this place. -/
  names : List (String × Nat) := []
  /-- Where the node starts that a number means, latest first. -/
  starts : List (Nat × Nat) := []
  /-- The nodes that carry an anchor, by the place where they start. -/
  nodes : List (Nat × Node) := []
  /-- An alias was met whose anchor is not known. -/
  lost : Bool := false

namespace Builder

/-- Puts a node into the innermost open collection, or makes it the root. -/
def put (b : Builder) (n : Node) : Builder :=
  match b.frames with
  | [] => { b with root := some n }
  | f :: fs => { b with frames := f.put n :: fs }

/-- Notes an anchor. Its number is how many names are known, and its name may be one of them. -/
def anchored (b : Builder) (m : Marking) : Builder :=
  match m.anchor with
  | none => b
  | some name =>
    let number := b.names.length
    { b with
      names := (name, number) :: b.names.filter (·.1 ≠ name),
      starts := (number, b.count) :: b.starts }

/-- Adds a finished node that started at a place, and keeps it if it carries an anchor. -/
def finish (b : Builder) (start : Nat) (m : Marking) (n : Node) : Builder :=
  let b := if m.anchor.isSome then { b with nodes := (start, n) :: b.nodes } else b
  b.put n

/-- Opens a collection. -/
def openFrame (b : Builder) (m : Marking) (mapping : Bool) : Builder :=
  let b := b.anchored m
  { b with frames := ⟨b.count, m, mapping, [], [], none⟩ :: b.frames, count := b.count + 1 }

/-- Closes the innermost open collection. -/
def closeFrame (b : Builder) : Builder :=
  match b.frames with
  | [] => b
  | f :: fs => { b with frames := fs, count := b.count + 1 }.finish f.start f.marking f.node

/-- Meets an event of the document. -/
def step (b : Builder) (e : Event) : Builder :=
  if b.lost then b
  else
    match e with
    | .documentStart | .documentEnd => b
    | .alias name =>
      match b.names.lookup name with
      | none => { b with lost := true }
      | some n => { b with count := b.count + 1 }.put (.alias n)
    | .scalar m text style =>
      let start := b.count
      { b.anchored m with count := b.count + 1 }.finish start m (.scalar m.tag text style)
    | .sequenceStart m => b.openFrame m false
    | .mappingStart m => b.openFrame m true
    | .sequenceEnd | .mappingEnd => b.closeFrame

/-- Closes what is still open, cut off. -/
def cutOff (b : Builder) : Builder :=
  (List.range b.frames.length).foldl (fun b _ =>
    match b.frames with
    | [] => b
    | f :: fs => { b with frames := f.cut :: fs }.closeFrame) b

/-- The document that was built. -/
def document (b : Builder) (ending : Ending) : Document :=
  let ending := if b.lost then .malformed else ending
  let b := b.cutOff
  let root := b.root.getD (if ending = .malformed then .broken else .scalar none "" .plain)
  { root, ending
    targets := b.starts.filterMap fun (n, s) => (b.nodes.lookup s).map fun node => (n, node) }

end Builder

end Node

/-- The first document of the events of a text; `complete` says that they reach its end. A text
without any document counts as one that is empty. -/
def Document.ofEvents (events : List Event) (complete : Bool) : Document :=
  let content := events.takeWhile (· ≠ .documentEnd)
  let ending : Ending :=
    match events.drop content.length with
    | [] => if complete then .clean else .malformed
    | _ :: rest => if rest.isEmpty && complete then .clean else .more
  (content.foldl Node.Builder.step {}).document ending

/-- The first document of a text. -/
def Document.ofText (text : String) : Document :=
  let (tokens, _) := Token.ofText text
  let (events, complete) := Event.ofTokens tokens
  .ofEvents events complete

end StepFlow.Yaml

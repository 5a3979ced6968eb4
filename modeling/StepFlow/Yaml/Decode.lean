import StepFlow.Table
import StepFlow.Yaml.Value

/-!
Reading nodes as values of a given kind. Every reader goes through its node in the order of the
text and stops at the first fault. Collections may be nested 128 deep; a reader is told how many
more it may enter.
-/

namespace StepFlow.Yaml

/-- How deep collections may be nested. -/
def maxNesting : Nat := 128

namespace Decode

variable {α : Type}

/-! ### Scalars -/

/-- Any scalar is a text. -/
def text (d : Document) (n : Node) : Except Fault String :=
  match d.deref n with
  | .scalar _ s _ => .ok s
  | .broken => .error .malformed
  | _ => .error .unfit

/-- The text of a scalar that may be a truth value or a number: a plain one, or a literal one whose
tag says so. -/
private def literalText (tag : String) (d : Document) (n : Node) : Except Fault String :=
  match d.deref n with
  | .scalar t s style =>
    if style = .plain || (style = .literal && t = some (Value.coreTag tag)) then .ok s
    else .error .unfit
  | .broken => .error .malformed
  | _ => .error .unfit

/-- A truth value. -/
def flag (d : Document) (n : Node) : Except Fault Bool := do
  match truth? (← literalText "bool" d n) with
  | some b => return b
  | none => throw .unfit

/-- An unsigned whole number below `bound`. -/
def below (bound : Nat) (d : Document) (n : Node) : Except Fault Nat := do
  match unsigned? (← literalText "int" d n).toList with
  | some k => if k < bound then return k else throw .unfit
  | none => throw .unfit

/-- An unsigned number of 32 bits. -/
def word32 (d : Document) (n : Node) : Except Fault UInt32 :=
  (below UInt32.size d n).map UInt32.ofNat

/-- An unsigned number of 64 bits. -/
def word64 (d : Document) (n : Node) : Except Fault UInt64 :=
  (below UInt64.size d n).map UInt64.ofNat

/-- A value that may be absent: a plain scalar that is empty or means null, or one with the tag of
null. -/
def optional (read : Node → Except Fault α) (d : Document) (n : Node) : Except Fault (Option α) :=
  match d.deref n with
  | .broken => .error .malformed
  | .scalar none s .plain => if s.isEmpty || isNullWord s then .ok none else (read n).map some
  | .scalar (some tag) s .plain =>
    if tag = Value.coreTag "null" then if isNullWord s then .ok none else .error .unfit
    else (read n).map some
  | _ => (read n).map some

/-! ### Collections -/

/-- The items of a sequence, each read with one level less to go. An empty plain scalar is an empty
sequence. -/
def list (read : Nat → Node → Except Fault α) (d : Document) (depth : Nat) (n : Node) :
    Except Fault (List α) :=
  match d.deref n, depth with
  | .seq _ _, 0 => .error .tooDeep
  | .seq _ items, depth + 1 => items.mapM (read depth)
  | .scalar _ s style, _ => if s.isEmpty && style = .plain then .ok [] else .error .unfit
  | .broken, _ => .error .malformed
  | _, _ => .error .unfit

/-- The texts of a sequence. -/
def texts (d : Document) (depth : Nat) (n : Node) : Except Fault (List String) :=
  list (fun _ => text d) d depth n

/-- The entries of a mapping. An empty plain scalar is an empty mapping. -/
def entries (d : Document) (depth : Nat) (n : Node) : Except Fault (List (Node × Node)) :=
  match d.deref n, depth with
  | .map _ _, 0 => .error .tooDeep
  | .map _ es, _ + 1 => .ok es
  | .scalar _ s style, _ => if s.isEmpty && style = .plain then .ok [] else .error .unfit
  | .broken, _ => .error .malformed
  | _, _ => .error .unfit

/-- The entries of a mapping from names, the values read by `read`. A name that is repeated keeps
its place and gets the last value. -/
def table (read : Node → Except Fault α) (d : Document) (depth : Nat) (n : Node) :
    Except Fault (Table α) := do
  let pairs ← (← entries d depth n).mapM fun (k, v) => do
    let name ← text d k
    let value ← read v
    return (name, value)
  return .ofPairs pairs

/-! ### Records -/

/-- A field of a record `σ`: its name, other names for it, and how its value is put in. -/
structure RecordField (σ : Type) where
  name : String
  aliases : List String := []
  set : Node → σ → Except Fault σ

/-- Puts the entries of a mapping into a record, one after the other. Each name must be one of the
fields, and no field may be set twice. -/
def fill {σ : Type} (d : Document) (fields : List (RecordField σ)) :
    List String → σ → List (Node × Node) → Except Fault σ
  | _, record, [] => .ok record
  | seen, record, (k, v) :: rest => do
    let key ← text d k
    match fields.find? fun f => f.name = key || key ∈ f.aliases with
    | none => throw (.unknownField key)
    | some f =>
      if f.name ∈ seen then throw (.duplicateField f.name)
      else
        let record ← f.set v record
        fill d fields (f.name :: seen) record rest

/-- Reads a record from a mapping, starting with all fields unset. -/
def record {σ : Type} (d : Document) (fields : List (RecordField σ)) (unset : σ) (depth : Nat)
    (n : Node) : Except Fault σ := do
  fill d fields [] unset (← entries d depth n)

/-! ### Values of any kind -/

/-- The name of a local tag, without its exclamation mark. -/
private def localTag? (tag : Option String) : Option String :=
  match (tag.getD "").toList with
  | ['!'] => some "!"
  | '!' :: r => some (String.ofList r)
  | _ => none

private def withTag (tag : Option String) (v : Value) : Value :=
  match localTag? tag with
  | some t => .tagged t v
  | none => v

/-- Adds the entries of a mapping to those read so far; no key may be repeated. -/
private def addEntries (read : Node → Except Fault Value) :
    List (Value × Value) → List (Node × Node) → Except Fault (List (Value × Value))
  | acc, [] => .ok acc.reverse
  | acc, (k, v) :: rest => do
    let key ← read k
    if acc.any fun (k', _) => k'.same key then throw .duplicateKey
    let value ← read v
    addEntries read ((key, value) :: acc) rest

/-- A value of any kind, with at most `depth` collections inside each other. -/
def value (d : Document) : Nat → Node → Except Fault Value
  | depth, n =>
    match d.deref n, depth with
    | .scalar tag s style, _ =>
      match localTag? tag with
      | some t => (Value.ofScalar none s style).map (.tagged t)
      | none => Value.ofScalar tag s style
    | .seq _ _, 0 | .map _ _, 0 => .error .tooDeep
    | .seq tag items, depth + 1 => do
      return withTag tag (.seq (← items.mapM (value d depth)))
    | .map tag es, depth + 1 => do
      return withTag tag (.map (← addEntries (value d depth) [] es))
    | .broken, _ => .error .malformed
    | .alias _, _ => .error .unfit

/-- Named values that are written as texts, whatever scalars they are. Null is an empty table. -/
def namedTexts (d : Document) (depth : Nat) (n : Node) : Except Fault (Table String) := do
  let values ← optional (table (value d (depth - 1)) d depth) d n
  (values.getD []).mapM fun (name, v) =>
    match v.scalarText? with
    | some s => .ok (name, s)
    | none => .error (.compoundVariable name)

/-! ### Documents -/

/-- The value of the only document of a text. -/
def only (read : Document → Nat → Node → Except Fault α) (source : String) : Except Fault α := do
  let d := Document.ofText source
  let v ← read d maxNesting d.root
  match d.ending with
  | .clean => return v
  | .malformed => throw .malformed
  | .more => throw .manyDocuments

end Decode

end StepFlow.Yaml

import StepFlow.Text.Blank

/-!
Names of flows, steps and file rules, and paths of nodes in a step tree. A name is what is left of a
text when the blanks around it are taken off: 1 to 100 characters, none of them reserved. A path is
written with slashes, `root/build/compile`, and has one to ten segments, each a name without blanks
around it.
-/

namespace StepFlow

namespace Name

/-- The characters that no name holds: they separate or select names elsewhere. -/
def isReserved (c : Char) : Bool := c == '*' || c == '.' || c == ';' || c == '/'

/-- The greatest number of characters in a name. -/
def maxLength : Nat := 100

/-- Characters that are a name once the blanks around them are taken off. -/
def validChars (cs : List Char) : Bool :=
  let core := Text.trimChars cs
  !core.isEmpty && core.length ≤ maxLength && !core.any isReserved

/-- A text that is a name once the blanks around it are taken off. -/
def valid (s : String) : Bool := validChars s.toList

end Name

/-- A path, from the root's segment to the node's own. -/
structure Path where
  segments : List String
  deriving DecidableEq, Repr

/-- Why a text or a name makes no path. -/
inductive PathError where
  | illegalName (name : String)
  | tooDeep (text : String)
  | empty
  deriving DecidableEq, Repr

namespace Path

/-- The greatest number of segments. -/
def maxDepth : Nat := 10

/-- The segments joined by slashes. -/
def joined (segments : List String) : String := Text.join "/" segments

/-- The text of a path. -/
def text (p : Path) : String := joined p.segments

/-- The number of segments. -/
def depth (p : Path) : Nat := p.segments.length

/-- The last segment. -/
def name (p : Path) : String := p.segments.getLast?.getD ""

/-- A path of one segment. -/
def isRoot (p : Path) : Bool := p.segments.length = 1

/-- A name as a segment. -/
def segment (name : String) : Except PathError String :=
  if Name.valid name then .ok (Text.trim name) else .error (.illegalName name)

/-- The path with these segments, if their number is right. -/
def ofSegments (segments : List String) : Except PathError Path :=
  if segments.isEmpty then .error .empty
  else if segments.length > maxDepth then .error (.tooDeep (joined segments))
  else .ok ⟨segments⟩

/-- The path of a root. -/
def root (name : String) : Except PathError Path := do ofSegments [← segment name]

/-- The path of a node named `name` right below this one. -/
def child (p : Path) (name : String) : Except PathError Path := do
  ofSegments (p.segments ++ [← segment name])

/-- The path that a text writes; pieces between slashes that are blank do not count. -/
def parse (text : String) : Except PathError Path := do
  let pieces := (Text.splitOnChar '/' text.toList).map fun cs => String.ofList (Text.trimChars cs)
  ofSegments (← (pieces.filter (· ≠ "")).mapM segment)

/-- The path of the node right above this one. -/
def parent (p : Path) : Option Path := if p.isRoot then none else some ⟨p.segments.dropLast⟩

end Path

/-- The wording of the error. -/
def PathError.message : PathError → String
  | .illegalName name => s!"illegal node name '{name}'"
  | .tooDeep text => s!"node path '{text}' exceeds the depth limit of {Path.maxDepth}"
  | .empty => "empty node path is not allowed"

end StepFlow

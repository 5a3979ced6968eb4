import Mathlib.Tactic.Lemma
import StepFlow.Flow.Basic

/-!
Steps by their paths. A path is the list of the names that lead to a step, from the outermost step on;
only steps have paths, so the empty list leads nowhere in a flow.
-/

namespace StepFlow

/-- The step that a path leads to from inside a step; the empty path stays where it is. -/
def Step.inside? (s : Step) : List String → Option Step
  | [] => some s
  | n :: rest => (Table.get? n s.steps).bind fun t => t.inside? rest

/-- The step at a path of a flow. -/
def Flow.at? (f : Flow) : List String → Option Step
  | [] => none
  | n :: rest => (Table.get? n f.steps).bind fun s => s.inside? rest

section Paths

variable {n : String} {rest : List String}

@[simp] lemma Step.inside?_nil (s : Step) : s.inside? [] = some s := rfl

lemma Step.inside?_cons (s : Step) :
    s.inside? (n :: rest) = (Table.get? n s.steps).bind fun t => t.inside? rest := rfl

@[simp] lemma Flow.at?_nil (f : Flow) : f.at? [] = none := rfl

lemma Flow.at?_cons (f : Flow) :
    f.at? (n :: rest) = (Table.get? n f.steps).bind fun s => s.inside? rest := rfl

end Paths

end StepFlow

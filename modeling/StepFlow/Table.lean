/-!
Tables and sets as lists. A table holds values by name, in the order in which the names were first
entered: it is a list of pairs in which no name stands twice. A set is a strictly increasing list.
-/

namespace StepFlow

/-- Values by name, in order of entry. -/
abbrev Table (α : Type) := List (String × α)

namespace Table

variable {α : Type}

/-- Enters a value. A name that is there keeps its place and gets the new value. -/
def insert (name : String) (v : α) : Table α → Table α
  | [] => [(name, v)]
  | (n, w) :: r => if n = name then (n, v) :: r else (n, w) :: insert name v r

/-- The value of a name. -/
def get? (name : String) : Table α → Option α
  | [] => none
  | (n, v) :: r => if n = name then some v else get? name r

/-- The names, in order of entry. -/
def names (t : Table α) : List String := t.map (·.1)

/-- The table of a list of pairs: a later pair overrides an earlier one of the same name. -/
def ofPairs (pairs : List (String × α)) : Table α :=
  pairs.foldl (fun t (n, v) => insert n v t) []

end Table

namespace Sorted

variable {α : Type} [LT α] [DecidableLT α] [DecidableEq α]

/-- Puts an element into a strictly increasing list, unless it is there. -/
def insert (x : α) : List α → List α
  | [] => [x]
  | y :: r => if x < y then x :: y :: r else if x = y then y :: r else y :: insert x r

/-- The elements of a list, each once, in increasing order. -/
def ofList (xs : List α) : List α := xs.foldl (fun acc x => insert x acc) []

end Sorted

end StepFlow

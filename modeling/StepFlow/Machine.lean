/-!
Machines of named statuses. A machine has an action for each transition that it knows, and hooks
for the statuses that transitions lead to. An action may run further transitions on the same
context; all of them together are a chain, and the hook of the status that the chain settles on
runs once, when the outermost action is over.

Actions are programs: they look at the context, change it, run transitions, and end well, with an
error, or by a crash, which ends the whole chain. What a chain calls back is noted in a trail.
-/

namespace StepFlow

/-- What actions and hooks see of a context. -/
structure View (σ : Type) where
  /-- The transition that was asked for last. -/
  current : Option String := none
  target : Option String := none
  /-- The error that an action left behind. -/
  error : Option String := none
  /-- No hook runs at the end of the chain in progress. -/
  skip : Bool := false
  data : σ

/-- The state that a chain works on: what is seen of it, how many actions are inside each other,
and the status that the chain would settle on. -/
structure Context (σ : Type) extends View σ where
  depth : Nat := 0
  settled : Option String := none

/-- What an action does, step by step. -/
inductive Program (σ : Type) where
  | done
  | fail (error : String)
  | crash (cause : String)
  | change (f : View σ → View σ) (next : Program σ)
  | look (next : View σ → Program σ)
  | transit (source target : String) (next : Program σ)

/-- A callback that runs no transitions: it changes what it sees, and may crash after that. -/
abbrev Callback (σ : Type) := View σ → View σ × Option String

/-- The action of a transition. -/
structure Action (σ : Type) where
  /-- Whether the action may run. -/
  canRun : View σ → Bool := fun _ => true
  accept : Program σ
  /-- What is done with an error of `accept`; it is kept unless the action says otherwise. -/
  onError : String → Program σ := fun e => .change (fun v => { v with error := some e }) .done
  /-- What is done at the end, with or without an error. -/
  onFinally : Callback σ := fun v => (v, none)

/-- A transition. -/
structure Transition where
  source : String
  target : String
  deriving DecidableEq, Repr

/-- The text of a transition. -/
def Transition.text (t : Transition) : String := t.source ++ " -> " ++ t.target

/-- A machine: its actions in the order in which they were added, and its hooks, the latest
first. -/
structure Machine (σ : Type) where
  name : String
  actions : List (Transition × Action σ) := []
  hooks : List (String × Callback σ) := []

/-- The only way to misuse a machine: a transition is added twice. -/
structure TransitionExists where
  transition : Transition
  deriving DecidableEq, Repr

/-- The wording of the error. -/
def TransitionExists.message (e : TransitionExists) : String :=
  s!"transition {e.transition.text} is already registered"

/-- What a chain called back: a callback of an action, or a hook with the transition it saw. -/
inductive Call where
  | accept (t : Transition)
  | exception (t : Transition)
  | finally_ (t : Transition)
  | hook (target : String) (seenCurrent seenTarget : Option String)
  deriving DecidableEq, Repr

/-- How a program ends. -/
inductive Ending where
  | done
  | failed (error : String)
  | crashed (cause : String)
  deriving DecidableEq, Repr

/-- What a transition left behind: the context, what was called, and the cause if it crashed. -/
structure Ran (σ : Type) where
  context : Context σ
  trail : List Call := []
  crash : Option String := none

namespace Machine

variable {σ : Type}

/-! ### Registration -/

/-- The action of a transition. -/
def action? (m : Machine σ) (t : Transition) : Option (Action σ) :=
  (m.actions.find? fun a => a.1 = t).map (·.2)

/-- The machine knows the transition. -/
def knows (m : Machine σ) (t : Transition) : Bool := (m.action? t).isSome

/-- The hook of a status. -/
def hook? (m : Machine σ) (status : String) : Option (Callback σ) :=
  (m.hooks.find? fun h => h.1 = status).map (·.2)

/-- Adds an action for a transition that has none. -/
def add (m : Machine σ) (t : Transition) (a : Action σ) : Except TransitionExists (Machine σ) :=
  if m.knows t then .error ⟨t⟩ else .ok { m with actions := m.actions ++ [(t, a)] }

/-- Sets the hook of each of the statuses. -/
def addHook (m : Machine σ) (h : Callback σ) (statuses : List String) : Machine σ :=
  { m with hooks := statuses.reverse.map (fun s => (s, h)) ++ m.hooks }

/-! ### Running -/

/-- What a program left behind: how it ended, the context and what was called. -/
structure Performed (σ : Type) where
  ending : Ending
  context : Context σ
  trail : List Call := []

/-- Performs a program; `run` runs the transitions that it asks for. There is no result if one of
them has none. -/
def perform (run : Transition → Context σ → Option (Ran σ)) :
    Program σ → Context σ → Option (Performed σ)
  | .done, c => some ⟨.done, c, []⟩
  | .fail e, c => some ⟨.failed e, c, []⟩
  | .crash e, c => some ⟨.crashed e, c, []⟩
  | .change f next, c => perform run next { c with toView := f c.toView }
  | .look next, c => perform run (next c.toView) c
  | .transit source target next, c =>
    match run ⟨source, target⟩ c with
    | none => none
    | some r =>
      match r.crash with
      | some cause => some ⟨.crashed cause, r.context, r.trail⟩
      | none => (perform run next r.context).map fun p => { p with trail := r.trail ++ p.trail }

/-- Applies a callback that runs no transitions. -/
def call (f : Callback σ) (c : Context σ) : Context σ × Option String :=
  let (v, crash) := f c.toView
  ({ c with toView := v }, crash)

/-- Runs an action that was entered: first `accept`, then `onError` if it failed, then
`onFinally`. A crash leaves out what would come after it. -/
def runAction (run : Transition → Context σ → Option (Ran σ)) (t : Transition) (a : Action σ)
    (c : Context σ) : Option (Ran σ) := do
  let accepted ← perform run a.accept c
  let handled : Performed σ ← match accepted.ending with
    | .failed e => do
      let p ← perform run (a.onError e) accepted.context
      pure { p with trail := .accept t :: accepted.trail ++ .exception t :: p.trail }
    | _ => pure { accepted with trail := .accept t :: accepted.trail }
  match handled.ending with
  | .crashed cause => return ⟨handled.context, handled.trail, some cause⟩
  | _ =>
    let (c, crash) := call a.onFinally handled.context
    return ⟨c, handled.trail ++ [.finally_ t], crash⟩

/-- Ends a chain: runs the hook of the status it settled on, unless hooks are skipped. -/
def finishChain (m : Machine σ) (c : Context σ) : Ran σ :=
  match c.settled with
  | none => ⟨c, [], none⟩
  | some status =>
    let c := { c with settled := none }
    if c.skip then ⟨c, [], none⟩
    else
      match m.hook? status with
      | none => ⟨c, [], none⟩
      | some h =>
        let c := { c with target := some status }
        let (after, crash) := call h c
        ⟨after, [.hook status c.current c.target], crash⟩

/-- Runs a transition with at most `limit` actions inside each other; there is no result if that is
not enough. A transition that the machine does not know, or whose action may not run, only leaves
its statuses in the context. -/
def execute (m : Machine σ) : (limit : Nat) → Transition → Context σ → Option (Ran σ)
  | 0, _, _ => none
  | limit + 1, t, c =>
    let c : Context σ := if c.depth = 0 then { c with skip := false, settled := none } else c
    let c : Context σ := { c with current := some t.source, target := some t.target }
    match m.action? t with
    | none => some ⟨c, [], none⟩
    | some a =>
      if !a.canRun c.toView then some ⟨c, [], none⟩
      else do
        let entered : Context σ := { c with settled := some t.target, depth := c.depth + 1 }
        let r ← runAction (execute m limit) t a entered
        let left : Context σ := { r.context with depth := r.context.depth - 1 }
        if r.crash.isSome || left.depth > 0 then return { r with context := left }
        else
          let f := m.finishChain left
          return { f with trail := r.trail ++ f.trail }

end Machine

end StepFlow

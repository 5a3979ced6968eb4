import StepFlow.Job.Run

/-!
A job with agents whose answers take a known time. Attempts end in the order of the time at which
they are due, and of two that are due at the same time the one made first ends first. Nothing else
takes any time. An attempt that is due when its own time limit strikes still counts.
-/

namespace StepFlow

/-- How an agent replies to one attempt: after a number of milliseconds it answers, or it goes on
for ever. -/
structure Reply where
  wait : Nat := 0
  answer : Option Answer := some (.response {})
  deriving DecidableEq, Repr

/-- An agent replies to a step according to the number of the attempt. -/
abbrev Agent := EffectiveStep → UInt32 → Reply

/-- The agent of the dry run. -/
def DryRun.agent (tags : List String) : Agent := fun step _ =>
  match dispatch tags step with
  | .ok r => { answer := some (.response r) }
  | .error e => { answer := some (.error e) }

namespace Reply

/-- The milliseconds that an attempt lasts, and how it ends. -/
def outcome (r : Reply) (step : EffectiveStep) : Nat × AttemptEnd :=
  let limit := step.timeout.toNat * 1000
  match r.answer with
  | some a => if r.wait ≤ limit then (r.wait, .answered a) else (limit, .timedOut)
  | none => (limit, .timedOut)

end Reply

/-- All attempts at one step with an agent. -/
def Agent.execute (agent : Agent) (step : EffectiveStep) : Attempt.Tried :=
  Attempt.all step fun attempt => ((agent step attempt).outcome step).2

/-- An attempt in progress: when it is due and how it ends then. -/
structure Pending where
  node : Nat
  due : Time
  ending : AttemptEnd
  deriving DecidableEq, Repr

/-- The state of a job in time. -/
structure Timeline where
  walk : Walk
  /-- The attempts in progress, in the order in which they were made. -/
  pending : List Pending := []
  /-- All attempts so far: the name of the step and the number of the attempt. -/
  dispatched : List (String × UInt32) := []
  /-- The greatest number of attempts that were in progress at once. -/
  peak : Nat := 0
  deriving DecidableEq, Repr

namespace Timeline

/-- What the clock shows. -/
def now (t : Timeline) : Time := t.walk.data.now

/-- When the limit strikes, if it does up to a time. -/
def struck? (limit : Option Time) (time : Time) : Option Time := limit.filter (· ≤ time)

/-- Makes an attempt. -/
def dispatch (agent : Agent) (t : Timeline) (r : Running) : Timeline :=
  let (lasts, ending) := (agent r.step r.attempt).outcome r.step
  { t with
    pending := t.pending ++ [{ node := r.node, due := t.now + lasts, ending }]
    dispatched := t.dispatched ++ [(r.step.name, r.attempt)]
    peak := max t.peak (1 + t.pending.countP fun q => t.now < q.due) }

/-- Makes the attempts that were not made yet, if there is time left. -/
def dispatchAll (agent : Agent) (limit : Option Time) (t : Timeline) : Timeline :=
  if (struck? limit t.now).isSome then t
  else
    let due := t.walk.running.filter fun r => !t.pending.any fun q => q.node = r.node
    due.foldl (dispatch agent) t

/-- The attempt that ends next. -/
def next? : List Pending → Option Pending
  | [] => none
  | q :: rest =>
    match next? rest with
    | none => some q
    | some r => if r.due < q.due then some r else some q

/-- The attempt `q` ends. -/
def step (p : WalkPlan) (agent : Agent) (limit : Option Time) (q : Pending) (t : Timeline) :
    Timeline :=
  let walk := (t.walk.tick q.due).answer p q.node q.ending
  dispatchAll agent limit { t with walk, pending := t.pending.filter fun r => r.node ≠ q.node }

/-- Lets at most `n` attempts end before the limit. -/
def runFor (p : WalkPlan) (agent : Agent) (limit : Option Time) : (n : Nat) → Timeline → Timeline
  | 0, t => t
  | n + 1, t =>
    match next? t.pending with
    | none => t
    | some q =>
      match struck? limit q.due with
      | some time => { t with walk := t.walk.tick time }
      | none => runFor p agent limit n (t.step p agent limit q)

/-- No more attempts than this are made. -/
def maxAttempts (p : WalkPlan) : Nat :=
  (List.range p.graph.size).foldr (fun i n =>
    ((p.graph.tree.resolve? i p.defaults).map (·.maxAttempts.toNat)).getD 0 + n) 0

/-- The job after all attempts that end before its limit, which is given in seconds. -/
def run (p : WalkPlan) (agent : Agent) (start : Time) (limit : Option UInt64) : Timeline :=
  let limit := limit.map fun s => start + s.toNat * 1000
  runFor p agent limit (maxAttempts p) (dispatchAll agent limit { walk := Run.start p start })

/-- The end of the job: its record and all that was told. -/
def finish (p : WalkPlan) (t : Timeline) : Lifecycle.Data :=
  if t.walk.isOver then Run.complete p.graph t.walk else Run.cutShort p.graph t.walk

end Timeline

end StepFlow

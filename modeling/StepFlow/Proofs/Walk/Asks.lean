import StepFlow.Proofs.Walk.Accounts
import StepFlow.Proofs.Walk.Ending

/-!
How often the driver is asked. It is asked to run a step when an attempt begins: when the step starts,
and at every retry. What is told and recorded of a leaf that is over goes by that number: there is one
retry less, and as many attempts. But the end of an attempt that crashes is recorded as if it had been
the first one, however often the driver was asked before (`attempts_unless_crashed`).
-/

namespace StepFlow

/-- The attempt crashed. -/
def AttemptEnd.crashes : AttemptEnd → Bool
  | .answered (.crash _) => true
  | _ => false

lemma Attempt.attempts_outcome (step : EffectiveStep) (attempt : UInt32) (e : AttemptEnd) :
    (outcome step attempt e).attempts = if e.crashes then 1 else attempt := by
  cases e with
  | timedOut => rfl
  | answered a =>
    cases a with
    | error e => rfl
    | crash message => rfl
    | response r =>
      rw [outcome]
      split <;> rfl

lemma Attempt.status_of_crashes {step : EffectiveStep} {attempt : UInt32} {e : AttemptEnd}
    (h : e.crashes = true) : (outcome step attempt e).status = .failure := by
  cases e with
  | timedOut => cases h
  | answered a =>
    cases a with
    | crash message => rfl
    | _ => cases h

namespace Walk

open Lifecycle (Data)

/-! ### Attempts that begin -/

/-- The attempts in progress that were not in progress the moment before. -/
def begun (v w : Walk) : List Running := w.running.filter fun r => r ∉ v.running

/-- What the driver was asked to run up to `w`, one after the other. -/
def asks : (past : List Walk) → (w : Walk) → List Running
  | [], w => w.running
  | v :: past, w => asks past v ++ begun v w

/-- How often the driver was asked to run the leaf at a node. -/
def asked (past : List Walk) (w : Walk) (i : Nat) : Nat :=
  (asks past w).countP fun r => r.node = i

section Begun

variable {p : WalkPlan} {past : List Walk} {v w : Walk} {i k : Nat} {r : Running}

lemma asked_cons : asked (v :: past) w i =
    asked past v i + (begun v w).countP fun r => r.node = i :=
  List.countP_append

lemma begun_of_subset (h : ∀ r ∈ w.running, r ∈ v.running) : begun v w = [] :=
  List.filter_eq_nil_iff.mpr fun r hr => by simpa using h r hr

/-- No attempt at another node begins. -/
lemma asked_of_ne (h : ∀ r : Running, r.node ≠ k → (r ∈ w.running ↔ r ∈ v.running)) (hik : i ≠ k) :
    asked (v :: past) w i = asked past v i := by
  rw [asked_cons, Nat.add_eq_left, List.countP_eq_zero]
  intro r hr
  obtain ⟨hmem, hnew⟩ := List.mem_filter.1 hr
  rw [decide_eq_true_eq] at hnew ⊢
  rintro rfl
  exact hnew ((h r hik).1 hmem)

lemma asked_of_subset (h : ∀ r ∈ w.running, r ∈ v.running) :
    asked (v :: past) w i = asked past v i := by
  rw [asked_cons, begun_of_subset h]
  rfl

/-- The first attempt at a leaf begins. -/
lemma asked_start {step : EffectiveStep} (hfresh : k ∉ v.runningNodes)
    (hrunning : w.running = v.running ++ [{ node := k, step }]) :
    asked (v :: past) w k = asked past v k + 1 := by
  have hnew : ({ node := k, step } : Running) ∉ v.running := fun hmem =>
    hfresh (mem_runningNodes hmem)
  have hbegun : begun v w = [{ node := k, step }] := by
    rw [begun, hrunning, List.filter_append, List.filter_eq_nil_iff.mpr (by simp)]
    simp [hnew]
  rw [asked_cons, hbegun]
  simp

/-- Another attempt is none that is in progress. -/
lemma Placed.next_not_mem (hplaced : Placed p v) (hr : r ∈ v.running) :
    { r with attempt := r.attempt + 1 } ∉ v.running := by
  intro hmem
  have hsame := List.inj_on_of_nodup_map hplaced.running_nodup.1 hmem hr rfl
  have hattempt := congrArg Running.attempt hsame
  simp at hattempt

/-- Another attempt at a leaf begins. -/
lemma asked_retry (hplaced : Placed p v) (hr : r ∈ v.running) :
    asked (v :: past) (v.retryLeaf r) r.node = asked past v r.node + 1 := by
  have hnodup := hplaced.running_nodup.1
  have hnew := hplaced.next_not_mem hr
  -- among those that were being run, it is just the one at the node of `r` that is new
  have hone : (v.running.countP fun s => s.node = r.node) = 1 := by
    rw [← List.count_eq_one_of_mem hnodup (mem_runningNodes hr), List.count, runningNodes,
      List.countP_map]
    exact List.countP_congr fun s _ => by simp
  rw [asked_cons, begun, List.countP_filter, Nat.add_left_cancel_iff, ← hone]
  show (List.map _ v.running).countP _ = _
  rw [List.countP_map]
  apply List.countP_congr
  intro s hs
  by_cases hnode : s.node = r.node
  · simp [hnode, hnew]
  · simp [hnode, hs]

end Begun

/-! ### What goes by the number of attempts -/

/-- The retries told of a step up to an attempt, which is one that the step may have. -/
structure RetriesUpTo (step : EffectiveStep) (attempt : UInt32) (retries : List Event) : Prop where
  told : Retries step.name retries
  length : retries.length + 1 = attempt.toNat
  most : attempt.toNat ≤ step.maxAttempts.toNat

lemma retriesUpTo_first (step : EffectiveStep) : RetriesUpTo step 1 [] :=
  ⟨(fun _ he => nomatch he), rfl, Attempt.maxAttempts_pos step⟩

lemma RetriesUpTo.retry {step : EffectiveStep} {attempt : UInt32} {e : AttemptEnd}
    {retries : List Event} (h : RetriesUpTo step attempt retries)
    (hagain : Attempt.isRetried step attempt e = true) :
    RetriesUpTo step (attempt + 1) (retries ++ [Attempt.retrying step (attempt + 1)]) := by
  have hnext := Attempt.toNat_next hagain
  refine ⟨fun e he => ?_, ?_, ?_⟩
  · rcases List.mem_append.1 he with he | he
    · exact h.told e he
    · exact ⟨_, _, List.mem_singleton.1 he⟩
  · rw [hnext, List.length_append, ← h.length]
    rfl
  · rw [hnext]
    exact Attempt.lt_of_isRetried hagain

/-- How often the driver was asked to run the leaf at a node, and what is kept of the leaf, by its place
in the walk. -/
inductive Tallied (p : WalkPlan) (driver : Driver) (w : Walk) (i : Nat) (n : TreeNode) :
    Nat → Account → Prop
  | ahead (hsettled : i ∉ w.schedule.settled) (hrunning : i ∉ w.runningNodes) :
      Tallied p driver w i n 0 (.ahead n)
  | running {r : Running} {retries : List Event} (hr : r ∈ w.running) (hnode : r.node = i)
      (hretries : RetriesUpTo r.step r.attempt retries) :
      Tallied p driver w i n r.attempt.toNat (.running n r.step retries)
  | skipped (hsettled : i ∈ w.schedule.settled) : Tallied p driver w i n 0 (.skipped n)
  | ended {step : EffectiveStep} {e : AttemptEnd} {t : Attempt.Tried} {attempt : UInt32}
      (hsettled : i ∈ w.schedule.settled) (hstep : p.graph.tree.resolve? i p.defaults = some step)
      (he : driver step attempt e) (hlast : Attempt.isRetried step attempt e = false)
      (houtcome : t.outcome = Attempt.outcome step attempt e)
      (hretries : RetriesUpTo step attempt t.events) :
      Tallied p driver w i n attempt.toNat (.ended n step t)

/-- What holds of every leaf at every moment of a run. -/
def Tally (p : WalkPlan) (driver : Driver) (past : List Walk) (w : Walk) : Prop :=
  ∀ i n, p.graph.tree.isLeaf i = true → p.graph.tree.node? i = some n →
    Tallied p driver w i n (asked past w i) (account p.graph w.data i)

section Tally

variable {f : Flow} {p : WalkPlan} {driver : Driver} {now : Time} {past : List Walk} {w w' : Walk}
  {i k m : Nat} {n : TreeNode} {a : Account}

/-- A leaf that is where it was is kept as before. -/
lemma Tallied.of_same (h : Tallied p driver w i n m a)
    (hsettled : i ∈ w'.schedule.settled ↔ i ∈ w.schedule.settled)
    (hrunning : ∀ r : Running, r.node = i → (r ∈ w'.running ↔ r ∈ w.running)) :
    Tallied p driver w' i n m a := by
  cases h with
  | ahead hs hr =>
    refine .ahead (mt hsettled.1 hs) ?_
    intro hi
    obtain ⟨r, hmem, hnode⟩ := List.mem_map.1 hi
    exact hr (List.mem_map.2 ⟨r, (hrunning r hnode).1 hmem, hnode⟩)
  | running hr hnode hretries => exact .running ((hrunning _ hnode).2 hr) hnode hretries
  | skipped hs => exact .skipped (hsettled.2 hs)
  | ended hs hstep he hlast houtcome hretries =>
    exact .ended (hsettled.2 hs) hstep he hlast houtcome hretries

lemma Tallied.eq_ahead (h : Tallied p driver w i n m a) (hs : i ∉ w.schedule.settled)
    (hr : i ∉ w.runningNodes) : m = 0 ∧ a = .ahead n := by
  cases h with
  | ahead => exact ⟨rfl, rfl⟩
  | running hmem hnode => exact absurd (hnode ▸ mem_runningNodes hmem) hr
  | skipped hsettled => exact absurd hsettled hs
  | ended hsettled => exact absurd hsettled hs

lemma Tallied.eq_running (hplaced : Placed p w) {r : Running} (hr : r ∈ w.running)
    (h : Tallied p driver w r.node n m a) : m = r.attempt.toNat ∧
      ∃ retries, RetriesUpTo r.step r.attempt retries ∧ a = .running n r.step retries := by
  have hnode := mem_runningNodes hr
  have hs : r.node ∉ w.schedule.settled := hplaced.not_settled (List.mem_append_right _ hnode)
  cases h with
  | ahead _ hrunning => exact absurd hnode hrunning
  | @running r' retries hr' hsame hretries =>
    obtain rfl : r' = r := List.inj_on_of_nodup_map hplaced.running_nodup.1 hr' hr hsame
    exact ⟨rfl, retries, hretries, rfl⟩
  | skipped hsettled => exact absurd hsettled hs
  | ended hsettled => exact absurd hsettled hs

/-- A change at one node that is noted in its record and told. -/
lemma Tally.note (hg : f.compile = .ok p.graph) (h : Tally p driver past w)
    (hk : p.graph.tree.isStep k = true) (change : Time → StepRecord → StepRecord) (e : Event)
    (hname : ∀ now r, (change now r).name = r.name)
    (huntimed : ∀ now r, (change now r).untimed = (change 0 r.untimed).untimed)
    (he : e.step? = some (p.graph.name k)) (hdata : w'.data = noted p.graph k change e w.data)
    (hself : p.graph.tree.isLeaf k = true → ∀ n, p.graph.tree.node? k = some n →
      ∃ r events m, account p.graph w.data k = (some r, events) ∧ asked (w :: past) w' k = m ∧
        Tallied p driver w' k n m (some (change 0 r).untimed, events ++ [e]))
    (hsettled : ∀ i, i ≠ k → (i ∈ w'.schedule.settled ↔ i ∈ w.schedule.settled))
    (hrunning : ∀ r : Running, r.node ≠ k → (r ∈ w'.running ↔ r ∈ w.running)) :
    Tally p driver (w :: past) w' := by
  intro i n hi hn
  by_cases hik : i = k
  · subst hik
    obtain ⟨r, events, m, haccount, hasked, htallied⟩ := hself hi n hn
    rw [hdata, account_noted hg hk change e hname huntimed he haccount, hasked]
    exact htallied
  · have hsame := sameBut_noted (d := w.data) hg hk change e hname he
    rw [asked_of_ne hrunning hik, hdata, hsame.account i (Graph.isStep_of_isLeaf hi) hik]
    refine (h i n hi hn).of_same (hsettled i hik) ?_
    rintro r rfl
    exact hrunning r hik

/-- No leaf is changed. -/
lemma Tally.silent (h : Tally p driver past w) (hjob : w'.data.job = w.data.job)
    (hevents : w'.data.events = w.data.events)
    (hsettled : ∀ i, p.graph.tree.isLeaf i = true →
      (i ∈ w'.schedule.settled ↔ i ∈ w.schedule.settled))
    (hrunning : w'.running = w.running) : Tally p driver (w :: past) w' := by
  intro i n hi hn
  rw [account, hjob, hevents, asked_of_subset (fun r hr => hrunning ▸ hr)]
  refine (h i n hi hn).of_same (hsettled i hi) ?_
  intro r _
  rw [hrunning]

theorem tally_fresh (hg : f.compile = .ok p.graph) (now : Time) :
    Tally p driver [] (fresh p.graph now) := by
  intro i n hi hn
  obtain ⟨n', hn', hrecord⟩ := Job.step?_ofGraph hg (Graph.isStep_of_isLeaf hi)
  cases hn'.symm.trans hn
  have haccount : account p.graph (fresh p.graph now).data i = .ahead n := by
    show (Option.map _ ((Job.ofGraph p.graph).step? (p.graph.name i)), _) = _
    rw [hrecord]
    rfl
  rw [haccount]
  exact .ahead List.not_mem_nil List.not_mem_nil

/-! ### Steps -/

lemma Tally.enter (hg : f.compile = .ok p.graph) (hplaced : Placed p w) (hrecorded : Recorded p w)
    (h : Tally p driver past w) {schedule : Schedule}
    (hpop : w.schedule.pop = some (k, schedule)) :
    Tally p driver (w :: past) (Walk.enter p.graph k { w with schedule }) := by
  obtain ⟨hsettled, hk, hr⟩ := hplaced.fresh_of_pop hpop
  have hv : k ∉ schedule.settled := hsettled ▸ hk
  have hother : ∀ i, i ≠ k →
      (i ∈ (schedule.settle p.graph k).1.settled ↔ i ∈ w.schedule.settled) := by
    intro i hik
    rw [Schedule.settle_settled, if_neg hv, List.mem_cons, or_iff_right hik, hsettled]
  unfold Walk.enter
  split
  · -- a doomed node is skipped and settled
    rename_i hdoomed
    refine h.note hg (hrecorded.isStep_of_doomed hg hdoomed)
      (fun now => StepRecord.skip now failedBefore) (.stepSkipped (p.graph.name k) failedBefore)
      (fun _ _ => rfl) (fun _ _ => rfl) rfl rfl ?_ hother (fun _ _ => Iff.rfl)
    intro hleaf n hn
    obtain ⟨hasked, haccount⟩ := (h k n hleaf hn).eq_ahead hk hr
    refine ⟨.ofNode n, [], 0, haccount, (asked_of_subset fun _ hr => hr).trans hasked, ?_⟩
    rw [name_eq hn]
    exact .skipped ((mem_settle hv).2 (.inl rfl))
  · split
    · -- a leaf waits
      refine h.silent rfl rfl ?_ rfl
      intro i _
      show i ∈ schedule.settled ↔ _
      rw [hsettled]
    · -- what is settled at once is no leaf
      rename_i hleaf
      refine h.silent rfl rfl ?_ rfl
      intro i hi
      refine hother i ?_
      rintro rfl
      exact hleaf hi

lemma Tally.start (hg : f.compile = .ok p.graph) (hplaced : Placed p w)
    (h : Tally p driver past w) {rest : List Nat} (hwaiting : w.waiting = k :: rest) :
    Tally p driver (w :: past) ({ w with waiting := rest }.startLeaf p k) := by
  obtain ⟨hleaf, hk, hr⟩ := hplaced.fresh_of_waiting hwaiting
  obtain ⟨n, step, hn, hstep, hname, -⟩ := resolve_of_leaf hleaf p.defaults
  have hstarted : Event.step? (.stepStarted step.name step.path) = some (p.graph.name k) :=
    congrArg some (hname.trans (name_eq hn).symm)
  rw [startLeaf_eq hstep]
  refine h.note hg (Graph.isStep_of_isLeaf hleaf) StepRecord.start
    (.stepStarted step.name step.path) (fun _ _ => rfl) (fun _ _ => rfl) hstarted rfl ?_
    (fun _ _ => Iff.rfl) ?_
  · intro _ n' hn'
    obtain ⟨hasked, haccount⟩ := (h k n' hleaf hn').eq_ahead hk hr
    refine ⟨.ofNode n', [], 1, haccount, Eq.trans (asked_start hr rfl) (by rw [hasked]), ?_⟩
    have hmem : ({ node := k, step } : Running) ∈ w.running ++ [{ node := k, step }] := by simp
    exact .running (r := { node := k, step }) hmem rfl (retriesUpTo_first step)
  · intro r hrk
    show r ∈ w.running ++ [{ node := k, step }] ↔ r ∈ w.running
    rw [List.mem_append, List.mem_singleton, or_iff_left]
    rintro rfl
    exact hrk rfl

lemma Tally.retry (hg : f.compile = .ok p.graph) (hplaced : Placed p w)
    (h : Tally p driver past w) {r : Running} {e : AttemptEnd} (hr : r ∈ w.running)
    (hagain : Attempt.isRetried r.step r.attempt e = true) :
    Tally p driver (w :: past) (w.retryLeaf r) := by
  have hleaf := hplaced.leaf _ (List.mem_append_right _ (mem_runningNodes hr))
  have hname : r.step.name = p.graph.name r.node := hplaced.step_name hr
  refine h.note hg (Graph.isStep_of_isLeaf hleaf) (fun _ r => r)
    (Attempt.retrying r.step (r.attempt + 1)) (fun _ _ => rfl) (fun _ _ => rfl)
    (congrArg some hname) (noted_same p.graph r.node _ w.data).symm ?_ (fun _ _ => Iff.rfl) ?_
  · intro _ n hn
    obtain ⟨hasked, retries, hretries, haccount⟩ :=
      (h r.node n hleaf hn).eq_running hplaced hr
    have hnext : asked (w :: past) (w.retryLeaf r) r.node = (r.attempt + 1).toNat := by
      rw [asked_retry hplaced hr, hasked, Attempt.toNat_next hagain]
    refine ⟨_, _, _, haccount, hnext, ?_⟩
    have hmem : { r with attempt := r.attempt + 1 } ∈ (w.retryLeaf r).running :=
      List.mem_map.2 ⟨r, hr, if_pos rfl⟩
    exact .running (r := { r with attempt := r.attempt + 1 }) hmem rfl
      (hretries.retry hagain)
  · exact fun s hs => mem_running_retryLeaf hs

lemma Tally.finish (hg : f.compile = .ok p.graph) (hplaced : Placed p w)
    (h : Tally p driver past w) {r : Running} {e : AttemptEnd} (hr : r ∈ w.running)
    (he : driver r.step r.attempt e) (hlast : Attempt.isRetried r.step r.attempt e = false) :
    Tally p driver (w :: past)
      (w.finishLeaf p.graph r (Attempt.outcome r.step r.attempt e)) := by
  have hmem : r.node ∈ w.waiting ++ w.runningNodes :=
    List.mem_append_right _ (mem_runningNodes hr)
  have hleaf := hplaced.leaf _ hmem
  have hk := hplaced.not_settled hmem
  obtain ⟨o, ho⟩ : ∃ o, o = Attempt.outcome r.step r.attempt e := ⟨_, rfl⟩
  rw [← ho]
  refine h.note hg (Graph.isStep_of_isLeaf hleaf)
    (fun now => StepRecord.finish now o.status o.attempts o.error)
    (.stepFinished (p.graph.name r.node) o.status o.attempts o.error) (fun _ _ => rfl)
    (fun _ _ => rfl) rfl rfl ?_ ?_ ?_
  · intro _ n hn
    obtain ⟨hasked, retries, hretries, haccount⟩ :=
      (h r.node n hleaf hn).eq_running hplaced hr
    refine ⟨_, _, _, haccount,
      Eq.trans (asked_of_subset fun _ hs => (mem_running_finishLeaf.1 hs).1) hasked, ?_⟩
    rw [name_eq hn]
    obtain ⟨t, rfl, rfl⟩ : ∃ t : Attempt.Tried, t.outcome = o ∧ t.events = retries :=
      ⟨⟨o, retries.map .tell⟩, rfl, Attempt.events_of_tells o retries⟩
    exact .ended ((mem_settle hk).2 (.inl rfl)) (hplaced.resolved r hr) he hlast ho hretries
  · intro i hik
    exact (mem_settle hk).trans (or_iff_right hik)
  · exact fun s hs => mem_running_finishLeaf.trans (and_iff_left hs)

/-- **Every step** of a run. -/
theorem Tally.step (hg : f.compile = .ok p.graph) (hplaced : Placed p w) (hrecorded : Recorded p w)
    (h : Tally p driver past w) (hstep : Step p driver w w') : Tally p driver (w :: past) w' := by
  cases hstep with
  | tick => exact h.silent rfl rfl (fun _ _ => Iff.rfl) rfl
  | enter hpop => exact h.enter hg hplaced hrecorded hpop
  | start _ hwaiting _ => exact h.start hg hplaced hwaiting
  | retry hr _ hagain => exact h.retry hg hplaced hr hagain
  | finish _ _ hr he hlast => exact h.finish hg hplaced hr he hlast

theorem Course.tally (hg : f.compile = .ok p.graph) (h : Course p driver now past w) :
    Tally p driver past w := by
  induction h with
  | start => exact tally_fresh hg now
  | step hpast hstep ih =>
    obtain ⟨hplaced, hrecorded⟩ := steps_recorded hg hpast.steps
    exact ih.step hg hplaced hrecorded hstep

/-! ### At the end -/

/-- A leaf was tried up to an attempt: its record is the end of that attempt, and its start, the retries
and the end as it is recorded were told. -/
structure TriedUpTo (p : WalkPlan) (driver : Driver) (d : Data) (i : Nat) (step : EffectiveStep)
    (attempt : UInt32) (e : AttemptEnd) (r : StepRecord) : Prop where
  resolved : p.graph.tree.resolve? i p.defaults = some step
  ends : driver step attempt e
  last : Attempt.isRetried step attempt e = false
  noted : (r.status, r.attempts, r.error) = Attempt.noted (Attempt.outcome step attempt e)
  events : ∃ retries, RetriesUpTo step attempt retries ∧
    told d.events (p.graph.name i) = .stepStarted step.name step.path ::
      (retries ++ [.stepFinished (p.graph.name i) r.status r.attempts r.error])

/-- A leaf was skipped, or it was tried. -/
lemma Course.leaf_cases (hg : f.compile = .ok p.graph) (h : Course p driver now past w)
    (hover : Over w) (hi : p.graph.tree.isLeaf i = true) :
    ∃ r, (Run.complete p.graph w).job.step? (p.graph.name i) = some r ∧
      ((asked past w i = 0 ∧ r.status = .skipped ∧ r.attempts = 0 ∧
          told (Run.complete p.graph w).events (p.graph.name i) =
            [.stepSkipped (p.graph.name i) failedBefore]) ∨
        ∃ step attempt e, asked past w i = attempt.toNat ∧
          TriedUpTo p driver (Run.complete p.graph w) i step attempt e r) := by
  obtain ⟨hplaced, hrecorded⟩ := steps_recorded hg h.steps
  obtain ⟨n, hn, -⟩ := Tree.isStep_iff.1 (Graph.isStep_of_isLeaf hi)
  obtain ⟨⟨status, hevents⟩, hrecords⟩ := Run.close_success hg hrecorded.job
  -- closing the job leaves the account of the leaf as it is
  have htold_eq : told (Run.complete p.graph w).events (p.graph.name i) =
      told w.data.events (p.graph.name i) := by
    rw [complete_eq hg hplaced hover, hevents, told_concat, if_neg (by simp [Event.step?])]
  have hrecord_eq : (Run.complete p.graph w).job.step? (p.graph.name i) =
      w.data.job.step? (p.graph.name i) := by
    rw [complete_eq hg hplaced hover, hrecords i hi]
  rw [hrecord_eq, htold_eq]
  have hlt := ((Graph.compile_isStep_iff hg).1 (Graph.isStep_of_isLeaf hi)).2
  have hsettled := (hplaced.all_settled (Graph.compile_sound hg) hover).1 i hlt
  obtain ⟨m, hm⟩ : ∃ m, asked past w i = m := ⟨_, rfl⟩
  obtain ⟨a, ha⟩ : ∃ a, account p.graph w.data i = a := ⟨_, rfl⟩
  have htally := h.tally hg i n hi hn
  rw [hm, ha] at htally
  rw [hm]
  cases htally with
  | ahead hs => exact absurd hsettled hs
  | running hr =>
    rw [hover.running] at hr
    cases hr
  | skipped =>
    obtain ⟨hrecord, htold⟩ := Prod.mk.inj ha
    obtain ⟨r, hr, hsame⟩ := Option.map_eq_some_iff.1 hrecord
    refine ⟨r, hr, .inl ⟨rfl, congrArg StepRecord.status hsame,
      congrArg StepRecord.attempts hsame, ?_⟩⟩
    rw [name_eq hn] at htold ⊢
    exact htold
  | @ended step e t attempt _ hstep he hlast houtcome hretries =>
    obtain ⟨hrecord, htold⟩ := Prod.mk.inj ha
    obtain ⟨r, hr, hsame⟩ := Option.map_eq_some_iff.1 hrecord
    have hstatus : r.status = t.outcome.status := congrArg StepRecord.status hsame
    have hattempts : r.attempts = t.outcome.attempts := congrArg StepRecord.attempts hsame
    have herror : r.error = t.outcome.error := congrArg StepRecord.error hsame
    refine ⟨r, hr, .inr ⟨step, attempt, e, rfl, hstep, he, hlast, ?_, t.events, hretries, ?_⟩⟩
    · rw [← houtcome, hstatus, hattempts, herror]
      rfl
    · rw [htold_eq, hstatus, hattempts, herror]
      rw [name_eq hn] at htold ⊢
      exact htold

/-- **How many attempts are counted** of a leaf when the job is over. If the driver was never asked to
run it, it was skipped, none is recorded, and no end is told. Else it was tried as often as the driver
was asked, and this is the number of attempts that is recorded and told, unless the last attempt
crashed: then it is one. -/
theorem attempts_unless_crashed (hg : f.compile = .ok p.graph) (h : Course p driver now past w)
    (hover : Over w) (hi : p.graph.tree.isLeaf i = true) :
    ∃ r, (Run.complete p.graph w).job.step? (p.graph.name i) = some r ∧
      ((asked past w i = 0 ∧ r.status = .skipped ∧ r.attempts = 0 ∧
          told (Run.complete p.graph w).events (p.graph.name i) =
            [.stepSkipped (p.graph.name i) failedBefore]) ∨
        ∃ step attempt e, asked past w i = attempt.toNat ∧
          TriedUpTo p driver (Run.complete p.graph w) i step attempt e r ∧
          r.attempts.toNat = if e.crashes then 1 else asked past w i) := by
  obtain ⟨r, hr, hcases⟩ := h.leaf_cases hg hover hi
  refine ⟨r, hr, hcases.imp_right ?_⟩
  rintro ⟨step, attempt, e, hasked, htried⟩
  refine ⟨step, attempt, e, hasked, htried, ?_⟩
  have hattempts : r.attempts = (Attempt.outcome step attempt e).attempts :=
    congrArg (·.2.1) htried.noted
  rw [hattempts, Attempt.attempts_outcome, hasked]
  split <;> rfl

end Tally

/-! ### A deployment that crashes when it is tried again -/

/-- A step that may be tried twice. -/
def deployment : Flow where
  steps := [("deploy", { spec := { bash := some "make deploy", retry := some 1 } })]

/-- The run of the deployment with an agent at which the first attempt fails. -/
def deploymentRun (g : Graph) : Walk :=
  (Timeline.run { graph := g } (fun _ attempt =>
    { answer := some (.response { exitCode := if attempt = 1 then 1 else 0 }) }) 0 none).walk

lemma deploymentRun_over : ∃ g, deployment.compile = .ok g ∧ Over (deploymentRun g) ∧
    g.tree.isLeaf 1 = true ∧
    ((Run.complete g (deploymentRun g)).job.step? (g.name 1)).map (·.status) = some .success :=
  Graph.exists_compiled (by cbv)

/-- As many attempts are recorded of a deployment that succeeds as the driver was asked. -/
theorem attempts_unless_crashed_deployment : ∃ g past, deployment.compile = .ok g ∧
    Course { graph := g } .any 0 past (deploymentRun g) ∧ Over (deploymentRun g) ∧
    g.tree.isLeaf 1 = true ∧
    ∃ r, (Run.complete g (deploymentRun g)).job.step? (g.name 1) = some r ∧ r.status = .success ∧
      r.attempts.toNat = asked past (deploymentRun g) 1 := by
  obtain ⟨g, hg, hover, hleaf, hstatus⟩ := deploymentRun_over
  obtain ⟨past, hpast⟩ : ∃ past, Course { graph := g } .any 0 past (deploymentRun g) :=
    exists_course (timeline_steps 0 none)
  obtain ⟨r, hr, hcases⟩ := attempts_unless_crashed (p := { graph := g }) hg hpast hover hleaf
  rw [show (Run.complete g (deploymentRun g)).job.step? (g.name 1) = some r from hr] at hstatus
  have hsuccess : r.status = .success := Option.some.inj hstatus
  refine ⟨g, past, hg, hpast, hover, hleaf, r, hr, hsuccess, ?_⟩
  rcases hcases with ⟨-, hskipped, -⟩ | ⟨step, attempt, e, -, htried, hattempts⟩
  · cases hsuccess.symm.trans hskipped
  · rw [hattempts, if_neg]
    intro hcrash
    have hfailure : r.status = (Attempt.outcome step attempt e).status :=
      congrArg (·.1) htried.noted
    rw [Attempt.status_of_crashes hcrash, hsuccess] at hfailure
    cases hfailure

/-- A driver at which the first attempt fails, and the next one crashes. -/
def crashingAgain : Driver := fun _ attempt e =>
  e = .answered (if attempt = 1 then .response { exitCode := 1 } else .crash "boom")

lemma deployment_compiled : ∃ g, deployment.compile = .ok g ∧ g.tree.isLeaf 0 = false ∧
    g.tree.isLeaf 1 = true ∧ g.size = 2 ∧ g.name 1 = "deploy" ∧
    (g.tree.resolve? 1 {}).map (·.maxAttempts) = some 2 :=
  Graph.exists_compiled (by cbv)

/-- A step that may be tried twice is tried twice then. -/
lemma crashingAgain_last {step : EffectiveStep} {attempt : UInt32} {e : AttemptEnd}
    {retries : List Event} (he : crashingAgain step attempt e)
    (hlast : Attempt.isRetried step attempt e = false) (hmost : step.maxAttempts = 2)
    (hretries : RetriesUpTo step attempt retries) :
    attempt = 2 ∧ e = .answered (.crash "boom") := by
  have hcases : attempt = 1 ∨ attempt = 2 := by
    have hle : attempt.toNat ≤ (2 : UInt32).toNat := hmost ▸ hretries.most
    have hpos := hretries.length
    rw [← UInt32.toNat_inj, ← UInt32.toNat_inj]
    show attempt.toNat = 1 ∨ attempt.toNat = 2
    change attempt.toNat ≤ 2 at hle
    omega
  rcases hcases with rfl | rfl
  · rw [he] at hlast
    simp [Attempt.isRetried, Attempt.outcome, Response.isSuccess, Outcome.status, hmost] at hlast
  · exact ⟨rfl, he⟩

/-- A deployment that crashes when it is tried again was asked for twice, and one attempt is recorded
and told. -/
theorem crash_forgets_attempts : ∃ g past w, deployment.compile = .ok g ∧
    Course { graph := g } crashingAgain 0 past w ∧ Over w ∧ g.tree.isLeaf 1 = true ∧
    asked past w 1 = 2 ∧
    ∃ r, (Run.complete g w).job.step? "deploy" = some r ∧ r.attempts = 1 ∧
      .stepFinished "deploy" r.status 1 r.error ∈ (Run.complete g w).events := by
  obtain ⟨g, hg, hroot, hleaf, hsize, hname, hmost⟩ := deployment_compiled
  have hsound := Graph.compile_sound hg
  obtain ⟨w, hsteps, hover⟩ : ∃ w, Steps { graph := g } crashingAgain (fresh g 0) w ∧ Over w :=
    exists_over hsound (fun step attempt => ⟨_, rfl⟩) (placed_fresh _ 0)
  obtain ⟨past, hpast⟩ := exists_course hsteps
  obtain ⟨r, hr, hcases⟩ := hpast.leaf_cases hg hover hleaf
  rcases hcases with
    ⟨-, hskipped, -⟩ | ⟨step, attempt, e, hasked, hstep, he, hlast, hnoted, retries, hretries, htold⟩
  · -- no other step stands before the deployment, so it is not skipped
    obtain ⟨hplaced, hrecorded⟩ := steps_recorded hg hsteps
    have hstatus : (Run.complete g w).job.stepStatus g 1 = some .skipped := by
      rw [Job.stepStatus_eq_some hr, hskipped]
    rw [complete_stepStatus (p := { graph := g }) hg hsteps hover hleaf,
      hrecorded.skipped_iff hg hplaced hover hleaf] at hstatus
    obtain ⟨-, k, ⟨hk, -⟩, hbefore⟩ := hstatus
    obtain ⟨hlt, -⟩ := hsound.lt_size_of_before hbefore
    rw [hsize] at hlt
    obtain rfl | rfl : k = 0 ∨ k = 1 := by omega
    · rw [hroot] at hk
      cases hk
    · exact absurd hbefore (hsound.irrefl 1)
  · have hmost' : step.maxAttempts = 2 := by simpa [hstep] using hmost
    obtain ⟨rfl, rfl⟩ := crashingAgain_last he hlast hmost' hretries
    have hone : r.attempts = 1 := congrArg (·.2.1) hnoted
    rw [hone] at htold
    have hmem : .stepFinished (g.name 1) r.status 1 r.error ∈
        told (Run.complete g w).events (g.name 1) := by
      rw [htold]
      simp
    rw [hname] at hr hmem
    exact ⟨g, past, w, hg, hpast, hover, hleaf, hasked, r, hr, hone, (mem_told.1 hmem).1⟩

end Walk

end StepFlow

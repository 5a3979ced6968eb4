import Mathlib
import StepFlow.Machine

/-!
Chains of transitions. Seen from outside a chain is a tree of visits: an action that was entered,
the actions entered inside its `accept`, and those entered inside its `onError` if it failed. The
machine, which keeps count of the actions inside each other and of the status entered last, calls
back along this tree, and at the end of the chain the hook of the action entered last, once.
-/

namespace StepFlow.Machine

variable {σ : Type}

/-! ### Registration -/

/-- What a machine is told before it runs. -/
inductive Registration (σ : Type) where
  | add (t : Transition) (a : Action σ)
  | hook (h : Callback σ) (targets : List String)

/-- The machine after a registration. An action that comes too late is not added. -/
def register (m : Machine σ) : Registration σ → Machine σ
  | .add t a =>
    match m.add t a with
    | .ok m => m
    | .error _ => m
  | .hook h targets => m.addHook h targets

/-- A machine with all its registrations. -/
def ofRegistrations (name : String) (rs : List (Registration σ)) : Machine σ :=
  rs.foldl register { name }

/-- The action that was added first for a transition. -/
def firstAction (t : Transition) : List (Registration σ) → Option (Action σ)
  | [] => none
  | .add u a :: rs => if u = t then some a else firstAction t rs
  | .hook _ _ :: rs => firstAction t rs

/-- The hook that was registered last for a status. -/
def lastHook (status : String) : List (Registration σ) → Option (Callback σ)
  | [] => none
  | .add _ _ :: rs => lastHook status rs
  | .hook h targets :: rs =>
    (lastHook status rs).or (if status ∈ targets then some h else none)

section Registration

variable (m : Machine σ) (t : Transition) (status : String)

lemma register_add (u : Transition) (a : Action σ) : m.register (.add u a) =
    if m.knows u then m else { m with actions := m.actions ++ [(u, a)] } := by
  simp only [register, add]
  by_cases hknown : m.knows u = true
  · simp [hknown]
  · simp [hknown]

lemma register_action? (r : Registration σ) :
    (m.register r).action? t = (m.action? t).or (firstAction t [r]) := by
  cases r with
  | hook h targets => simp [register, addHook, action?, firstAction]
  | add u a =>
    rw [register_add]
    by_cases hknown : m.knows u = true
    · rw [if_pos hknown]
      by_cases hut : u = t
      · subst hut
        obtain ⟨b, hb⟩ := Option.isSome_iff_exists.1 hknown
        simp [hb]
      · simp [firstAction, hut]
    · rw [if_neg hknown]
      simp only [action?, List.find?_append, firstAction]
      cases hfind : m.actions.find? fun b => b.1 = t with
      | none => by_cases hut : u = t <;> simp [hut]
      | some b => simp

lemma find?_hooks (h : Callback σ) (targets : List String) :
    (targets.map fun s => (s, h)).find? (fun b => b.1 = status) =
      if status ∈ targets then some (status, h) else none := by
  induction targets with
  | nil => rfl
  | cons s targets ih =>
    rw [List.map_cons, List.find?_cons, ih]
    by_cases hs : s = status
    · simp [hs]
    · simp [hs, Ne.symm hs]

lemma register_hook? (r : Registration σ) :
    (m.register r).hook? status = (lastHook status [r]).or (m.hook? status) := by
  cases r with
  | add u a =>
    rw [register_add]
    split
    · rfl
    · rfl
  | hook h targets =>
    simp only [register, addHook, hook?, List.find?_append, lastHook, find?_hooks,
      List.mem_reverse]
    split
    · rfl
    · rfl

theorem ofRegistrations_action? (name : String) (rs : List (Registration σ)) :
    (ofRegistrations name rs).action? t = firstAction t rs := by
  have hfold : ∀ (rs : List (Registration σ)) (m : Machine σ),
      (rs.foldl register m).action? t = (m.action? t).or (firstAction t rs) := by
    intro rs
    induction rs with
    | nil => simp [firstAction]
    | cons r rs ih =>
      intro m
      rw [List.foldl_cons, ih, register_action?, Option.or_assoc]
      congr 1
      cases r with
      | add u a =>
        simp only [firstAction]
        split <;> rfl
      | hook h targets => rfl
  exact hfold rs _

theorem ofRegistrations_hook? (name : String) (rs : List (Registration σ)) :
    (ofRegistrations name rs).hook? status = lastHook status rs := by
  have hfold : ∀ (rs : List (Registration σ)) (m : Machine σ),
      (rs.foldl register m).hook? status = (lastHook status rs).or (m.hook? status) := by
    intro rs
    induction rs with
    | nil => simp [lastHook]
    | cons r rs ih =>
      intro m
      rw [List.foldl_cons, ih, register_hook?, ← Option.or_assoc]
      congr 1
      cases r with
      | add u a => simp [lastHook]
      | hook h targets => rfl
  rw [ofRegistrations, hfold]
  exact Option.or_none

end Registration

/-! ### Visits -/

/-- A visit of an action: the actions visited inside its `accept` and, if that failed, those visited
inside its `onError`. -/
inductive Visit where
  | well (t : Transition) (inside : List Visit)
  | failed (t : Transition) (inside handling : List Visit)

namespace Visit

mutual

/-- What is called back during a visit: `accept` and `onFinally`, and `onError` if `accept`
failed. -/
def calls : Visit → List Call
  | .well t inside => .accept t :: (callsAll inside ++ [.finally_ t])
  | .failed t inside handling =>
    .accept t :: (callsAll inside ++ .exception t :: (callsAll handling ++ [.finally_ t]))

/-- What is called back during visits one after the other. -/
def callsAll : List Visit → List Call
  | [] => []
  | x :: xs => x.calls ++ callsAll xs

end

mutual

/-- The actions entered during a visit, in the order in which they are entered. -/
def entered : Visit → List Transition
  | .well t inside => t :: enteredAll inside
  | .failed t inside handling => t :: (enteredAll inside ++ enteredAll handling)

/-- The actions entered during visits one after the other. -/
def enteredAll : List Visit → List Transition
  | [] => []
  | x :: xs => x.entered ++ enteredAll xs

end

/-- The status that is settled on after visits: the target of the action entered last. -/
def settles (xs : List Visit) (before : Option String) : Option String :=
  ((enteredAll xs).getLast?.map (·.target)).or before

lemma callsAll_append (xs ys : List Visit) : callsAll (xs ++ ys) = callsAll xs ++ callsAll ys := by
  induction xs with
  | nil => rfl
  | cons x xs ih => rw [List.cons_append, callsAll, callsAll, ih, List.append_assoc]

lemma enteredAll_append (xs ys : List Visit) :
    enteredAll (xs ++ ys) = enteredAll xs ++ enteredAll ys := by
  induction xs with
  | nil => rfl
  | cons x xs ih => rw [List.cons_append, enteredAll, enteredAll, ih, List.append_assoc]

/-- The action whose `accept` was called. -/
def accepted? : Call → Option Transition
  | .accept t => some t
  | _ => none

/-- The status whose hook was called. -/
def hooked? : Call → Option String
  | .hook status _ _ => some status
  | _ => none

mutual

/-- The `accept` of every action that is entered is called once, in order, and no hook is. -/
theorem calls_once : ∀ x : Visit,
    x.calls.filterMap accepted? = x.entered ∧ x.calls.filterMap hooked? = []
  | .well t inside => by
    obtain ⟨haccept, hhook⟩ := callsAll_once inside
    rw [calls, entered, ← haccept]
    simp only [List.filterMap_cons, List.filterMap_append, List.filterMap_nil, accepted?, hooked?,
      hhook, List.append_nil, and_self]
  | .failed t inside handling => by
    obtain ⟨haccept, hhook⟩ := callsAll_once inside
    obtain ⟨haccept', hhook'⟩ := callsAll_once handling
    rw [calls, entered, ← haccept, ← haccept']
    simp only [List.filterMap_cons, List.filterMap_append, List.filterMap_nil, accepted?, hooked?,
      hhook, hhook', List.append_nil, and_self]

theorem callsAll_once : ∀ xs : List Visit,
    (callsAll xs).filterMap accepted? = enteredAll xs ∧ (callsAll xs).filterMap hooked? = []
  | [] => ⟨rfl, rfl⟩
  | x :: xs => by
    obtain ⟨haccept, hhook⟩ := calls_once x
    obtain ⟨haccept', hhook'⟩ := callsAll_once xs
    rw [callsAll, enteredAll, List.filterMap_append, List.filterMap_append, haccept, hhook,
      haccept', hhook']
    exact ⟨rfl, rfl⟩

end

lemma settles_append (xs ys : List Visit) (before : Option String) :
    settles (xs ++ ys) before = settles ys (settles xs before) := by
  unfold settles
  rw [enteredAll_append, List.getLast?_append, Option.map_or, Option.or_assoc]

/-- An action settles on its target, unless it visits others. -/
lemma settles_well (t : Transition) (inside : List Visit) (before : Option String) :
    settles [.well t inside] before = settles inside (some t.target) := by
  simp only [settles, enteredAll, entered, List.append_nil, List.getLast?_cons]
  cases (enteredAll inside).getLast? <;> rfl

lemma settles_failed (t : Transition) (inside handling : List Visit) (before : Option String) :
    settles [.failed t inside handling] before =
      settles handling (settles inside (some t.target)) := by
  rw [← settles_append]
  simp only [settles, enteredAll, entered, List.append_nil, List.getLast?_cons,
    ← enteredAll_append]
  cases (enteredAll (inside ++ handling)).getLast? <;> rfl

end Visit

/-- What is seen after a transition was asked for. -/
def ask (t : Transition) (v : View σ) : View σ :=
  { v with current := some t.source, target := some t.target }

mutual

/-- A transition is run from one view to another. A transition without an action, or whose action
may not run, only shows that it was asked for; all others visit their action. -/
inductive Executes (actions : Transition → Option (Action σ)) :
    Transition → View σ → List Visit → View σ → Prop
  | unknown {t : Transition} {v : View σ} (h : actions t = none) : Executes actions t v [] (ask t v)
  | refused {t : Transition} {v : View σ} {a : Action σ} (h : actions t = some a)
      (hrun : a.canRun (ask t v) = false) : Executes actions t v [] (ask t v)
  | well {t : Transition} {v v₁ v₂ : View σ} {a : Action σ} {inside : List Visit}
      (h : actions t = some a) (hrun : a.canRun (ask t v) = true)
      (haccept : Performs actions a.accept (ask t v) inside .done v₁)
      (hfinally : a.onFinally v₁ = (v₂, none)) : Executes actions t v [.well t inside] v₂
  | failed {t : Transition} {v v₁ v₂ v₃ : View σ} {a : Action σ} {inside handling : List Visit}
      {error : String} {ending : Ending} (h : actions t = some a)
      (hrun : a.canRun (ask t v) = true)
      (haccept : Performs actions a.accept (ask t v) inside (.failed error) v₁)
      (herror : Performs actions (a.onError error) v₁ handling ending v₂)
      (hfinally : a.onFinally v₂ = (v₃, none)) :
      Executes actions t v [.failed t inside handling] v₃

/-- A program is performed from one view to another, without a crash. -/
inductive Performs (actions : Transition → Option (Action σ)) :
    Program σ → View σ → List Visit → Ending → View σ → Prop
  | done {v : View σ} : Performs actions .done v [] .done v
  | fail {v : View σ} {error : String} : Performs actions (.fail error) v [] (.failed error) v
  | change {v v' : View σ} {f : View σ → View σ} {next : Program σ} {xs : List Visit}
      {ending : Ending} (h : Performs actions next (f v) xs ending v') :
      Performs actions (.change f next) v xs ending v'
  | look {v v' : View σ} {next : View σ → Program σ} {xs : List Visit} {ending : Ending}
      (h : Performs actions (next v) v xs ending v') :
      Performs actions (.look next) v xs ending v'
  | transit {v v₁ v' : View σ} {source target : String} {next : Program σ} {xs ys : List Visit}
      {ending : Ending} (h : Executes actions ⟨source, target⟩ v xs v₁)
      (hnext : Performs actions next v₁ ys ending v') :
      Performs actions (.transit source target next) v (xs ++ ys) ending v'

end

/-! ### Inside an action -/

section Nested

open Visit

variable {m : Machine σ} {run : Transition → Context σ → Option (Ran σ)}

/-- The context and the trail that visits leave behind inside an action. -/
structure Leaves (xs : List Visit) (c c' : Context σ) (trail : List Call) : Prop where
  trail : trail = callsAll xs
  depth : c'.depth = c.depth
  settled : c'.settled = settles xs c.settled

lemma Leaves.nil (c : Context σ) (v : View σ) : Leaves [] c { c with toView := v } [] :=
  ⟨rfl, rfl, rfl⟩

lemma Leaves.append {xs ys : List Visit} {c c₁ c' : Context σ} {trail trail' : List Call}
    (h : Leaves xs c c₁ trail) (h' : Leaves ys c₁ c' trail') :
    Leaves (xs ++ ys) c c' (trail ++ trail') := by
  refine ⟨?_, h'.depth.trans h.depth, ?_⟩
  · rw [callsAll_append, h.trail, h'.trail]
  · rw [settles_append, ← h.settled, h'.settled]

/-- `run` runs transitions inside an action as they are to be run. -/
def Nests (m : Machine σ) (run : Transition → Context σ → Option (Ran σ)) : Prop :=
  ∀ t c r, run t c = some r → 0 < c.depth → r.crash = none →
    ∃ xs, Executes m.action? t c.toView xs r.context.toView ∧ Leaves xs c r.context r.trail

/-- **A program inside an action** that does not crash visits what it asks for. -/
theorem perform_performs (hrun : Nests m run) {prog : Program σ} {c : Context σ}
    {q : Performed σ} (h : perform run prog c = some q) (hdepth : 0 < c.depth)
    (hend : ∀ cause, q.ending ≠ .crashed cause) :
    ∃ xs, Performs m.action? prog c.toView xs q.ending q.context.toView ∧
      Leaves xs c q.context q.trail := by
  induction prog generalizing c q with
  | done =>
    cases h
    exact ⟨[], .done, .nil c _⟩
  | fail error =>
    cases h
    exact ⟨[], .fail, .nil c _⟩
  | crash cause =>
    cases h
    exact absurd rfl (hend cause)
  | change f next ih =>
    obtain ⟨xs, hperforms, hleaves⟩ := ih h hdepth hend
    exact ⟨xs, .change hperforms, hleaves.trail, hleaves.depth, hleaves.settled⟩
  | look next ih =>
    obtain ⟨xs, hperforms, hleaves⟩ := ih c.toView h hdepth hend
    exact ⟨xs, .look hperforms, hleaves⟩
  | transit source target next ih =>
    rw [perform] at h
    cases hr : run ⟨source, target⟩ c with
    | none =>
      rw [hr] at h
      cases h
    | some r =>
      rw [hr] at h
      cases hcrash : r.crash with
      | some cause =>
        simp only [hcrash] at h
        cases h
        exact absurd rfl (hend cause)
      | none =>
        simp only [hcrash] at h
        obtain ⟨q', hq', rfl⟩ := Option.map_eq_some_iff.1 h
        obtain ⟨xs, hexecutes, hleaves⟩ := hrun _ c r hr hdepth hcrash
        obtain ⟨ys, hperforms, hleaves'⟩ := ih hq' (hleaves.depth ▸ hdepth) hend
        exact ⟨xs ++ ys, .transit hexecutes hperforms, hleaves.append hleaves'⟩

/-- What an action that did not crash did. -/
lemma runAction_eq_some {t : Transition} {a : Action σ} {c : Context σ} {r : Ran σ}
    (h : runAction run t a c = some r) (hcrash : r.crash = none) :
    ∃ q v, perform run a.accept c = some q ∧
      ((q.ending = .done ∧ a.onFinally q.context.toView = (v, none) ∧
        r.context = { q.context with toView := v } ∧
        r.trail = .accept t :: (q.trail ++ [.finally_ t])) ∨
      ∃ error q', q.ending = .failed error ∧
        perform run (a.onError error) q.context = some q' ∧
        (∀ cause, q'.ending ≠ .crashed cause) ∧
        a.onFinally q'.context.toView = (v, none) ∧
        r.context = { q'.context with toView := v } ∧
        r.trail = .accept t :: (q.trail ++ .exception t :: (q'.trail ++ [.finally_ t]))) := by
  unfold runAction call at h
  simp only [Option.bind_eq_bind, Option.bind_eq_some_iff] at h
  obtain ⟨⟨ending, after, trail⟩, hq, h⟩ := h
  cases ending with
  | crashed cause =>
    cases h
    cases hcrash
  | done =>
    cases h
    exact ⟨_, _, hq, .inl ⟨rfl, Prod.ext rfl hcrash, rfl, rfl⟩⟩
  | failed error =>
    obtain ⟨⟨ending', after', trail'⟩, hq', h⟩ := Option.bind_eq_some_iff.1 h
    cases ending' with
    | crashed cause =>
      cases h
      cases hcrash
    | done =>
      cases h
      refine ⟨_, _, hq, .inr ⟨error, _, rfl, hq', fun cause heq => (nomatch heq),
        Prod.ext rfl hcrash, rfl, ?_⟩⟩
      simp
    | failed error' =>
      cases h
      refine ⟨_, _, hq, .inr ⟨error, _, rfl, hq', fun cause heq => (nomatch heq),
        Prod.ext rfl hcrash, rfl, ?_⟩⟩
      simp

/-- **An action** that was entered and does not crash is visited. -/
theorem runAction_executes (hrun : Nests m run) {t : Transition} {a : Action σ} {v : View σ}
    {c : Context σ} {r : Ran σ} (h : runAction run t a c = some r) (hdepth : 0 < c.depth)
    (hcrash : r.crash = none) (ha : m.action? t = some a) (hcan : a.canRun (ask t v) = true)
    (hview : c.toView = ask t v) (hsettled : c.settled = some t.target) :
    ∃ x, Executes m.action? t v [x] r.context.toView ∧ r.trail = callsAll [x] ∧
      r.context.depth = c.depth ∧ ∀ before, r.context.settled = settles [x] before := by
  obtain ⟨q, u, hq, ⟨hdone, hfinally, hcontext, htrail⟩ |
    ⟨error, q', hfailed, hq', hend, hfinally, hcontext, htrail⟩⟩ := runAction_eq_some h hcrash
  · obtain ⟨inside, hperforms, hleaves⟩ :=
      perform_performs hrun hq hdepth fun cause heq => by simp [hdone] at heq
    rw [hview, hdone] at hperforms
    refine ⟨.well t inside, ?_, ?_, ?_, ?_⟩
    · rw [hcontext]
      exact .well ha hcan hperforms hfinally
    · rw [htrail, hleaves.trail, callsAll, callsAll, calls, List.append_nil]
    · rw [hcontext]
      exact hleaves.depth
    · intro before
      rw [hcontext, settles_well, ← hsettled]
      exact hleaves.settled
  · obtain ⟨inside, hperforms, hleaves⟩ :=
      perform_performs hrun hq hdepth fun cause heq => by simp [hfailed] at heq
    obtain ⟨handling, hperforms', hleaves'⟩ :=
      perform_performs hrun hq' (hleaves.depth ▸ hdepth) hend
    rw [hview, hfailed] at hperforms
    refine ⟨.failed t inside handling, ?_, ?_, ?_, ?_⟩
    · rw [hcontext]
      exact .failed ha hcan hperforms hperforms' hfinally
    · rw [htrail, hleaves.trail, hleaves'.trail, callsAll, callsAll, calls, List.append_nil]
    · rw [hcontext]
      exact hleaves'.depth.trans hleaves.depth
    · intro before
      rw [hcontext, settles_failed, ← hsettled, ← hleaves.settled]
      exact hleaves'.settled

end Nested

/-! ### Whole chains -/

section Chains

open Visit

variable {m : Machine σ}

/-- The context in which a transition is run: at the start of a chain nothing is left over from the
one before. -/
def begun (c : Context σ) : Context σ :=
  if c.depth = 0 then { c with skip := false, settled := none } else c

/-- The context and the trail when an action is left; with the outermost one the chain ends. -/
def leave (m : Machine σ) (r : Ran σ) : Ran σ :=
  let left : Context σ := { r.context with depth := r.context.depth - 1 }
  if r.crash.isSome || left.depth > 0 then { r with context := left }
  else { m.finishChain left with trail := r.trail ++ (m.finishChain left).trail }

/-- The context when an action is left. -/
def outside (c : Context σ) : Context σ := { c with depth := c.depth - 1 }

/-- When an action is left that is inside another, or that crashed, the chain is not ended. -/
lemma leave_goes_on (m : Machine σ) {r : Ran σ} (h : 1 < r.context.depth ∨ r.crash.isSome) :
    m.leave r = { r with context := outside r.context } := by
  rw [leave]
  refine if_pos ?_
  rw [Bool.or_eq_true, decide_eq_true_eq]
  exact h.symm.imp id Nat.sub_pos_of_lt

lemma leave_ends (m : Machine σ) {r : Ran σ} (h : ¬ (1 < r.context.depth ∨ r.crash.isSome)) :
    m.leave r = { m.finishChain (outside r.context) with
      trail := r.trail ++ (m.finishChain (outside r.context)).trail } := by
  rw [leave]
  refine if_neg fun hgoes => h ?_
  rw [Bool.or_eq_true, decide_eq_true_eq] at hgoes
  exact hgoes.symm.imp Nat.lt_of_sub_pos id

lemma execute_succ (limit : Nat) (t : Transition) (c : Context σ) : m.execute (limit + 1) t c =
    match m.action? t with
    | none => some ⟨{ begun c with toView := ask t (begun c).toView }, [], none⟩
    | some a =>
      if !a.canRun (ask t (begun c).toView) then
        some ⟨{ begun c with toView := ask t (begun c).toView }, [], none⟩
      else (runAction (m.execute limit) t a
        ⟨ask t (begun c).toView, (begun c).depth + 1, some t.target⟩).map m.leave := by
  rw [execute]
  cases m.action? t with
  | none => rfl
  | some a =>
    show (if !a.canRun (ask t (begun c).toView) then _ else _) =
      if !a.canRun (ask t (begun c).toView) then _ else _
    split
    · rfl
    · show Option.bind (runAction (m.execute limit) t a
        ⟨ask t (begun c).toView, (begun c).depth + 1, some t.target⟩) _ = Option.map _ _
      cases runAction (m.execute limit) t a
          ⟨ask t (begun c).toView, (begun c).depth + 1, some t.target⟩ with
      | none => rfl
      | some r =>
        show (if _ then _ else _) = some (if _ then _ else _)
        split
        · rfl
        · rfl

/-- A transition that was run is not entered, or its action was run and left. -/
lemma execute_cases {limit : Nat} {t : Transition} {c : Context σ} {r : Ran σ}
    (h : m.execute limit t c = some r) :
    (Executes m.action? t (begun c).toView [] (ask t (begun c).toView) ∧
      r = ⟨{ begun c with toView := ask t (begun c).toView }, [], none⟩) ∨
    ∃ fewer a r', limit = fewer + 1 ∧ m.action? t = some a ∧
      a.canRun (ask t (begun c).toView) = true ∧
      runAction (m.execute fewer) t a
        ⟨ask t (begun c).toView, (begun c).depth + 1, some t.target⟩ = some r' ∧ r = m.leave r' := by
  cases limit with
  | zero => cases h
  | succ fewer =>
    rw [execute_succ] at h
    cases ha : m.action? t with
    | none =>
      simp only [ha] at h
      cases h
      exact .inl ⟨.unknown ha, rfl⟩
    | some a =>
      simp only [ha] at h
      cases hcan : a.canRun (ask t (begun c).toView) with
      | false =>
        simp only [hcan] at h
        cases h
        exact .inl ⟨.refused ha hcan, rfl⟩
      | true =>
        simp only [hcan] at h
        obtain ⟨r', hr', rfl⟩ := Option.map_eq_some_iff.1 h
        exact .inr ⟨fewer, a, r', rfl, rfl, hcan, hr', rfl⟩

/-- A transition that does not crash is not entered, or its action is visited and left. -/
lemma execute_visits {limit : Nat} (hnests : Nests m (m.execute limit)) {t : Transition}
    {c : Context σ} {r : Ran σ} (h : m.execute (limit + 1) t c = some r) (hcrash : r.crash = none) :
    (Executes m.action? t (begun c).toView [] (ask t (begun c).toView) ∧
      r = ⟨{ begun c with toView := ask t (begun c).toView }, [], none⟩) ∨
    ∃ x r', Executes m.action? t (begun c).toView [x] r'.context.toView ∧
      r'.trail = callsAll [x] ∧ r'.context.depth = (begun c).depth + 1 ∧
      (∀ before, r'.context.settled = settles [x] before) ∧ r'.crash = none ∧ r = m.leave r' := by
  rcases execute_cases h with hnot | ⟨fewer, a, r', hlimit, ha, hcan, hr', rfl⟩
  · exact .inl hnot
  · cases hlimit
    have hcrash' : r'.crash = none := by
      cases hr : r'.crash with
      | none => rfl
      | some cause => simp [leave, hr] at hcrash
    obtain ⟨x, hexecutes, htrail, hdepth, hsettled⟩ :=
      runAction_executes hnests hr' (Nat.succ_pos _) hcrash' ha hcan rfl rfl
    exact .inr ⟨x, r', hexecutes, htrail, hdepth, hsettled, hcrash', rfl⟩

/-- **Inside an action** a transition that does not crash is run as it is to be run. -/
theorem execute_nests (m : Machine σ) (limit : Nat) : Nests m (m.execute limit) := by
  induction limit with
  | zero =>
    intro t c r h
    cases h
  | succ limit ih =>
    intro t c r h hdepth hcrash
    have hbegun : begun c = c := if_neg (by omega)
    have hvisits := execute_visits ih h hcrash
    rw [hbegun] at hvisits
    rcases hvisits with ⟨hexecutes, rfl⟩ | ⟨x, r', hexecutes, htrail, hdepth', hsettled, -, rfl⟩
    · exact ⟨[], hexecutes, .nil c _⟩
    · rw [leave_goes_on m (.inl (by omega))]
      refine ⟨[x], hexecutes, htrail, ?_, hsettled c.settled⟩
      show r'.context.depth - 1 = c.depth
      omega

/-- The end of a chain: the hook of the status it settled on runs, if there is one and hooks are not
skipped, and sees that status. -/
lemma finishChain_eq (m : Machine σ) {c : Context σ} {status : String}
    (hsettled : c.settled = some status) : m.finishChain c =
      match m.hook? status with
      | some h =>
        if c.skip then ⟨{ c with settled := none }, [], none⟩
        else ⟨{ c with
            toView := (h { c.toView with target := some status }).1
            settled := none }, [.hook status c.current (some status)],
          (h { c.toView with target := some status }).2⟩
      | none => ⟨{ c with settled := none }, [], none⟩ := by
  unfold finishChain
  simp only [hsettled]
  cases m.hook? status with
  | none =>
    split
    · rfl
    · rfl
  | some h =>
    split
    · rfl
    · rfl

lemma Visit.entered_ne_nil (x : Visit) : x.entered ≠ [] := by
  cases x with
  | well => simp [entered]
  | failed => simp [entered]

/-- A transition run from the outside enters nothing, or it visits its action and then the chain is
ended. -/
lemma execute_outermost {limit : Nat} {t : Transition} {c : Context σ} {r : Ran σ}
    (h : m.execute limit t c = some r) (hdepth : c.depth = 0) (hcrash : r.crash = none) :
    (Executes m.action? t { c.toView with skip := false } [] r.context.toView ∧ r.trail = []) ∨
    ∃ x e left, Executes m.action? t { c.toView with skip := false } [x] left.toView ∧
      x.entered.getLast? = some e ∧ left.settled = some e.target ∧
      r = { m.finishChain left with trail := callsAll [x] ++ (m.finishChain left).trail } := by
  have hbegun : begun c = { c with skip := false, settled := none } := if_pos hdepth
  cases limit with
  | zero => cases h
  | succ limit =>
    have hvisits := execute_visits (execute_nests m limit) h hcrash
    rw [hbegun] at hvisits
    rcases hvisits with
      ⟨hexecutes, rfl⟩ | ⟨x, r', hexecutes, htrail, hdepth', hsettled, hcrash', rfl⟩
    · exact .inl ⟨hexecutes, rfl⟩
    · obtain ⟨e, he⟩ : ∃ e, x.entered.getLast? = some e :=
        ⟨_, List.getLast?_eq_some_getLast (entered_ne_nil x)⟩
      refine .inr ⟨x, e, { r'.context with depth := r'.context.depth - 1 }, hexecutes, he, ?_, ?_⟩
      · refine (hsettled none).trans ?_
        rw [settles, enteredAll, enteredAll, List.append_nil, he]
        rfl
      · rw [← htrail]
        refine leave_ends m ?_
        simp [hcrash', hdepth', hdepth]

/-- **A chain**: a transition that is run from the outside and does not crash visits the actions
that are entered, each of which calls back `accept` once, then `onError` once if `accept` failed,
then `onFinally` once. If none is entered no hook runs; else the hook that was registered last for
the target of the action entered last runs, once, after all of these, and sees that target, if there
is such a hook and hooks are not skipped when the outermost action is over. -/
theorem execute_chain (name : String) (rs : List (Registration σ)) {limit : Nat} {t : Transition}
    {c : Context σ} {r : Ran σ} (hdepth : c.depth = 0)
    (hrun : (ofRegistrations name rs).execute limit t c = some r) (hcrash : r.crash = none) :
    ∃ xs v, Executes (fun u => firstAction u rs) t { c.toView with skip := false } xs v ∧
      (callsAll xs).filterMap accepted? = enteredAll xs ∧
      (callsAll xs).filterMap hooked? = [] ∧
      (enteredAll xs = [] → r.trail = [] ∧ r.context.toView = v) ∧
      ∀ e, (enteredAll xs).getLast? = some e →
        (∀ h, lastHook e.target rs = some h → v.skip = false →
          r.trail = callsAll xs ++ [.hook e.target v.current (some e.target)] ∧
          r.context.toView = (h { v with target := some e.target }).1) ∧
        (lastHook e.target rs = none ∨ v.skip = true →
          r.trail = callsAll xs ∧ r.context.toView = v) := by
  have hactions : (ofRegistrations name rs).action? = fun u => firstAction u rs :=
    funext fun u => ofRegistrations_action? u name rs
  rcases execute_outermost hrun hdepth hcrash with
    ⟨hexecutes, htrail⟩ | ⟨x, e, left, hexecutes, hlast, hsettled, rfl⟩
  · rw [hactions] at hexecutes
    refine ⟨[], _, hexecutes, rfl, rfl, fun _ => ⟨htrail, rfl⟩, ?_⟩
    intro e he
    cases he
  · rw [hactions] at hexecutes
    have hentered : enteredAll [x] = x.entered := by
      rw [enteredAll, enteredAll, List.append_nil]
    obtain ⟨hcalled, hhooked⟩ := callsAll_once [x]
    rw [finishChain_eq _ hsettled, ofRegistrations_hook?]
    refine ⟨[x], _, hexecutes, hcalled, hhooked, ?_, fun e' he' => ⟨?_, ?_⟩⟩
    · intro hnil
      exact absurd (hentered.symm.trans hnil) (entered_ne_nil x)
    · intro h hhook hskip
      rw [hentered, hlast] at he'
      cases he'
      simp [hhook, hskip]
    · intro hno
      rw [hentered, hlast] at he'
      cases he'
      rcases hno with hnone | hskip
      · simp [hnone]
      · cases hhook : lastHook e.target rs with
        | none => simp
        | some h => simp [hskip]

end Chains

/-! ### A redirect that fails -/

section Redirect

open Visit

/-- A machine that goes from "A" to "B" by way of "C", where the second action fails. The action
that comes too late and the first hook of "C" are never used. -/
def redirect : List (Registration Nat) :=
  [.add ⟨"A", "B"⟩ { accept := .transit "A" "C" .done },
    .add ⟨"A", "C"⟩ { accept := .fail "no way" },
    .add ⟨"A", "C"⟩ { accept := .crash "too late" },
    .hook (fun v => ({ v with data := 1 }, none)) ["B", "C"],
    .hook (fun v => ({ v with data := 2 }, none)) ["C"]]

lemma execute_redirect : (ofRegistrations "redirect" redirect).execute 3 ⟨"A", "B"⟩ { data := 0 } =
    some ⟨{ current := some "A", target := some "C", error := some "no way", data := 2 },
      [.accept ⟨"A", "B"⟩, .accept ⟨"A", "C"⟩, .exception ⟨"A", "C"⟩, .finally_ ⟨"A", "C"⟩,
        .finally_ ⟨"A", "B"⟩, .hook "C" (some "A") (some "C")], none⟩ := by
  cbv

theorem execute_chain_redirect : ∃ r xs v,
    (ofRegistrations "redirect" redirect).execute 3 ⟨"A", "B"⟩ { data := 0 } = some r ∧
    r.crash = none ∧ r.context.data = 2 ∧
    Executes (fun u => firstAction u redirect) ⟨"A", "B"⟩ { data := 0 } xs v ∧
    enteredAll xs = [⟨"A", "B"⟩, ⟨"A", "C"⟩] ∧
    r.trail = callsAll xs ++ [.hook "C" (some "A") (some "C")] := by
  obtain ⟨xs, v, hexecutes, hcalled, hhooked, hnone, hlast⟩ :=
    execute_chain "redirect" redirect rfl execute_redirect rfl
  refine ⟨_, xs, v, execute_redirect, rfl, rfl, hexecutes, ?_⟩
  cases he : (enteredAll xs).getLast? with
  | none =>
    cases (hnone (List.getLast?_eq_none_iff.1 he)).1
  | some e =>
    obtain ⟨hhook, hquiet⟩ := hlast e he
    by_cases hskip : lastHook e.target redirect = none ∨ v.skip = true
    · -- a hook did run
      rw [← (hquiet hskip).1] at hhooked
      cases hhooked
    · obtain ⟨hsome, hskip⟩ := not_or.1 hskip
      obtain ⟨h, hh⟩ := Option.ne_none_iff_exists'.1 hsome
      have htrail : [_, _, _, _, _] ++ [_] = callsAll xs ++ [_] :=
        (hhook h hh (by simpa using hskip)).1
      obtain ⟨hcalls, -⟩ := List.append_inj' htrail rfl
      rw [← hcalled, ← hcalls]
      exact ⟨rfl, rfl⟩

end Redirect

end StepFlow.Machine

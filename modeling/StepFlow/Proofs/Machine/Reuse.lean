import StepFlow.Proofs.Machine.Chain

/-!
Contexts that are used again. A transition leaves as many actions inside each other as it found, also
when it crashes, so a context that is not inside an action stays so whatever is run on it. And a
transition that is run from the outside starts anew: of what earlier chains left behind only the data
and the error matter to it (`execute_reused`).
-/

namespace StepFlow.Machine

variable {σ : Type}

/-- A context that was made, changed by its owner, and handed to transitions, which may have crashed. -/
inductive Used (m : Machine σ) : Context σ → Prop
  | new (data : σ) : Used m { data }
  | change {c : Context σ} (h : Used m c) (f : View σ → View σ) :
      Used m { c with toView := f c.toView }
  | execute {limit : Nat} {t : Transition} {c : Context σ} {r : Ran σ} (h : Used m c)
      (hrun : m.execute limit t c = some r) : Used m r.context

section Action

variable {run run' : Transition → Context σ → Option (Ran σ)} {prog : Program σ} {t : Transition}
  {a : Action σ} {c : Context σ} {q : Performed σ} {r : Ran σ}

/-- The first part of an action: `accept`, and `onError` if that failed. -/
def accepting (run : Transition → Context σ → Option (Ran σ)) (t : Transition) (a : Action σ)
    (c : Context σ) : Option (Performed σ) :=
  (perform run a.accept c).bind fun q =>
    match q.ending with
    | .failed e => (perform run (a.onError e) q.context).map fun p =>
        { p with trail := .accept t :: q.trail ++ .exception t :: p.trail }
    | _ => some { q with trail := .accept t :: q.trail }

/-- The rest of an action: `onFinally`, unless there was a crash. -/
def closing (t : Transition) (a : Action σ) (q : Performed σ) : Ran σ :=
  match q.ending with
  | .crashed cause => ⟨q.context, q.trail, some cause⟩
  | _ => ⟨(call a.onFinally q.context).1, q.trail ++ [.finally_ t], (call a.onFinally q.context).2⟩

lemma runAction_eq : runAction run t a c = (accepting run t a c).map (closing t a) := by
  unfold runAction accepting
  simp only [Option.bind_eq_bind, Option.pure_def]
  cases perform run a.accept c with
  | none => rfl
  | some q =>
    obtain ⟨ending, after, trail⟩ := q
    cases ending with
    | done => rfl
    | crashed cause => rfl
    | failed error =>
      simp only [Option.bind_some]
      cases perform run (a.onError error) after with
      | none => rfl
      | some p =>
        obtain ⟨ending, after, trail⟩ := p
        cases ending <;> rfl

/-! ### Depth -/

/-- **A program** leaves as many actions inside each other as it found, if its transitions do. -/
theorem perform_depth (hrun : ∀ t c r, run t c = some r → r.context.depth = c.depth)
    (h : perform run prog c = some q) : q.context.depth = c.depth := by
  induction prog generalizing c q with
  | done =>
    cases h
    rfl
  | fail error =>
    cases h
    rfl
  | crash cause =>
    cases h
    rfl
  | change f next ih => exact ih (c := { c with toView := f c.toView }) h
  | look next ih => exact ih c.toView h
  | transit source target next ih =>
    rw [perform] at h
    cases hr : run ⟨source, target⟩ c with
    | none =>
      rw [hr] at h
      cases h
    | some r =>
      have hdepth := hrun _ c r hr
      rw [hr] at h
      cases hcrash : r.crash with
      | some cause =>
        simp only [hcrash] at h
        cases h
        exact hdepth
      | none =>
        simp only [hcrash] at h
        obtain ⟨p, hp, rfl⟩ := Option.map_eq_some_iff.1 h
        exact (ih hp).trans hdepth

lemma accepting_depth (hrun : ∀ t c r, run t c = some r → r.context.depth = c.depth)
    (h : accepting run t a c = some q) : q.context.depth = c.depth := by
  obtain ⟨p, hp, h⟩ := Option.bind_eq_some_iff.1 h
  have hdepth := perform_depth hrun hp
  split at h
  · obtain ⟨p', hp', rfl⟩ := Option.map_eq_some_iff.1 h
    exact (perform_depth hrun hp').trans hdepth
  · cases h
    exact hdepth

lemma closing_depth (t : Transition) (a : Action σ) (q : Performed σ) :
    (closing t a q).context.depth = q.context.depth := by
  unfold closing
  split <;> rfl

lemma runAction_depth (hrun : ∀ t c r, run t c = some r → r.context.depth = c.depth)
    (h : runAction run t a c = some r) : r.context.depth = c.depth := by
  rw [runAction_eq] at h
  obtain ⟨q, hq, rfl⟩ := Option.map_eq_some_iff.1 h
  exact (closing_depth t a q).trans (accepting_depth hrun hq)

/-! ### Limits -/

/-- **A program** has the result that it has with fewer transitions that may be run. -/
theorem perform_mono (hrun : ∀ t c r, run t c = some r → run' t c = some r)
    (h : perform run prog c = some q) : perform run' prog c = some q := by
  induction prog generalizing c q with
  | done => exact h
  | fail error => exact h
  | crash cause => exact h
  | change f next ih => exact ih h
  | look next ih => exact ih c.toView h
  | transit source target next ih =>
    rw [perform] at h ⊢
    cases hr : run ⟨source, target⟩ c with
    | none =>
      rw [hr] at h
      cases h
    | some r =>
      rw [hr] at h
      rw [hrun _ c r hr]
      cases hcrash : r.crash with
      | some cause => simpa only [hcrash] using h
      | none =>
        simp only [hcrash] at h ⊢
        obtain ⟨p, hp, rfl⟩ := Option.map_eq_some_iff.1 h
        exact Option.map_eq_some_iff.2 ⟨p, ih hp, rfl⟩

lemma runAction_mono (hrun : ∀ t c r, run t c = some r → run' t c = some r)
    (h : runAction run t a c = some r) : runAction run' t a c = some r := by
  rw [runAction_eq] at h ⊢
  obtain ⟨q, hq, rfl⟩ := Option.map_eq_some_iff.1 h
  obtain ⟨p, hp, hq⟩ := Option.bind_eq_some_iff.1 hq
  refine Option.map_eq_some_iff.2 ⟨q, Option.bind_eq_some_iff.2 ⟨p, perform_mono hrun hp, ?_⟩, rfl⟩
  split at hq
  · obtain ⟨p', hp', rfl⟩ := Option.map_eq_some_iff.1 hq
    exact Option.map_eq_some_iff.2 ⟨p', perform_mono hrun hp', rfl⟩
  · exact hq

end Action

section Execute

variable {m : Machine σ} {t : Transition} {c c' : Context σ} {r r' : Ran σ} {limit limit' : Nat}

lemma begun_depth (c : Context σ) : (begun c).depth = c.depth := by
  unfold begun
  split <;> rfl

lemma finishChain_depth (m : Machine σ) (c : Context σ) :
    (m.finishChain c).context.depth = c.depth := by
  cases hsettled : c.settled with
  | none => simp only [finishChain, hsettled]
  | some status =>
    rw [finishChain_eq m hsettled]
    split
    · split <;> rfl
    · rfl

lemma leave_depth (m : Machine σ) (r : Ran σ) :
    (m.leave r).context.depth = r.context.depth - 1 := by
  simp only [leave]
  split
  · rfl
  · exact finishChain_depth m _

/-- **A transition**, be it run from the outside or inside an action, and be it that it crashes, leaves
as many actions inside each other as it found. -/
theorem execute_depth (h : m.execute limit t c = some r) : r.context.depth = c.depth := by
  induction limit generalizing t c r with
  | zero => cases h
  | succ limit ih =>
    rcases execute_cases h with ⟨-, rfl⟩ | ⟨fewer, a, r', hlimit, -, -, hr', rfl⟩
    · exact begun_depth c
    · cases hlimit
      have hinside := runAction_depth (fun _ _ _ => ih) hr'
      rw [leave_depth, hinside]
      exact begun_depth c

/-- A transition that has a result has the same with a greater limit. -/
lemma execute_succ_limit (h : m.execute limit t c = some r) :
    m.execute (limit + 1) t c = some r := by
  induction limit generalizing t c r with
  | zero => cases h
  | succ limit ih =>
    rw [execute_succ] at h ⊢
    cases ha : m.action? t with
    | none => simpa only [ha] using h
    | some a =>
      simp only [ha] at h ⊢
      split at h
      case isTrue hrefused => rw [if_pos hrefused, h]
      case isFalse hruns =>
        rw [if_neg hruns]
        obtain ⟨r', hr', rfl⟩ := Option.map_eq_some_iff.1 h
        exact Option.map_eq_some_iff.2 ⟨r', runAction_mono (fun _ _ _ => ih) hr', rfl⟩

lemma execute_mono (h : m.execute limit t c = some r) (hle : limit ≤ limit') :
    m.execute limit' t c = some r := by
  induction hle with
  | refl => exact h
  | step _ ih => exact execute_succ_limit ih

/-- No result depends on the limit. -/
theorem execute_unique (h : m.execute limit t c = some r) (h' : m.execute limit' t c = some r') :
    r = r' := by
  have hmost := execute_mono h (Nat.le_max_left limit limit')
  have hmost' := execute_mono h' (Nat.le_max_right limit limit')
  exact Option.some.inj (hmost.symm.trans hmost')

/-- **From the outside** a transition is run as on a new context with the same data and error. -/
theorem execute_of_outside (m : Machine σ) (limit : Nat) (t : Transition) (hdepth : c.depth = 0) :
    m.execute limit t c = m.execute limit t { data := c.data, error := c.error } := by
  cases limit with
  | zero => rfl
  | succ limit =>
    rw [execute_succ, execute_succ, begun, if_pos hdepth, begun, if_pos rfl]
    obtain ⟨v, depth, settled⟩ := c
    obtain rfl : depth = 0 := hdepth
    rfl

/-- A context that is not inside an action is never left inside one. -/
lemma Used.depth (h : m.Used c) : c.depth = 0 := by
  induction h with
  | new => rfl
  | change _ _ ih => exact ih
  | execute _ hrun ih => exact (execute_depth hrun).trans ih

/-- **A context may be used again.** Two contexts that are not inside an action and have the same data
and error are the same to a transition, whatever else earlier chains left in them: it has a result on
the one when it has it on the other, and then the same is called back in the same order, both return or
both crash for the same cause, and the contexts are the same afterwards. Every transition, also one that
is run inside an action, leaves its context as deep inside actions as it found it, whether it returns
or crashes; so a context is not inside an action whatever was run on it from the outside. -/
theorem execute_reused (m : Machine σ) (hc : c.depth = 0) (hc' : c'.depth = 0)
    (hdata : c.data = c'.data) (herror : c.error = c'.error) (t : Transition) :
    (∀ limit, m.execute limit t c = m.execute limit t c') ∧
    (∀ limit limit' r r', m.execute limit t c = some r → m.execute limit' t c' = some r' →
      r.trail = r'.trail ∧ r.crash = r'.crash ∧ r.context = r'.context) ∧
    (∀ limit u d r, m.execute limit u d = some r → r.context.depth = d.depth) ∧
    ∀ d, m.Used d → d.depth = 0 := by
  have hsame : ∀ limit, m.execute limit t c = m.execute limit t c' := by
    intro limit
    rw [execute_of_outside m limit t hc, execute_of_outside m limit t hc', hdata, herror]
  refine ⟨hsame, ?_, fun _ _ _ _ => execute_depth, fun _ => Used.depth⟩
  intro limit limit' r r' h h'
  rw [hsame] at h
  obtain rfl := execute_unique h h'
  exact ⟨rfl, rfl, rfl⟩

end Execute

/-! ### A delivery that crashes -/

/-- A machine that goes from "READY" to "SENT" by way of "PACKED", without hooks. Packing crashes when
there is nothing to pack. The hook of "PACKED" counts. -/
def delivery : Machine Nat where
  name := "delivery"
  actions :=
    [(⟨"READY", "SENT"⟩,
        { accept := .change (fun v => { v with skip := true }) (.transit "SENT" "PACKED" .done) }),
      (⟨"SENT", "PACKED"⟩,
        { accept := .look fun v => if v.data = 0 then .crash "nothing to pack" else .done })]
  hooks := [("PACKED", fun v => ({ v with data := v.data + 1 }, none))]

/-- What the crash leaves behind. -/
def crashed : Context Nat :=
  { current := some "SENT", target := some "PACKED", skip := true, settled := some "PACKED", data := 0 }

lemma delivery_crashes : delivery.execute 3 ⟨"READY", "SENT"⟩ { data := 0 } = some ⟨crashed,
    [.accept ⟨"READY", "SENT"⟩, .accept ⟨"SENT", "PACKED"⟩], some "nothing to pack"⟩ := by
  cbv

lemma delivery_packs : delivery.execute 2 ⟨"SENT", "PACKED"⟩ { data := 1 } = some
    ⟨{ current := some "SENT", target := some "PACKED", data := 2 },
      [.accept ⟨"SENT", "PACKED"⟩, .finally_ ⟨"SENT", "PACKED"⟩,
        .hook "PACKED" (some "SENT") (some "PACKED")], none⟩ := by
  cbv

/-- When there is something to pack, the context of a chain that crashed inside two actions, and was to
run no hook, is as good as a new one: the hook runs. -/
theorem execute_reused_delivery : ∃ r, delivery.Used { crashed with data := 1 } ∧
    delivery.execute 2 ⟨"SENT", "PACKED"⟩ { crashed with data := 1 } = some r ∧
    r.crash = none ∧ r.context.data = 2 := by
  have hused : delivery.Used crashed := .execute (.new 0) delivery_crashes
  have hoff : ({ crashed with data := 1 } : Context Nat).depth = 0 := rfl
  have hoff' : ({ data := 1 } : Context Nat).depth = 0 := rfl
  obtain ⟨hsame, -⟩ := execute_reused delivery hoff hoff' rfl rfl ⟨"SENT", "PACKED"⟩
  exact ⟨_, hused.change fun v => { v with data := 1 }, (hsame 2).trans delivery_packs, rfl, rfl⟩

end StepFlow.Machine

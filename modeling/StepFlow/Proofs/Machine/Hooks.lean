import StepFlow.Proofs.Machine.Reuse

/-!
What a hook sees of the chain that it ends. Every transition that is asked for is shown in the context,
also one that the machine does not know or whose action may not run. When the chain is over the target is
set once more, to the status that the chain settled on, but the current status is not: the hook sees the
target of the action entered last beside the source of the transition asked for last (`hook_sees`). These
belong to one transition unless requests that came to nothing followed the last action.
-/

namespace StepFlow

variable {σ : Type}

/-! ### Actions that leave the current status alone -/

/-- The program leaves alone what is seen as the current status. -/
def Program.KeepsCurrent : Program σ → Prop
  | .done | .fail _ | .crash _ => True
  | .change f next => (∀ v, (f v).current = v.current) ∧ KeepsCurrent next
  | .look next => ∀ v, KeepsCurrent (next v)
  | .transit _ _ next => KeepsCurrent next

/-- The action leaves alone what is seen as the current status. -/
structure Action.KeepsCurrent (a : Action σ) : Prop where
  accept : a.accept.KeepsCurrent
  onError : ∀ e, (a.onError e).KeepsCurrent
  onFinally : ∀ v, (a.onFinally v).1.current = v.current

lemma Action.KeepsCurrent.current_eq {a : Action σ} (h : a.KeepsCurrent) {v v' : View σ}
    {crash : Option String} (heq : a.onFinally v = (v', crash)) : v'.current = v.current := by
  have hkept := h.onFinally v
  rwa [heq] at hkept

namespace Machine

/-! ### Requests -/

/-- A transition that was asked for, and whether its action was entered. -/
structure Request where
  transition : Transition
  entered : Bool
  deriving DecidableEq, Repr

namespace Request

/-- The transition, if its action was entered. -/
def entered? (q : Request) : Option Transition := if q.entered then some q.transition else none

end Request

mutual

/-- A transition is run from one view to another, by way of requests in this order. The first is the
transition itself; the others are those of its action. -/
inductive Asks (actions : Transition → Option (Action σ)) :
    Transition → View σ → List Request → View σ → Prop
  | unknown {t : Transition} {v : View σ} (h : actions t = none) :
      Asks actions t v [⟨t, false⟩] (ask t v)
  | refused {t : Transition} {v : View σ} {a : Action σ} (h : actions t = some a)
      (hrun : a.canRun (ask t v) = false) : Asks actions t v [⟨t, false⟩] (ask t v)
  | well {t : Transition} {v v₁ v₂ : View σ} {a : Action σ} {inside : List Request}
      (h : actions t = some a) (hrun : a.canRun (ask t v) = true)
      (haccept : AsksIn actions a.accept (ask t v) inside .done v₁)
      (hfinally : a.onFinally v₁ = (v₂, none)) : Asks actions t v (⟨t, true⟩ :: inside) v₂
  | failed {t : Transition} {v v₁ v₂ v₃ : View σ} {a : Action σ} {inside handling : List Request}
      {error : String} {ending : Ending} (h : actions t = some a)
      (hrun : a.canRun (ask t v) = true)
      (haccept : AsksIn actions a.accept (ask t v) inside (.failed error) v₁)
      (herror : AsksIn actions (a.onError error) v₁ handling ending v₂)
      (hfinally : a.onFinally v₂ = (v₃, none)) :
      Asks actions t v (⟨t, true⟩ :: (inside ++ handling)) v₃

/-- A program is performed from one view to another, by way of requests in this order. -/
inductive AsksIn (actions : Transition → Option (Action σ)) :
    Program σ → View σ → List Request → Ending → View σ → Prop
  | done {v : View σ} : AsksIn actions .done v [] .done v
  | fail {v : View σ} {error : String} : AsksIn actions (.fail error) v [] (.failed error) v
  | change {v v' : View σ} {f : View σ → View σ} {next : Program σ} {qs : List Request}
      {ending : Ending} (h : AsksIn actions next (f v) qs ending v') :
      AsksIn actions (.change f next) v qs ending v'
  | look {v v' : View σ} {next : View σ → Program σ} {qs : List Request} {ending : Ending}
      (h : AsksIn actions (next v) v qs ending v') :
      AsksIn actions (.look next) v qs ending v'
  | transit {v v₁ v' : View σ} {source target : String} {next : Program σ} {qs qs' : List Request}
      {ending : Ending} (h : Asks actions ⟨source, target⟩ v qs v₁)
      (hnext : AsksIn actions next v₁ qs' ending v') :
      AsksIn actions (.transit source target next) v (qs ++ qs') ending v'

end

section Requests

open Visit

variable {actions : Transition → Option (Action σ)}

mutual

/-- A transition that is run asks for those that it enters, among others. -/
theorem Executes.asks {t : Transition} {v v' : View σ} {xs : List Visit} :
    Executes actions t v xs v' →
      ∃ qs, Asks actions t v qs v' ∧ qs.filterMap Request.entered? = enteredAll xs
  | .unknown h => ⟨_, .unknown h, rfl⟩
  | .refused h hrun => ⟨_, .refused h hrun, rfl⟩
  | .well h hrun haccept hfinally => by
    obtain ⟨inside, hasks, hentered⟩ := haccept.asks
    refine ⟨_, .well h hrun hasks hfinally, ?_⟩
    simp [Request.entered?, hentered, enteredAll, entered]
  | .failed h hrun haccept herror hfinally => by
    obtain ⟨inside, hasks, hentered⟩ := haccept.asks
    obtain ⟨handling, hasks', hentered'⟩ := herror.asks
    refine ⟨_, .failed h hrun hasks hasks' hfinally, ?_⟩
    simp [Request.entered?, hentered, hentered', enteredAll, entered]

theorem Performs.asks {prog : Program σ} {v v' : View σ} {xs : List Visit} {ending : Ending} :
    Performs actions prog v xs ending v' →
      ∃ qs, AsksIn actions prog v qs ending v' ∧ qs.filterMap Request.entered? = enteredAll xs
  | .done => ⟨[], .done, rfl⟩
  | .fail => ⟨[], .fail, rfl⟩
  | .change h => by
    obtain ⟨qs, hasks, hentered⟩ := h.asks
    exact ⟨qs, .change hasks, hentered⟩
  | .look h => by
    obtain ⟨qs, hasks, hentered⟩ := h.asks
    exact ⟨qs, .look hasks, hentered⟩
  | .transit h hnext => by
    obtain ⟨qs, hasks, hentered⟩ := h.asks
    obtain ⟨qs', hasks', hentered'⟩ := hnext.asks
    refine ⟨qs ++ qs', .transit hasks hasks', ?_⟩
    rw [List.filterMap_append, hentered, hentered', enteredAll_append]

end

end Requests

/-! ### The current status -/

/-- What is seen as the current status after requests: the source of the last one. -/
def shown (qs : List Request) (before : Option String) : Option String :=
  (qs.getLast?.map (·.transition.source)).or before

section Current

variable {actions : Transition → Option (Action σ)}

lemma shown_append (qs qs' : List Request) (before : Option String) :
    shown (qs ++ qs') before = shown qs' (shown qs before) := by
  unfold shown
  rw [List.getLast?_append, Option.map_or, Option.or_assoc]

lemma shown_cons (q : Request) (qs : List Request) (before : Option String) :
    shown (q :: qs) before = shown qs (some q.transition.source) :=
  shown_append [q] qs before

mutual

/-- The transition asked for last is the one that is seen, if the actions leave it alone. -/
theorem Asks.current (hkeeps : ∀ t a, actions t = some a → a.KeepsCurrent) {t : Transition}
    {v v' : View σ} {qs : List Request} :
    Asks actions t v qs v' → v'.current = shown qs v.current
  | .unknown _ => rfl
  | .refused _ _ => rfl
  | .well h _ haccept hfinally => by
    rw [shown_cons, (hkeeps _ _ h).current_eq hfinally]
    exact haccept.current hkeeps (hkeeps _ _ h).accept
  | .failed h _ haccept herror hfinally => by
    rw [shown_cons, shown_append, (hkeeps _ _ h).current_eq hfinally,
      herror.current hkeeps ((hkeeps _ _ h).onError _)]
    congr 1
    exact haccept.current hkeeps (hkeeps _ _ h).accept

theorem AsksIn.current (hkeeps : ∀ t a, actions t = some a → a.KeepsCurrent)
    {prog : Program σ} {v v' : View σ} {qs : List Request} {ending : Ending} :
    AsksIn actions prog v qs ending v' → prog.KeepsCurrent → v'.current = shown qs v.current
  | .done, _ => rfl
  | .fail, _ => rfl
  | .change h, hprog => by
    rw [h.current hkeeps hprog.2, hprog.1]
  | .look h, hprog => h.current hkeeps (hprog _)
  | .transit h hnext, hprog => by
    rw [hnext.current hkeeps hprog, h.current hkeeps, shown_append]

end

end Current

/-! ### Hooks -/

section Hooks

variable {m : Machine σ} {run : Transition → Context σ → Option (Ran σ)} {prog : Program σ}
  {t : Transition} {a : Action σ} {c : Context σ} {q : Performed σ} {r : Ran σ} {limit : Nat}

/-- No hook was called. -/
def Hookless (trail : List Call) : Prop := ∀ x ∈ trail, Visit.hooked? x = none

lemma Hookless.nil : Hookless [] := fun _ hx => nomatch hx

lemma Hookless.append {trail trail' : List Call} (h : Hookless trail) (h' : Hookless trail') :
    Hookless (trail ++ trail') := List.forall_mem_append.2 ⟨h, h'⟩

lemma Hookless.cons {x : Call} {trail : List Call} (hx : Visit.hooked? x = none)
    (h : Hookless trail) : Hookless (x :: trail) := List.forall_mem_cons.2 ⟨hx, h⟩

/-- `run` calls no hook inside an action, and leaves as many actions inside each other as it found. -/
structure Defers (run : Transition → Context σ → Option (Ran σ)) : Prop where
  hookless : ∀ t c r, run t c = some r → 0 < c.depth → Hookless r.trail
  depth : ∀ t c r, run t c = some r → r.context.depth = c.depth

lemma perform_hookless (hrun : Defers run) (h : perform run prog c = some q) (hdepth : 0 < c.depth) :
    Hookless q.trail := by
  induction prog generalizing c q with
  | done =>
    cases h
    exact .nil
  | fail error =>
    cases h
    exact .nil
  | crash cause =>
    cases h
    exact .nil
  | change f next ih => exact ih (c := { c with toView := f c.toView }) h hdepth
  | look next ih => exact ih c.toView h hdepth
  | transit source target next ih =>
    rw [perform] at h
    cases hr : run ⟨source, target⟩ c with
    | none =>
      rw [hr] at h
      cases h
    | some r =>
      have hfirst := hrun.hookless _ c r hr hdepth
      rw [hr] at h
      cases hcrash : r.crash with
      | some cause =>
        simp only [hcrash] at h
        cases h
        exact hfirst
      | none =>
        simp only [hcrash] at h
        obtain ⟨p, hp, rfl⟩ := Option.map_eq_some_iff.1 h
        exact hfirst.append (ih hp (hrun.depth _ c r hr ▸ hdepth))

lemma accepting_hookless (hrun : Defers run) (h : accepting run t a c = some q)
    (hdepth : 0 < c.depth) : Hookless q.trail := by
  obtain ⟨p, hp, h⟩ := Option.bind_eq_some_iff.1 h
  have haccept := perform_hookless hrun hp hdepth
  split at h
  · obtain ⟨p', hp', rfl⟩ := Option.map_eq_some_iff.1 h
    have herror := perform_hookless hrun hp' (perform_depth hrun.depth hp ▸ hdepth)
    exact (haccept.cons rfl).append (herror.cons rfl)
  · cases h
    exact haccept.cons rfl

/-- **An action** calls no hook, be it that it crashes. -/
lemma runAction_hookless (hrun : Defers run) (h : runAction run t a c = some r)
    (hdepth : 0 < c.depth) : Hookless r.trail := by
  rw [runAction_eq] at h
  obtain ⟨q, hq, rfl⟩ := Option.map_eq_some_iff.1 h
  have hcalled := accepting_hookless hrun hq hdepth
  unfold closing
  split
  · exact hcalled
  · exact hcalled.append (Hookless.nil.cons rfl)

/-- **Hooks wait**: inside an action no transition calls one. -/
theorem execute_defers (m : Machine σ) (limit : Nat) : Defers (m.execute limit) := by
  refine ⟨?_, fun _ _ _ => execute_depth⟩
  induction limit with
  | zero =>
    intro t c r h
    cases h
  | succ limit ih =>
    intro t c r h hdepth
    rcases execute_cases h with ⟨-, rfl⟩ | ⟨fewer, a, r', hlimit, -, -, hr', rfl⟩
    · exact .nil
    · cases hlimit
      have hinside := runAction_depth (fun _ _ _ => execute_depth) hr'
      have hbegun := begun_depth c
      rw [leave_goes_on m (.inl (by simp only at hinside; omega))]
      show Hookless r'.trail
      exact runAction_hookless ⟨ih, fun _ _ _ => execute_depth⟩ hr' (Nat.succ_pos _)

/-- At the end of a chain nothing is called but the hook of the status that it settled on. -/
lemma finishChain_trail (m : Machine σ) {status : String} (hsettled : c.settled = some status) :
    (m.finishChain c).trail = [] ∨
      (m.finishChain c).trail = [.hook status c.current (some status)] := by
  rw [finishChain_eq m hsettled]
  split
  · split
    · exact .inl rfl
    · exact .inr rfl
  · exact .inl rfl

/-- A hook is called only at the end of a chain, which no action crashed. -/
lemma execute_hooks {x : Call} (h : m.execute limit t c = some r) (hx : x ∈ r.trail)
    (hhook : Visit.hooked? x ≠ none) :
    c.depth = 0 ∧ ∃ xs e left, Executes m.action? t { c.toView with skip := false } xs left.toView ∧
      (Visit.enteredAll xs).getLast? = some e ∧ left.settled = some e.target ∧
      r.trail = Visit.callsAll xs ++ (m.finishChain left).trail ∧
      x ∈ (m.finishChain left).trail := by
  rcases execute_cases h with ⟨-, rfl⟩ | ⟨fewer, a, r', -, ha, hcan, hr', rfl⟩
  · cases hx
  · have hinside := runAction_hookless (execute_defers m fewer) hr' (Nat.succ_pos _)
    have hends : ¬ (1 < r'.context.depth ∨ r'.crash.isSome) := by
      intro hgoes
      rw [leave_goes_on m hgoes] at hx
      exact hhook (hinside x hx)
    obtain ⟨hdepth, hcrash⟩ := not_or.1 hends
    have hcrash' : r'.crash = none := by simpa using hcrash
    have hdepth' := runAction_depth (fun _ _ _ => execute_depth) hr'
    have houtside : c.depth = 0 := by
      have hbegun := begun_depth c
      simp only at hdepth'
      omega
    have hbegun : begun c = { c with skip := false, settled := none } := if_pos houtside
    obtain ⟨y, hexecutes, htrail, -, hsettled⟩ :=
      runAction_executes (execute_nests m fewer) hr' (Nat.succ_pos _) hcrash' ha hcan rfl rfl
    obtain ⟨e, he⟩ : ∃ e, (Visit.enteredAll [y]).getLast? = some e := by
      rw [Visit.enteredAll, Visit.enteredAll, List.append_nil]
      exact ⟨_, List.getLast?_eq_some_getLast (Visit.entered_ne_nil y)⟩
    rw [leave_ends m hends, List.mem_append] at hx
    rw [hbegun] at hexecutes
    refine ⟨houtside, [y], e, outside r'.context, hexecutes, he, ?_, ?_,
      hx.resolve_left fun hx => hhook (hinside x hx)⟩
    · refine (hsettled none).trans ?_
      rw [Visit.settles, he]
      rfl
    · rw [leave_ends m hends, htrail]

/-- **What a hook sees.** A hook runs only at the end of a chain that is run from the outside, as the
last thing that is called. The chain asked for transitions, some of which entered their action, the
action of `e` last, and left behind a view. The hook is the one of the target of `e`, and sees this
target beside the current status of the view. If no action changes the current status itself, that is
the source of the transition asked for last, be it entered or not; so the hook sees the transition `e`
exactly when the transition asked for last has the source of `e`, which is so in particular when the last
request was entered. -/
theorem hook_sees (m : Machine σ) {limit : Nat} {t : Transition} {c : Context σ} {r : Ran σ}
    {status : String} {seenCurrent seenTarget : Option String} (hrun : m.execute limit t c = some r)
    (hhook : .hook status seenCurrent seenTarget ∈ r.trail) :
    c.depth = 0 ∧ r.trail.getLast? = some (.hook status seenCurrent seenTarget) ∧
    ∃ qs v e last, Asks m.action? t { c.toView with skip := false } qs v ∧
      r.trail.filterMap Visit.accepted? = qs.filterMap Request.entered? ∧
      (qs.filterMap Request.entered?).getLast? = some e ∧ qs.getLast? = some last ∧
      status = e.target ∧ seenTarget = some e.target ∧ seenCurrent = v.current ∧
      ((∀ u a, m.action? u = some a → a.KeepsCurrent) →
        seenCurrent = some last.transition.source ∧
        ((seenCurrent, seenTarget) = (some e.source, some e.target) ↔
          last.transition.source = e.source) ∧
        (last.entered = true → (seenCurrent, seenTarget) = (some e.source, some e.target))) := by
  obtain ⟨houtside, xs, e, left, hexecutes, hlast, hsettled, htrail, hx⟩ :=
    execute_hooks hrun hhook nofun
  obtain ⟨qs, hasks, hentered⟩ := hexecutes.asks
  rw [← hentered] at hlast
  obtain ⟨last, hmost⟩ : ∃ last, qs.getLast? = some last := by
    refine ⟨_, List.getLast?_eq_some_getLast ?_⟩
    rintro rfl
    cases hlast
  have hend : (m.finishChain left).trail = [.hook e.target left.current (some e.target)] := by
    refine (finishChain_trail m hsettled).resolve_left fun hnil => ?_
    rw [hnil] at hx
    cases hx
  rw [hend, List.mem_singleton] at hx
  cases hx
  rw [hend] at htrail
  refine ⟨houtside, ?_, qs, left.toView, e, last, hasks, ?_, hlast, hmost, rfl, rfl, rfl,
    fun hkeeps => ?_⟩
  · rw [htrail]
    exact List.getLast?_concat
  · rw [htrail, List.filterMap_append, (Visit.callsAll_once xs).1, hentered]
    exact List.append_nil _
  · have hshown : left.current = some last.transition.source := by
      rw [hasks.current hkeeps, shown, hmost]
      rfl
    refine ⟨hshown, ?_, fun hin => ?_⟩
    · rw [hshown, Prod.mk.injEq, Option.some.injEq]
      exact and_iff_left rfl
    · -- the last request is the last of those that were entered
      obtain ⟨before, rfl⟩ := List.getLast?_eq_some_iff.1 hmost
      rw [List.filterMap_append, List.getLast?_append] at hlast
      have he : last.transition = e := by simpa [Request.entered?, hin] using hlast
      rw [hshown, he]

end Hooks

/-! ### A request that comes to nothing -/

/-- A machine that goes from "OPEN" to "MERGED". The action asks for a transition that the machine does
not know. -/
def review : Machine Nat where
  name := "review"
  actions := [(⟨"OPEN", "MERGED"⟩, { accept := .transit "DRAFT" "OPEN" .done })]
  hooks := [("MERGED", fun v => ({ v with data := v.data + 1 }, none))]

lemma execute_review : review.execute 2 ⟨"OPEN", "MERGED"⟩ { data := 0 } = some
    ⟨{ current := some "DRAFT", target := some "MERGED", data := 1 },
      [.accept ⟨"OPEN", "MERGED"⟩, .finally_ ⟨"OPEN", "MERGED"⟩,
        .hook "MERGED" (some "DRAFT") (some "MERGED")], none⟩ := by
  cbv

lemma review_keeps (u : Transition) (a : Action Nat) (ha : review.action? u = some a) :
    a.KeepsCurrent := by
  obtain ⟨b, hb, rfl⟩ := Option.map_eq_some_iff.1 ha
  obtain rfl := List.mem_singleton.1 (List.mem_of_find?_eq_some hb)
  exact ⟨trivial, fun _ => ⟨fun _ => rfl, trivial⟩, fun _ => rfl⟩

/-- The transition that the hook of "MERGED" sees was never run: the action that was entered goes from
"OPEN" to "MERGED". -/
theorem hook_sees_no_transition : ∃ r,
    review.execute 2 ⟨"OPEN", "MERGED"⟩ { data := 0 } = some r ∧
    .hook "MERGED" (some "DRAFT") (some "MERGED") ∈ r.trail ∧
    r.trail.filterMap Visit.accepted? = [⟨"OPEN", "MERGED"⟩] ∧
    ∀ e ∈ r.trail.filterMap Visit.accepted?,
      (some "DRAFT", some "MERGED") ≠ (some e.source, some e.target) := by
  refine ⟨_, execute_review, ?_, rfl, ?_⟩
  · simp
  · decide

/-- The last request was for a transition from "DRAFT", and it came to nothing. -/
theorem hook_sees_review : ∃ r qs v last,
    review.execute 2 ⟨"OPEN", "MERGED"⟩ { data := 0 } = some r ∧
    .hook "MERGED" (some "DRAFT") (some "MERGED") ∈ r.trail ∧
    Asks review.action? ⟨"OPEN", "MERGED"⟩ { data := 0 } qs v ∧
    qs.filterMap Request.entered? = [⟨"OPEN", "MERGED"⟩] ∧ qs.getLast? = some last ∧
    last.transition.source = "DRAFT" ∧ last.entered = false := by
  have hhook : .hook "MERGED" (some "DRAFT") (some "MERGED") ∈ [.accept ⟨"OPEN", "MERGED"⟩,
      .finally_ ⟨"OPEN", "MERGED"⟩, Call.hook "MERGED" (some "DRAFT") (some "MERGED")] := by
    simp
  obtain ⟨-, -, qs, v, e, last, hasks, hentered, hlast, hmost, -, -, -, hkeeps⟩ :=
    hook_sees review execute_review hhook
  obtain ⟨hsource, -, hin⟩ := hkeeps review_keeps
  refine ⟨_, qs, v, last, execute_review, hhook, hasks, hentered.symm, hmost,
    (Option.some.inj hsource).symm, ?_⟩
  rw [← hentered] at hlast
  cases hlast
  exact Bool.eq_false_iff.2 fun hlast => absurd (hin hlast) (by decide)

end Machine

end StepFlow

import StepFlow.Proofs.Walk.Story

/-!
Steps left behind. When a job ends before its walk does, every leaf that is being run takes the status
of the end, every leaf to come is skipped, which is told, and all others stay as they are; a job whose
leaves are all over leaves nothing behind.
-/

namespace StepFlow

namespace Run

open Lifecycle (Data finishes)

/-! ### Leaves brought to an end -/

/-- The record of a leaf that is brought to an end. -/
def abandonRecord (now : Time) (status : StepStatus) (reason : String) (r : StepRecord) :
    StepRecord :=
  match r.status with
  | .running => r.finish now status (if r.attempts = 0 then 1 else r.attempts) (some reason)
  | .pending => r.skip now reason
  | _ => r

/-- Data in which some leaves were brought to an end, and all else is as it was. -/
structure Abandoned (g : Graph) (status : StepStatus) (reason : String) (leaves : List Nat)
    (d d' : Data) : Prop where
  job : d'.job.status = d.job.status
  now : d'.now = d.now
  labels : d'.job.steps.map StepRecord.label = d.job.steps.map StepRecord.label
  events : ∃ skips, d'.events = d.events ++ skips ∧
    ∀ e ∈ skips, ∃ k ∈ leaves, e = .stepSkipped (g.name k) reason
  record : ∀ i, g.tree.isStep i = true → d'.job.step? (g.name i) =
    if i ∈ leaves then (d.job.step? (g.name i)).map (abandonRecord d.now status reason)
    else d.job.step? (g.name i)
  told : ∀ i, g.tree.isStep i = true → told d'.events (g.name i) =
    told d.events (g.name i) ++
      if i ∈ leaves ∧ d.job.stepStatus g i = some .pending then [.stepSkipped (g.name i) reason]
      else []

section Abandoned

variable {f : Flow} {g : Graph} {status : StepStatus} {reason : String} {d d' d'' : Data}
  {leaves : List Nat} {i k : Nat} {r : StepRecord}

lemma abandonRecord_running (now : Time) (h : r.status = .running) :
    abandonRecord now status reason r =
      r.finish now status (if r.attempts = 0 then 1 else r.attempts) (some reason) := by
  unfold abandonRecord
  rw [h]

lemma abandonRecord_pending (now : Time) (h : r.status = .pending) :
    abandonRecord now status reason r = r.skip now reason := by
  unfold abandonRecord
  rw [h]

lemma abandonRecord_over (now : Time) (h : r.status.isTerminal = true) :
    abandonRecord now status reason r = r := by
  unfold abandonRecord
  split
  case h_1 hs => rw [hs] at h; cases h
  case h_2 hs => rw [hs] at h; cases h
  case h_3 => rfl

lemma abandonRecord_isTerminal (now : Time) (hstatus : status.isTerminal = true) (r : StepRecord) :
    (abandonRecord now status reason r).status.isTerminal = true := by
  unfold abandonRecord
  split
  case h_1 => exact hstatus
  case h_2 => rfl
  case h_3 hrunning hpending => cases hs : r.status <;> first | rfl | exact absurd hs ‹_›

/-- The record of one leaf is changed, and what has to be told is told. -/
lemma abandoned_change (hg : f.compile = .ok g) (hk : g.tree.isStep k = true)
    {change : StepRecord → StepRecord} (hjob : d'.job = d.job.updateNode g k change)
    (hnow : d'.now = d.now)
    (hevents : d'.events = d.events ++ if d.job.stepStatus g k = some .pending then
      [.stepSkipped (g.name k) reason] else [])
    (hlabel : ∀ r, (change r).label = r.label)
    (hchange : ∀ r, d.job.step? (g.name k) = some r →
      change r = abandonRecord d.now status reason r) : Abandoned g status reason [k] d d' where
  job := by rw [hjob, Job.updateNode_status]
  now := hnow
  labels := by rw [hjob, Job.map_updateNode hlabel]
  events := by
    refine ⟨_, hevents, fun e he => ⟨k, List.mem_singleton_self k, ?_⟩⟩
    split at he
    · exact List.mem_singleton.1 he
    · cases he
  record := by
    intro i hi
    rw [hjob, Job.step?_updateNode hg hi hk fun r => congrArg Prod.fst (hlabel r)]
    simp only [List.mem_singleton]
    split
    case isTrue hik =>
      subst hik
      cases hr : d.job.step? (g.name i) with
      | none => rfl
      | some r => exact congrArg some (hchange r hr)
    case isFalse => rfl
  told := by
    intro i hi
    rw [hevents, told, List.filter_append]
    refine congrArg (told d.events (g.name i) ++ ·) ?_
    by_cases hik : i = k
    · subst hik
      by_cases hpending : d.job.stepStatus g i = some .pending
      · simp [hpending, Event.step?]
      · simp [hpending]
    · have hne : g.name k ≠ g.name i := fun h => hik ((Graph.compile_name_inj hg hk hi).1 h).symm
      have hnot : ¬ (i ∈ [k] ∧ d.job.stepStatus g i = some .pending) :=
        fun h => hik (List.mem_singleton.1 h.1)
      rw [if_neg hnot]
      split <;> simp [Event.step?, hne]

/-- One leaf is brought to an end. -/
lemma abandoned_leaf (hg : f.compile = .ok g) (hk : g.tree.isStep k = true) :
    Abandoned g status reason [k] d (abandonLeaf g status reason d k) := by
  unfold abandonLeaf
  split
  case h_1 hs =>
    replace hs : d.job.stepStatus g k = some .running := hs
    refine abandoned_change hg hk rfl rfl (by simp [hs]) (fun _ => rfl) fun r hr => ?_
    rw [Job.stepStatus_eq_some hr, Option.some.injEq] at hs
    exact (abandonRecord_running d.now hs).symm
  case h_2 hs =>
    replace hs : d.job.stepStatus g k = some .pending := hs
    refine abandoned_change hg hk rfl rfl (by simp [hs]) (fun _ => rfl) fun r hr => ?_
    rw [Job.stepStatus_eq_some hr, Option.some.injEq] at hs
    exact (abandonRecord_pending d.now hs).symm
  case h_3 hrunning hpending =>
    replace hrunning : d.job.stepStatus g k ≠ some .running := hrunning
    replace hpending : d.job.stepStatus g k ≠ some .pending := hpending
    have hsame : d.job = d.job.updateNode g k fun r => r := by simp [Job.updateNode, Job.update]
    refine abandoned_change hg hk hsame rfl (by simp [hpending]) (fun _ => rfl) fun r hr => ?_
    rw [Job.stepStatus_eq_some hr, ne_eq, Option.some.injEq] at hrunning hpending
    refine (abandonRecord_over d.now ?_).symm
    cases hs : r.status <;> first | rfl | contradiction

/-- Nothing is told of the end of the job. -/
lemma Abandoned.finishes (h : Abandoned g status reason leaves d d') :
    finishes d'.events = finishes d.events := by
  obtain ⟨skips, heq, hskips⟩ := h.events
  have hnone : Lifecycle.finishes skips = [] := by
    refine List.filterMap_eq_nil_iff.2 fun e he => ?_
    obtain ⟨k, -, rfl⟩ := hskips e he
    rfl
  rw [heq, Lifecycle.finishes_append, hnone, List.append_nil]

/-- Leaves that are over are left as they are. -/
lemma abandoned_of_over (hover : ∀ i ∈ leaves, ∀ r, d.job.step? (g.name i) = some r →
    r.status.isTerminal = true) : Abandoned g status reason leaves d d where
  job := rfl
  now := rfl
  labels := rfl
  events := ⟨[], (List.append_nil _).symm, fun e he => nomatch he⟩
  record := by
    intro i hi
    split
    case isTrue hmem =>
      cases hr : d.job.step? (g.name i) with
      | none => rfl
      | some r => exact congrArg some (abandonRecord_over d.now (hover i hmem r hr)).symm
    case isFalse => rfl
  told := by
    intro i hi
    rw [if_neg, List.append_nil]
    rintro ⟨hmem, hpending⟩
    obtain ⟨r, hr, hs⟩ := Option.map_eq_some_iff.1 hpending
    have hterminal := hover i hmem r hr
    rw [hs] at hterminal
    cases hterminal

/-- Leaves are brought to an end one after the other. -/
lemma Abandoned.cons {ks : List Nat} (h : Abandoned g status reason [k] d d')
    (h' : Abandoned g status reason ks d' d'') (hk : k ∉ ks) :
    Abandoned g status reason (k :: ks) d d'' where
  job := h'.job.trans h.job
  now := h'.now.trans h.now
  labels := h'.labels.trans h.labels
  events := by
    obtain ⟨skips, heq, hskips⟩ := h.events
    obtain ⟨skips', heq', hskips'⟩ := h'.events
    refine ⟨skips ++ skips', by rw [heq', heq, List.append_assoc], fun e he => ?_⟩
    rcases List.mem_append.1 he with he | he
    · obtain ⟨l, hl, rfl⟩ := hskips e he
      exact ⟨l, List.mem_cons.2 (.inl (List.mem_singleton.1 hl)), rfl⟩
    · obtain ⟨l, hl, rfl⟩ := hskips' e he
      exact ⟨l, List.mem_cons_of_mem _ hl, rfl⟩
  record := by
    intro i hi
    rw [h'.record i hi, h.record i hi, h.now]
    by_cases hik : i = k
    · subst hik
      simp [hk]
    · simp [hik]
  told := by
    intro i hi
    rw [h'.told i hi, h.told i hi]
    by_cases hik : i = k
    · subst hik
      simp [hk]
    · have hsame : d'.job.stepStatus g i = d.job.stepStatus g i := by
        rw [Job.stepStatus, h.record i hi, if_neg (by simpa using hik), Job.stepStatus]
      simp [hik, hsame]

lemma mem_leaves (hg : f.compile = .ok g) (hi : g.tree.isLeaf i = true) :
    i ∈ (List.range g.size).filter g.tree.isLeaf := by
  have hlt := ((Graph.compile_isStep_iff hg).1 (Graph.isStep_of_isLeaf hi)).2
  exact List.mem_filter.2 ⟨List.mem_range.2 hlt, hi⟩

/-- **What is left behind** is brought to an end, leaf by leaf. -/
theorem abandoned_abandon (hg : f.compile = .ok g) (status : StepStatus) (reason : String)
    (d : Data) : Abandoned g status reason ((List.range g.size).filter g.tree.isLeaf) d
      (abandon g status reason d) := by
  have hleaves : ∀ k ∈ (List.range g.size).filter g.tree.isLeaf, g.tree.isStep k = true :=
    fun k hk => Graph.isStep_of_isLeaf (List.mem_filter.1 hk).2
  have hnodup : ((List.range g.size).filter g.tree.isLeaf).Nodup := List.nodup_range.filter _
  unfold abandon
  revert hleaves hnodup
  induction (List.range g.size).filter g.tree.isLeaf generalizing d with
  | nil => exact fun _ _ => abandoned_of_over (List.forall_mem_nil _)
  | cons k ks ih =>
    intro hleaves hnodup
    obtain ⟨hk, hnodup'⟩ := List.nodup_cons.1 hnodup
    exact (abandoned_leaf hg (hleaves k List.mem_cons_self)).cons
      (ih _ (fun x hx => hleaves x (List.mem_cons_of_mem _ hx)) hnodup') hk

/-! ### Closing the job -/

/-- What becomes of the record of a leaf. -/
lemma Abandoned.close_step? (hg : f.compile = .ok g) {target : JobStatus}
    (h : Abandoned g status reason ((List.range g.size).filter g.tree.isLeaf) d d')
    (hjob : d'.job.status = .running) (htarget : Lifecycle.leads .running target = true)
    (hi : g.tree.isLeaf i = true) : (close g target d').job.step? (g.name i) =
      (d.job.step? (g.name i)).map (abandonRecord d.now status reason) := by
  rw [Run.close_step? target hg hjob htarget hi, h.record i (Graph.isStep_of_isLeaf hi),
    if_pos (mem_leaves hg hi)]

/-- What is told of a leaf. -/
lemma Abandoned.close_told (hg : f.compile = .ok g) {target : JobStatus}
    (h : Abandoned g status reason ((List.range g.size).filter g.tree.isLeaf) d d')
    (hjob : d'.job.status = .running) (htarget : Lifecycle.leads .running target = true)
    (hi : g.tree.isLeaf i = true) : StepFlow.told (close g target d').events (g.name i) =
      StepFlow.told d.events (g.name i) ++
        if d.job.stepStatus g i = some .pending then [.stepSkipped (g.name i) reason] else [] := by
  rw [(close_running target hjob htarget).2.2, told_concat, if_neg (by simp [Event.step?]),
    h.told i (Graph.isStep_of_isLeaf hi)]
  simp [mem_leaves hg hi]

end Abandoned

end Run

end StepFlow

import StepFlow.Proofs.Job.Untimed

/-!
The records of stages. When the stages of a job are settled, each takes its record from the records
that the steps right inside it have in the end. So whatever holds of the leaves and passes from the
steps inside a stage to the stage holds of all steps: a stage that stands against the success of the
job has a leaf somewhere inside that does, every stage is over when the leaves are, and no stage is
skipped if nothing was.
-/

namespace StepFlow

/-! ### From the inside out -/

namespace Tree

variable {f : Flow} {t : Tree} {i c : Nat}

/-- The steps inside a stage come after it. -/
lemma build_mem_children (h : build f = .ok t) (hc : c ∈ t.children i) :
    i < c ∧ c < t.size ∧ t.isStep c = true := by
  have hparent : t.parent? c = some i := of_decide_eq_true (List.mem_filter.1 hc).2
  obtain ⟨hlt, hsize⟩ := build_parent_lt h hparent
  refine ⟨hlt, hsize, ?_⟩
  rw [isStep, hparent]
  rfl

/-- What holds of a step when it holds of the steps right inside it holds of every step. -/
theorem inside_out (h : build f = .ok t) {P : Nat → Prop}
    (hP : ∀ i, t.isStep i = true → (∀ c ∈ t.children i, P c) → P i) (hi : t.isStep i = true) :
    P i := by
  induction hn : t.size - i using Nat.strong_induction_on generalizing i with
  | _ n ih =>
    refine hP i hi fun c hc => ?_
    obtain ⟨hlt, hsize, hstep⟩ := build_mem_children h hc
    exact ih (t.size - c) (by omega) hstep rfl

end Tree

/-! ### The records of all steps -/

namespace Job

/-- The job has the records of a new job, whatever became of them since. -/
def Labelled (g : Graph) (j : Job) : Prop :=
  j.steps.map StepRecord.label = (ofGraph g).steps.map StepRecord.label

section Labelled

variable {f : Flow} {g : Graph} {j : Job} {i k : Nat} {r : StepRecord}

lemma Labelled.updateNode (h : Labelled g j) {change : StepRecord → StepRecord}
    (hlabel : ∀ r, (change r).label = r.label) : Labelled g (j.updateNode g k change) :=
  (map_updateNode hlabel).trans h

lemma Labelled.names (h : Labelled g j) :
    j.steps.map (·.name) = (ofGraph g).steps.map (·.name) := by
  have hfst := congrArg (List.map Prod.fst) h
  rwa [List.map_map, List.map_map] at hfst

/-- Every step has a record, which says whether it is allowed to fail. -/
theorem Labelled.exists_step? (hg : f.compile = .ok g) (h : Labelled g j)
    (hi : g.tree.isStep i = true) : ∃ n r, g.tree.node? i = some n ∧
      j.step? (g.name i) = some r ∧ r.allowFailure = n.allowFailure := by
  obtain ⟨n, hn, hnew⟩ := step?_ofGraph hg hi
  have hfind : ∀ j : Job, (j.step? (g.name i)).map StepRecord.label =
      (j.steps.map StepRecord.label).find? fun l => l.1 = g.name i := by
    intro j
    rw [List.find?_map]
    rfl
  have hlabel : (j.step? (g.name i)).map StepRecord.label = some (StepRecord.ofNode n).label := by
    rw [hfind, h, ← hfind, hnew]
    rfl
  obtain ⟨r, hr, heq⟩ := Option.map_eq_some_iff.1 hlabel
  exact ⟨n, r, hn, hr, congrArg (·.2.2) heq⟩

lemma Labelled.status_ne_none (hg : f.compile = .ok g) (h : Labelled g j)
    (hi : g.tree.isStep i = true) : j.stepStatus g i ≠ none := by
  obtain ⟨-, r, -, hr, -⟩ := h.exists_step? hg hi
  rw [stepStatus_eq_some hr]
  exact Option.some_ne_none _

/-- The records of a job are those of the steps. -/
theorem Labelled.mem_steps_iff (hg : f.compile = .ok g) (h : Labelled g j) :
    r ∈ j.steps ↔ ∃ i, g.tree.isStep i = true ∧ j.step? (g.name i) = some r := by
  constructor
  · intro hr
    have hname : r.name ∈ (ofGraph g).steps.map (·.name) := h.names ▸ List.mem_map_of_mem hr
    obtain ⟨i, hi, heq⟩ := exists_step_of_mem hname
    obtain ⟨-, r', -, hr', -⟩ := h.exists_step? hg hi
    refine ⟨i, hi, hr'.trans (congrArg some ?_)⟩
    have hnodup : (j.steps.map (·.name)).Nodup := h.names ▸ ofGraph_names_nodup hg
    refine List.inj_on_of_nodup_map hnodup (List.mem_of_find?_eq_some hr') hr ?_
    rw [heq]
    simpa using List.find?_some hr'
  · rintro ⟨i, -, hr⟩
    exact List.mem_of_find?_eq_some hr

end Labelled

end Job

/-! ### Stages -/

namespace Run

open Lifecycle (Data)

/-- The status that a stage takes from the steps inside it. -/
theorem stageRecord_status (now : Time) (inner : List StepRecord) (r : StepRecord) :
    (stageRecord now inner r).status =
      if r.status = .skipped then .skipped
      else if inner.any (·.isBlocking) then .failure
      else if inner.all (fun c => c.status = .skipped) then .skipped
      else .success := by
  have hstatus := congrArg StepRecord.status (untimed_stageRecord now inner r)
  rw [apply_ite StepRecord.status, apply_ite StepRecord.status, apply_ite StepRecord.status]
    at hstatus
  refine hstatus.trans ?_
  split
  · assumption
  · rfl

/-- A stage stands against the success of a job only if a step right inside it does. -/
lemma any_of_stageRecord_isBlocking {now : Time} {inner : List StepRecord} {r : StepRecord}
    (h : (stageRecord now inner r).isBlocking = true) : inner.any (·.isBlocking) = true := by
  have hfailure : (stageRecord now inner r).status.isFailure = true := (Bool.and_eq_true_iff.1 h).1
  by_contra hany
  rw [stageRecord_status, if_neg hany] at hfailure
  split_ifs at hfailure <;> cases hfailure

section Settled

variable {f : Flow} {g : Graph} {d : Data} {i : Nat}

lemma settleStages_labelled (h : Job.Labelled g d.job) : Job.Labelled g (settleStages g d).job := by
  unfold settleStages
  induction (List.range g.size).filter g.tree.isStage with
  | nil => exact h
  | cons k ks ih => exact ih.updateNode (stageRecord_label _ _)

lemma foldr_settleStage_now (stages : List Nat) : (stages.foldr (settleStage g) d).now = d.now := by
  induction stages with
  | nil => rfl
  | cons k ks ih => exact ih

/-- **The record of a stage** follows from the records of the steps right inside it, as they are
when all stages are settled. -/
theorem settleStages_stage (hg : f.compile = .ok g) (hi : g.tree.isStage i = true) :
    (settleStages g d).job.step? (g.name i) =
      (d.job.step? (g.name i)).map (stageRecord d.now
        ((g.tree.children i).filterMap fun c => (settleStages g d).job.step? (g.name c))) := by
  obtain ⟨ht, -⟩ := Graph.compile_eq_ok hg
  have hstep := Graph.isStep_of_isStage hi
  have hmem : i ∈ (List.range g.size).filter g.tree.isStage :=
    List.mem_filter.2 ⟨List.mem_range.2 ((Graph.compile_isStep_iff hg).1 hstep).2, hi⟩
  have hstages : ∀ k ∈ (List.range g.size).filter g.tree.isStage, g.tree.isStage k = true :=
    fun k hk => (List.mem_filter.1 hk).2
  have hsorted : ((List.range g.size).filter g.tree.isStage).Pairwise (· < ·) :=
    List.pairwise_lt_range.filter _
  unfold settleStages
  revert hmem hstages hsorted
  -- the first stage of the list is settled last, when all that is inside it has its final record
  induction (List.range g.size).filter g.tree.isStage with
  | nil =>
    intro hmem
    cases hmem
  | cons k ks ih =>
    intro hmem hstages hsorted
    obtain ⟨hfirst, hsorted'⟩ := List.pairwise_cons.1 hsorted
    have hk := Graph.isStep_of_isStage (hstages k List.mem_cons_self)
    have hstages' : ∀ x ∈ ks, g.tree.isStage x = true :=
      fun x hx => hstages x (List.mem_cons_of_mem _ hx)
    have hle : k ≤ i := by
      rcases List.mem_cons.1 hmem with rfl | hmem'
      · exact le_rfl
      · exact (hfirst i hmem').le
    have hsettle : ∀ x, g.tree.isStep x = true → x ≠ k →
        ((k :: ks).foldr (settleStage g) d).job.step? (g.name x) =
          (ks.foldr (settleStage g) d).job.step? (g.name x) := by
      intro x hx hxk
      rw [List.foldr_cons, settleStage, Job.step?_updateNode hg hx hk (stageRecord_name _ _),
        if_neg hxk]
    have hinner : ((g.tree.children i).filterMap fun c =>
          ((k :: ks).foldr (settleStage g) d).job.step? (g.name c)) =
        (g.tree.children i).filterMap fun c =>
          (ks.foldr (settleStage g) d).job.step? (g.name c) := by
      refine List.filterMap_congr fun c hc => ?_
      obtain ⟨hlt, -, hc_step⟩ := Tree.build_mem_children ht hc
      exact hsettle c hc_step (by omega)
    rw [hinner]
    rcases List.mem_cons.1 hmem with rfl | hmem'
    · have hnot : i ∉ ks := fun hks => absurd (hfirst i hks) (lt_irrefl i)
      rw [List.foldr_cons, settleStage, Job.step?_updateNode hg hstep hk (stageRecord_name _ _),
        if_pos rfl, foldr_settleStage_step? d hg hstep hstages' hnot, foldr_settleStage_now]
    · rw [hsettle i hstep (hfirst i hmem').ne']
      exact ih hmem' hstages' hsorted'

/-- **What holds of the leaves** and passes from the steps inside a stage to the stage holds of all
steps when the stages are settled. -/
theorem forall_settled (hg : f.compile = .ok g) (h : Job.Labelled g d.job) {P : StepRecord → Prop}
    (hleaf : ∀ i r, g.tree.isLeaf i = true → d.job.step? (g.name i) = some r → P r)
    (hstage : ∀ i r inner, g.tree.isStage i = true → d.job.step? (g.name i) = some r → inner ≠ [] →
      (∀ c ∈ inner, P c) → P (stageRecord d.now inner r)) :
    ∀ r ∈ (settleStages g d).job.steps, P r := by
  obtain ⟨ht, -⟩ := Graph.compile_eq_ok hg
  have hsettled := settleStages_labelled h
  intro r hr
  obtain ⟨i, hi, hr⟩ := (hsettled.mem_steps_iff hg).1 hr
  refine Tree.inside_out ht (P := fun i => ∀ r, (settleStages g d).job.step? (g.name i) = some r →
    P r) ?_ hi r hr
  intro i hi ih r hr
  rcases Graph.isLeaf_or_isStage hi with hleaf_i | hstage_i
  · rw [settleStages_step? d hg hleaf_i] at hr
    exact hleaf i r hleaf_i hr
  · rw [settleStages_stage hg hstage_i] at hr
    obtain ⟨r', hr', rfl⟩ := Option.map_eq_some_iff.1 hr
    refine hstage i r' _ hstage_i hr' ?_ ?_
    · -- a stage has a step inside, and the step has a record
      have hne : g.tree.children i ≠ [] := by simpa [Tree.isStage, hi] using hstage_i
      obtain ⟨c, hc⟩ := List.exists_mem_of_ne_nil _ hne
      obtain ⟨-, -, hc_step⟩ := Tree.build_mem_children ht hc
      obtain ⟨-, rc, -, hrc, -⟩ := hsettled.exists_step? hg hc_step
      exact List.ne_nil_of_mem (List.mem_filterMap.2 ⟨c, hc, hrc⟩)
    · intro rc hrc
      obtain ⟨c, hc, heq⟩ := List.mem_filterMap.1 hrc
      exact ih c hc rc heq

/-- **Settled stages add nothing** that stands against the success of a job. -/
theorem settled_hasBlocking_iff (hg : f.compile = .ok g) (h : Job.Labelled g d.job) :
    (settleStages g d).job.hasBlocking = true ↔ ∃ i r, g.tree.isLeaf i = true ∧
      d.job.step? (g.name i) = some r ∧ r.isBlocking = true := by
  constructor
  · intro hblocking
    by_contra hnone
    push Not at hnone
    obtain ⟨r, hr, hblocks⟩ := List.any_eq_true.1 hblocking
    refine forall_settled hg h (P := fun r => ¬ r.isBlocking = true) hnone ?_ r hr hblocks
    intro i r inner _ _ _ hinner hstage
    obtain ⟨c, hc, hblocks⟩ := List.any_eq_true.1 (any_of_stageRecord_isBlocking hstage)
    exact hinner c hc hblocks
  · rintro ⟨i, r, hi, hr, hblocks⟩
    rw [← settleStages_step? d hg hi] at hr
    exact List.any_eq_true.2 ⟨r, List.mem_of_find?_eq_some hr, hblocks⟩

/-- **Settled stages are over** when the leaves are. -/
theorem settled_isTerminal (hg : f.compile = .ok g) (h : Job.Labelled g d.job)
    (hleaf : ∀ i r, g.tree.isLeaf i = true → d.job.step? (g.name i) = some r →
      r.status.isTerminal = true) :
    ∀ r ∈ (settleStages g d).job.steps, r.status.isTerminal = true := by
  refine forall_settled hg h hleaf ?_
  intro i r inner _ _ _ _
  rw [stageRecord_status]
  split_ifs <;> rfl

/-- **Settled stages are not skipped** when no step was. -/
theorem settled_not_skipped (hg : f.compile = .ok g) (h : Job.Labelled g d.job)
    (hd : ∀ i r, g.tree.isStep i = true → d.job.step? (g.name i) = some r → r.status ≠ .skipped) :
    ∀ r ∈ (settleStages g d).job.steps, r.status ≠ .skipped := by
  refine forall_settled hg h (fun i r hi => hd i r (Graph.isStep_of_isLeaf hi)) ?_
  intro i r inner hi hr hne hinner
  obtain ⟨c, hc⟩ := List.exists_mem_of_ne_nil _ hne
  have hall : inner.all (fun c => c.status = .skipped) = false :=
    List.all_eq_false.2 ⟨c, hc, by simpa using hinner c hc⟩
  rw [stageRecord_status, if_neg (hd i r (Graph.isStep_of_isStage hi) hr), hall]
  split
  · exact fun heq => nomatch heq
  · exact fun heq => nomatch heq

end Settled

end Run

end StepFlow

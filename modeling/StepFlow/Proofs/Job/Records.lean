import StepFlow.Job
import StepFlow.Proofs.Graph.Edges

/-!
The records of the steps of a job. Records are kept under the names of the steps; as the names of
the steps of a flow are distinct, a change of the record of one step leaves the records of all
others as they are.
-/

namespace StepFlow

/-! ### Records -/

namespace StepRecord

/-- What is fixed about a record from the start. -/
def label (r : StepRecord) : String × String × Bool := (r.name, r.path, r.allowFailure)

variable (now : Time) (r : StepRecord)

@[simp] theorem start_name : (start now r).name = r.name := rfl
@[simp] theorem start_status : (start now r).status = .running := rfl

@[simp] theorem finish_name (s : StepStatus) (n : UInt32) (e : Option String) :
    (finish now s n e r).name = r.name := rfl
@[simp] theorem finish_status (s : StepStatus) (n : UInt32) (e : Option String) :
    (finish now s n e r).status = s := rfl

@[simp] theorem skip_name (reason : String) : (skip now reason r).name = r.name := rfl
@[simp] theorem skip_status (reason : String) : (skip now reason r).status = .skipped := rfl

end StepRecord

namespace Job

section Update

variable {j : Job} {change : StepRecord → StepRecord}

/-- A change under one name is seen under that name only. -/
theorem step?_update (hname : ∀ r, (change r).name = r.name) (name key : String) :
    (j.update name change).step? key =
      if key = name then (j.step? key).map change else j.step? key := by
  unfold step? update
  simp only
  induction j.steps with
  | nil => simp
  | cons r rs ih =>
    rw [List.map_cons, List.find?_cons, List.find?_cons]
    by_cases hr : r.name = name
    · rw [if_pos hr, hname]
      by_cases hk : r.name = key
      · simp [hk, ← hr]
      · simp only [hk, decide_false]
        exact ih
    · rw [if_neg hr]
      by_cases hk : r.name = key
      · simp [hk, show key ≠ name from hk ▸ hr]
      · simp only [hk, decide_false]
        exact ih

variable {f : Flow} {g : Graph} {i k : Nat}

/-- **A change of the record of one step** leaves the other steps alone. -/
theorem step?_updateNode (h : f.compile = .ok g) (hi : g.tree.isStep i = true)
    (hk : g.tree.isStep k = true) (hname : ∀ r, (change r).name = r.name) :
    (j.updateNode g k change).step? (g.name i) =
      if i = k then (j.step? (g.name i)).map change else j.step? (g.name i) := by
  have hpos := ((Graph.compile_isStep_iff h).1 hk).1
  unfold updateNode
  rw [if_neg (by omega), step?_update hname]
  simp only [Graph.compile_name_inj h hi hk]

@[simp] theorem updateNode_status : (j.updateNode g k change).status = j.status := by
  unfold updateNode
  split <;> rfl

/-- What a change leaves as it is in one record it leaves as it is in all records. -/
theorem map_updateNode {α : Type} {read : StepRecord → α}
    (hread : ∀ r, read (change r) = read r) :
    (j.updateNode g k change).steps.map read = j.steps.map read := by
  unfold updateNode update
  split
  · rfl
  · rw [List.map_map]
    apply List.map_congr_left
    intro r _
    show read (if r.name = g.name k then change r else r) = read r
    split
    · exact hread r
    · rfl

/-- **A new job** has a record for every step. -/
theorem step?_ofGraph (h : f.compile = .ok g) (hi : g.tree.isStep i = true) :
    ∃ n, g.tree.node? i = some n ∧ (ofGraph g).step? (g.name i) = some (.ofNode n) := by
  obtain ⟨ht, -⟩ := Graph.compile_eq_ok h
  obtain ⟨n, hn, -⟩ := Tree.isStep_iff.1 hi
  have hid := Tree.build_idOf?_name ht hi
  have hfind : g.tree.nodes.find? (fun n => !n.isRoot && n.name = g.name i) = some n := by
    rw [List.find?_eq_bind_findIdx?_getElem?]
    unfold Tree.idOf? at hid
    rw [show g.name i = g.tree.name i from rfl, hid]
    exact hn
  have hpred : (fun a : TreeNode => decide ((!a.isRoot) = true ∧
      ((fun r : StepRecord => decide (r.name = g.name i)) ∘ .ofNode) a = true)) =
      fun a => !a.isRoot && a.name = g.name i := by
    funext a
    by_cases hname : a.name = g.name i <;> simp [StepRecord.ofNode, hname]
  refine ⟨n, hn, ?_⟩
  unfold ofGraph step?
  rw [List.find?_map, List.find?_filter, hpred, hfind]
  rfl

end Update

/-! ### Statuses -/

/-- The status of a step of a job. -/
def stepStatus (g : Graph) (j : Job) (i : Nat) : Option StepStatus :=
  (j.step? (g.name i)).map (·.status)

section Status

variable {f : Flow} {g : Graph} {j : Job} {i k : Nat} {change : StepRecord → StepRecord}

lemma stepStatus_eq_some {r : StepRecord} (h : j.step? (g.name i) = some r) :
    j.stepStatus g i = some r.status := by
  rw [stepStatus, h]
  rfl

theorem stepStatus_updateNode_of_ne (h : f.compile = .ok g) (hi : g.tree.isStep i = true)
    (hk : g.tree.isStep k = true) (hname : ∀ r, (change r).name = r.name) (hik : i ≠ k) :
    (j.updateNode g k change).stepStatus g i = j.stepStatus g i := by
  rw [stepStatus, step?_updateNode h hi hk hname, if_neg hik]
  rfl

/-- A change of the record of one step that brings it to a status. -/
theorem stepStatus_updateNode_self (h : f.compile = .ok g) (hi : g.tree.isStep i = true)
    (hname : ∀ r, (change r).name = r.name) {s : StepStatus} (hstatus : ∀ r, (change r).status = s)
    (hsome : j.stepStatus g i ≠ none) : (j.updateNode g i change).stepStatus g i = some s := by
  unfold stepStatus at hsome ⊢
  rw [step?_updateNode h hi hi hname, if_pos rfl]
  cases hr : j.step? (g.name i) with
  | none => simp [hr] at hsome
  | some r => simp [hstatus]

theorem stepStatus_ofGraph (h : f.compile = .ok g) (hi : g.tree.isStep i = true) :
    (ofGraph g).stepStatus g i = some .pending := by
  obtain ⟨n, -, hstep⟩ := step?_ofGraph h hi
  simp [stepStatus, hstep, StepRecord.ofNode]

end Status

end Job

end StepFlow

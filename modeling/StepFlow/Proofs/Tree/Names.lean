import StepFlow.Proofs.Tree.Declaration

/-!
The names of the steps of a tree. No two steps of one tree have the same name, so a step can be
looked up by its name, and a text names at most one step.
-/

namespace StepFlow.Tree

/-! ### Distinct names -/

/-- No two steps among the nodes have the same name. -/
def DistinctNames (nodes : List TreeNode) : Prop :=
  nodes.Pairwise fun a b => a.isRoot = false → b.isRoot = false → a.name ≠ b.name

theorem DistinctNames.snoc {nodes : List TreeNode} (h : DistinctNames nodes) {node : TreeNode}
    (hfresh : hasStep nodes node.name = false) : DistinctNames (nodes ++ [node]) := by
  refine List.pairwise_append.2 ⟨h, List.pairwise_singleton _ _, ?_⟩
  intro a ha b hb hra _ heq
  obtain rfl := List.mem_singleton.1 hb
  have : hasStep nodes b.name = true := List.any_eq_true.2 ⟨a, ha, by simp [hra, heq]⟩
  rw [hfresh] at this
  cases this

theorem Added.distinctNames {parent : Nat} {above : Path} {nodes nodes' : List TreeNode}
    {steps : List (String × Step)} (h : Added parent above nodes steps nodes')
    (hd : DistinctNames nodes) : DistinctNames nodes' := by
  induction h with
  | nil => exact hd
  | cons hnode _ _ ih_inner ih_rest =>
    obtain ⟨path, -, rfl, hfresh⟩ := stepNode_eq_ok hnode
    exact ih_rest (ih_inner (hd.snoc hfresh))

section Build

variable {f : Flow} {t : Tree}

theorem build_distinctNames (h : build f = .ok t) : DistinctNames t.nodes := by
  obtain ⟨path, -, hadd⟩ := build_added h
  exact hadd.distinctNames (List.pairwise_singleton _ _)

theorem isStep_iff {i : Nat} :
    t.isStep i = true ↔ ∃ n, t.node? i = some n ∧ n.isRoot = false := by
  unfold isStep parent? TreeNode.isRoot
  cases hn : t.node? i with
  | none => simp
  | some n => cases n.parent <;> simp

/-- **Two steps of one name are the same step.** -/
theorem build_name_inj (h : build f = .ok t) {i j : Nat} (hi : t.isStep i = true)
    (hj : t.isStep j = true) (hname : t.name i = t.name j) : i = j := by
  obtain ⟨a, ha, hra⟩ := isStep_iff.1 hi
  obtain ⟨b, hb, hrb⟩ := isStep_iff.1 hj
  simp only [name, ha, hb, Option.map_some, Option.getD_some] at hname
  obtain ⟨hilt, rfl⟩ := List.getElem?_eq_some_iff.1 ha
  obtain ⟨hjlt, rfl⟩ := List.getElem?_eq_some_iff.1 hb
  have hp := List.pairwise_iff_getElem.1 (build_distinctNames h)
  by_contra hne
  rcases Nat.lt_or_gt_of_ne hne with hlt | hlt
  · exact hp i j hilt hjlt hlt hra hrb hname
  · exact hp j i hjlt hilt hlt hrb hra hname.symm

/-- What is found under a name is a step of that name. -/
theorem idOf?_eq_some {d : String} {j : Nat} (h : t.idOf? d = some j) :
    t.isStep j = true ∧ t.name j = d := by
  obtain ⟨hlt, hp, -⟩ := List.findIdx?_eq_some_iff_getElem.1 h
  simp only [Bool.and_eq_true, Bool.not_eq_true', decide_eq_true_eq] at hp
  have hget : t.node? j = some t.nodes[j] := List.getElem?_eq_getElem hlt
  exact ⟨isStep_iff.2 ⟨_, hget, hp.1⟩, by simp [name, hget, hp.2]⟩

/-- **A step is found under its name.** -/
theorem build_idOf?_name (h : build f = .ok t) {j : Nat} (hj : t.isStep j = true) :
    t.idOf? (t.name j) = some j := by
  obtain ⟨n, hn, hroot⟩ := isStep_iff.1 hj
  obtain ⟨hlt, rfl⟩ := List.getElem?_eq_some_iff.1 hn
  cases hfound : t.idOf? (t.name j) with
  | none =>
    have := List.findIdx?_eq_none_iff.1 hfound t.nodes[j] (List.getElem_mem hlt)
    simp [hroot, name, hn] at this
  | some i =>
    obtain ⟨hi, hname⟩ := idOf?_eq_some hfound
    rw [build_name_inj h hi hj hname]

end Build

end StepFlow.Tree

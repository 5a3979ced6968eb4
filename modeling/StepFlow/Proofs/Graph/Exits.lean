import StepFlow.Proofs.Graph.Acyclic

/-!
The inside of a step and its exit. The nodes inside a step are those declared behind it up to its
exit. Who depends on a step waits for the exit of the step, and so for whatever leads to the exit; in
a stage whose steps depend on nothing by name, all that is inside leads to the exit.
-/

namespace StepFlow

/-! ### Inside a step -/

namespace Tree

/-- `t.Inside i j`: the node `j` is declared inside the node `i`, at any depth. -/
def Inside (t : Tree) : Nat → Nat → Prop := Relation.TransGen fun a b => t.parent? b = some a

section Inside

variable {f : Flow} {t : Tree} {i j c k : Nat} {d : Declared}

lemma Inside.of_mem_children (h : c ∈ t.children i) : t.Inside i c :=
  .single (of_decide_eq_true (List.mem_filter.1 h).2)

/-- A step right inside a node, and what is inside that step, is inside the node. -/
lemma Inside.of_child (hc : c ∈ t.children i) (hj : j = c ∨ t.Inside c j) : t.Inside i j := by
  rcases hj with rfl | hj
  · exact .of_mem_children hc
  · exact (of_mem_children hc).trans hj

/-- **The nodes inside a declared step** are those right behind it, as many as the document says. -/
theorem build_inside_iff (h : build f = .ok t) (hd : f.declared[k]? = some d) :
    t.Inside (k + 1) j ↔ k + 1 < j ∧ j ≤ k + 1 + d.inside := by
  obtain ⟨levels, inner, hlaid, hlen, -, hclosed⟩ :=
    (build_laid h).block Nat.zero_lt_one (build_closed h) hd
  constructor
  · intro hj
    induction hj with
    | single hparent =>
      have hlt := (build_parent_lt h hparent).1
      have := hclosed _ _ hparent (by omega) (by omega)
      omega
    | tail _ hparent ih =>
      have hlt := (build_parent_lt h hparent).1
      have := hclosed _ _ hparent (by omega) (by omega)
      omega
  · rintro ⟨hlt, hle⟩
    induction j using Nat.strong_induction_on with
    | _ j ih =>
      obtain ⟨q, hparent, hcase⟩ := hlaid.parent_cases (c := j) (by omega) (by omega)
      rcases hcase with rfl | ⟨hfirst, hq⟩
      · rw [Nat.add_comm]
        exact .single hparent
      · exact .tail (ih q hq (by omega) (by omega)) hparent

end Inside

end Tree

namespace Graph

variable {f : Flow} {g : Graph} {i j k s : Nat}

/-- **The nodes inside a step** of a compiled graph are those behind it up to its exit. -/
theorem compile_inside_iff (h : f.compile = .ok g) (hs : g.tree.isStep s = true) :
    g.tree.Inside s j ↔ s < j ∧ j ≤ g.exitOf s := by
  obtain ⟨ht, -⟩ := compile_eq_ok h
  obtain ⟨k, d, rfl, hd⟩ := exists_declared_of_isStep ht hs
  rw [compile_exitOf h hd]
  exact Tree.build_inside_iff ht hd

/-! ### Dependants -/

/-- `g.DependsOn i s`: the step `i` names the step `s` among its dependencies. -/
def DependsOn (g : Graph) (i s : Nat) : Prop :=
  ∃ n, g.tree.node? i = some n ∧ ∃ d ∈ n.dependencies, g.tree.idOf? d = some s

lemma dependsOn_iff : g.DependsOn i s ↔ (g.tree.node? i).any (fun n =>
    n.dependencies.any fun d => g.tree.idOf? d = some s) = true := by
  simp [DependsOn, Option.any_eq_true]

instance : Decidable (g.DependsOn i s) := decidable_of_iff _ dependsOn_iff.symm

/-- A step that depends on nothing by name waits for the node declared before it. -/
lemma parents_of_independent (h : f.compile = .ok g) (hpos : 0 < j) (hj : j < g.size)
    (hnone : ∀ s, ¬ g.DependsOn j s) : g.parents j = [j - 1] := by
  obtain ⟨-, -, -, hwaits, -⟩ := compile_eq_ok h
  obtain ⟨n, hn, hparents, hsome⟩ := hwaits j hpos hj
  refine hparents ?_
  by_contra hdeps
  obtain ⟨named, hmap, -⟩ := hsome hdeps
  obtain ⟨d, hd⟩ := List.exists_mem_of_ne_nil _ hdeps
  obtain ⟨s, -, hs⟩ := exists_named hmap hd
  exact hnone s ⟨n, hn, d, hd, hs⟩

/-- **Who depends on a step** waits for the exit of the step. -/
theorem exitOf_mem_parents (h : f.compile = .ok g) (hi : g.tree.isStep i = true)
    (hdep : g.DependsOn i s) : g.exitOf s ∈ g.parents i := by
  obtain ⟨ht, hw, -, hwaits, -⟩ := compile_eq_ok h
  obtain ⟨n, hn, d, hd, hs⟩ := hdep
  rw [Tree.build_isStep ht, decide_eq_true_eq, ← hw.size] at hi
  obtain ⟨n', hn', -, hsome⟩ := hwaits i hi.1 hi.2
  cases hn.symm.trans hn'
  obtain ⟨named, hmap, hparents⟩ := hsome (List.ne_nil_of_mem hd)
  obtain ⟨s', hs', heq⟩ := exists_named hmap hd
  cases heq.symm.trans hs
  rw [hparents, List.mem_eraseDups, hw.exitOf]
  exact List.mem_map_of_mem hs'

/-- `g.LeadsOut s k`: the node `k` is the exit of the step `s`, or before it. -/
def LeadsOut (g : Graph) (s k : Nat) : Prop := k = g.exitOf s ∨ g.Before k (g.exitOf s)

/-- What leads out of a step is before whatever depends on the step. -/
lemma before_of_leadsOut (h : f.compile = .ok g) (hi : g.tree.isStep i = true)
    (hdep : g.DependsOn i s) (hk : g.LeadsOut s k) : g.Before k i := by
  have hexit := Before.of_parent (exitOf_mem_parents h hi hdep)
  rcases hk with rfl | hk
  · exact hexit
  · exact hk.trans hexit

/-- **All that is inside a stage leads out of it** if the steps inside depend on nothing by name. -/
theorem leadsOut_of_independent (h : f.compile = .ok g) (hs : g.tree.isStep s = true)
    (hnone : ∀ j, g.tree.Inside s j → ∀ l, ¬ g.DependsOn j l) (hk : g.tree.Inside s k) :
    g.LeadsOut s k := by
  obtain ⟨hlt, hle⟩ := (compile_inside_iff h hs).1 hk
  have hsize : g.exitOf s < g.size := by
    obtain ⟨ht, hw, -⟩ := compile_eq_ok h
    rw [hw.exitOf, hw.size]
    exact unconnected_exitOf_lt ht hs
  -- from `k` on, each node waits for the one declared before it
  have hchain : ∀ m, k + m ≤ g.exitOf s → k = k + m ∨ g.Before k (k + m) := by
    intro m
    induction m with
    | zero => exact fun _ => .inl rfl
    | succ m ih =>
      intro hm
      have hinside := (compile_inside_iff h hs).2 ⟨show s < k + (m + 1) by omega, hm⟩
      have hparents := parents_of_independent h (by omega) (by omega) (hnone _ hinside)
      have hstep : g.Before (k + m) (k + (m + 1)) := .of_parent (by rw [hparents]; simp)
      rcases ih (by omega) with heq | hbefore
      · rw [← heq] at hstep
        exact .inr hstep
      · exact .inr (hbefore.trans hstep)
  have hexit := hchain (g.exitOf s - k) (by omega)
  rwa [show k + (g.exitOf s - k) = g.exitOf s by omega] at hexit

end Graph

end StepFlow

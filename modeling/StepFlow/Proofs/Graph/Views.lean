import StepFlow.Proofs.Schedule.Progress
import StepFlow.Proofs.Tree.Chains

/-!
Names in the view of a graph. A view has one entry for each node, and an entry tells the nodes around
it by their names only. Two steps never have the same name, but a step may be called like the flow
(`compile_name_eq_iff`), and then its name stands for two entries. When no step is, each name leads to
the entry of its node, and the edges can be read off the names (`readsBack_of_nodup`).
-/

namespace StepFlow.Graph

/-- `g.ReadsBack`: in the view of the graph every name leads to the entry of its node, and the names
in an entry are those of the nodes around the node and of no others. -/
structure ReadsBack (g : Graph) : Prop where
  entry : ∀ i < g.size, g.view.find? (fun v => v.name = g.name i) = some (g.nodeView i)
  parents : ∀ i < g.size, ∀ j < g.size, g.name j ∈ (g.nodeView i).parents ↔ j ∈ g.parents i
  children : ∀ i < g.size, ∀ j < g.size, g.name j ∈ (g.nodeView i).children ↔ j ∈ g.children i
  exit : ∀ i < g.size, ∀ j < g.size,
    (g.nodeView i).exit = some (g.name j) ↔ (g.node i).exit = some j

section Names

variable {f : Flow} {g : Graph} {i j : Nat}

/-! ### Nodes of one name -/

lemma compile_root_name (h : f.compile = .ok g) : g.name 0 = Text.trim f.effectiveName := by
  obtain ⟨ht, -⟩ := compile_eq_ok h
  obtain ⟨path, hpath, hroot⟩ := Tree.build_root ht
  rw [Graph.name, Tree.name, hroot]
  exact Path.name_of_root hpath

/-- **Two nodes have the same name** just when one is the root and the other a step that is called
like the flow. -/
theorem compile_name_eq_iff (h : f.compile = .ok g) (hij : i < j) (hj : j < g.size) :
    g.name i = g.name j ↔ i = 0 ∧ ∃ d, f.declared[j - 1]? = some d ∧
      Text.trim d.key = Text.trim f.effectiveName := by
  obtain ⟨ht, -⟩ := compile_eq_ok h
  have hstep : g.tree.isStep j = true := (compile_isStep_iff h).2 ⟨Nat.zero_lt_of_lt hij, hj⟩
  obtain ⟨k, d, rfl, hd⟩ := exists_declared_of_isStep ht hstep
  rw [Nat.add_sub_cancel, hd]
  rcases Nat.eq_zero_or_pos i with rfl | hpos
  · rw [compile_root_name h, compile_name h hd]
    simp [eq_comm]
  · -- two steps have two names
    rw [compile_name_inj h ((compile_isStep_iff h).2 ⟨hpos, hij.trans hj⟩) hstep]
    constructor
    · rintro rfl
      exact absurd hij (Nat.lt_irrefl _)
    · rintro ⟨rfl, -⟩
      cases hpos

/-- Names are distinct just when no step is called like the flow. -/
theorem names_nodup_iff (h : f.compile = .ok g) : ((List.range g.size).map g.name).Nodup ↔
    ∀ d ∈ f.declared, Text.trim d.key ≠ Text.trim f.effectiveName := by
  rw [List.Nodup, List.pairwise_map, List.pairwise_iff_getElem]
  simp only [List.length_range, List.getElem_range]
  constructor
  · intro hdistinct d hd heq
    obtain ⟨k, hk, rfl⟩ := List.mem_iff_getElem.1 hd
    have hlt : k + 1 < g.size := by
      rw [compile_size h]
      omega
    refine hdistinct 0 (k + 1) (by omega) hlt k.succ_pos ?_
    exact (compile_name_eq_iff h k.succ_pos hlt).2 ⟨rfl, _, List.getElem?_eq_getElem hk, heq⟩
  · intro hnone i j _ hj hij heq
    obtain ⟨-, d, hd, hlike⟩ := (compile_name_eq_iff h hij hj).1 heq
    exact hnone d (List.mem_of_getElem? hd) hlike

/-! ### Reading a view -/

section Distinct

variable (hinj : ∀ i < g.size, ∀ j < g.size, g.name i = g.name j → i = j)
include hinj

/-- A name in a list of names is that of the one node that has it. -/
lemma name_mem_map_iff {l : List Nat} (hl : ∀ k ∈ l, k < g.size) (hj : j < g.size) :
    g.name j ∈ l.map g.name ↔ j ∈ l := by
  constructor
  · intro hname
    obtain ⟨k, hk, heq⟩ := List.mem_map.1 hname
    exact hinj k (hl k hk) j hj heq ▸ hk
  · exact List.mem_map_of_mem

/-- A name leads to the entry of its node. -/
lemma find?_view (hg : g.Sound) (hi : i < g.size) :
    g.view.find? (fun v => v.name = g.name i) = some (g.nodeView i) := by
  have hmem : ∀ k, k ∈ g.order ↔ k < g.size := fun k => by
    rw [(Schedule.order_perm hg).mem_iff, List.mem_range]
  rw [view, List.find?_map, Option.map_eq_some_iff]
  refine ⟨i, ?_, rfl⟩
  cases hfound : g.order.find? ((fun v : NodeView => v.name = g.name i) ∘ g.nodeView) with
  | none =>
    have := List.find?_eq_none.1 hfound i ((hmem i).2 hi)
    simp [nodeView] at this
  | some k =>
    have hname := List.find?_some hfound
    have hk := (hmem k).1 (List.mem_of_find?_eq_some hfound)
    rw [hinj k hk i hi (of_decide_eq_true hname)]

end Distinct

lemma view_names_perm (hg : g.Sound) :
    (g.view.map (·.name)).Perm ((List.range g.size).map g.name) := by
  rw [view, List.map_map]
  exact (Schedule.order_perm hg).map g.name

/-- The exit of a node is a node. -/
lemma exit_lt_size (h : f.compile = .ok g) (hexit : (g.node i).exit = some j) : j < g.size := by
  obtain ⟨ht, hw, -⟩ := compile_eq_ok h
  have hstage : g.tree.isStage i = true := by
    by_contra hno
    rw [compile_exit h, if_neg hno] at hexit
    cases hexit
  have hexitOf : g.exitOf i = j := by rw [exitOf, hexit, Option.getD_some]
  rw [← hexitOf, hw.exitOf, hw.size]
  exact unconnected_exitOf_lt ht (isStep_of_isStage hstage)

/-- **A view with distinct names** can be read back. -/
theorem readsBack_of_nodup (h : f.compile = .ok g)
    (hnames : ((List.range g.size).map g.name).Nodup) : g.ReadsBack := by
  have hsound := compile_sound h
  have hinj : ∀ i < g.size, ∀ j < g.size, g.name i = g.name j → i = j := by
    intro i hi j hj
    exact (List.nodup_map_iff_inj_on List.nodup_range).1 hnames i (List.mem_range.2 hi) j
      (List.mem_range.2 hj)
  refine ⟨fun i hi => find?_view hinj hsound hi, ?_, ?_, ?_⟩
  · intro i _ j hj
    exact name_mem_map_iff hinj (fun k hk => (hsound.lt_size k i hk).1) hj
  · intro i _ j hj
    exact name_mem_map_iff hinj
      (fun k hk => (hsound.lt_size i k ((hsound.mem_children i k).1 hk)).2) hj
  · intro i _ j hj
    rw [nodeView, Option.map_eq_some_iff]
    constructor
    · rintro ⟨k, hk, heq⟩
      rw [hk, hinj k (exit_lt_size h hk) j hj heq]
    · intro hexit
      exact ⟨j, hexit, rfl⟩

/-- **Names identify the nodes of a compiled graph**, unless a step is called like the flow. Two nodes
have the same name only if one is the root and the other such a step. If there is no such step, no
two entries of the view have the same name, and the view can be read back. -/
theorem view_identifies (h : f.compile = .ok g) :
    (∀ i j, i < j → j < g.size → (g.name i = g.name j ↔ i = 0 ∧ ∃ d,
      f.declared[j - 1]? = some d ∧ Text.trim d.key = Text.trim f.effectiveName)) ∧
    ((g.view.map (·.name)).Nodup ↔
      ∀ d ∈ f.declared, Text.trim d.key ≠ Text.trim f.effectiveName) ∧
    ((∀ d ∈ f.declared, Text.trim d.key ≠ Text.trim f.effectiveName) →
      ((List.range g.size).map g.name).Nodup ∧ g.ReadsBack) := by
  have hperm := view_names_perm (compile_sound h)
  refine ⟨fun i j hij hj => compile_name_eq_iff h hij hj, ?_, ?_⟩
  · rw [hperm.nodup_iff, names_nodup_iff h]
  · intro hnone
    have hnames := (names_nodup_iff h).2 hnone
    exact ⟨hnames, readsBack_of_nodup h hnames⟩

end Names

theorem view_identifies_release : ∃ g, release.compile = .ok g ∧ (g.view.map (·.name)).Nodup ∧
    g.ReadsBack ∧ (g.nodeView 5).parents = ["link", "lint"] ∧ g.parents 5 = [3, 4] := by
  obtain ⟨g, hg, hview, hparents⟩ := exists_compiled (f := release)
    (P := fun g => (g.nodeView 5).parents = ["link", "lint"] ∧ g.parents 5 = [3, 4]) (by cbv)
  have hnone : ∀ d ∈ release.declared, Text.trim d.key ≠ Text.trim release.effectiveName := by
    rw [release_declared]
    decide +kernel
  obtain ⟨-, hnodup, hreads⟩ := view_identifies hg
  exact ⟨g, hg, hnodup.2 hnone, (hreads hnone).2, hview, hparents⟩

/-! ### A step called like the flow -/

/-- A flow without a name, and a step with the name that such a flow gets. -/
def rooted : Flow where
  steps :=
    [("build", { spec := { bash := some "make" } }),
      ("root", { spec := { bash := some "make dist" } })]

/-- The flow compiles. Its root and the step have the same name, two entries of the view have it too,
and who looks for the entry of the step under its name finds that of the root. -/
theorem view_of_step_like_flow : ∃ g, rooted.compile = .ok g ∧ g.name 0 = g.name 2 ∧
    ¬ ((List.range g.size).map g.name).Nodup ∧ ¬ (g.view.map (·.name)).Nodup ∧
    g.view.find? (fun v => v.name = g.name 2) = some (g.nodeView 0) ∧
    g.nodeView 0 ≠ g.nodeView 2 :=
  exists_compiled (by cbv)

end StepFlow.Graph

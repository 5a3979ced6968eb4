import StepFlow.Proofs.Graph.Edges
import StepFlow.Proofs.Merge.Documents
import StepFlow.Proofs.Tree.Chains

/-!
Steps that are added behind those of a flow leave its graph as it is. The nodes of the flow are the
first ones of the larger tree (`Tree.build_extend`). A step that one of them names is found there
under the same number, and its exit is still the last node inside it, so every node waits for what it
waited for before (`Graph.extends_extend`). The added steps may wait for any of these nodes: that puts
edges behind those that a node has already.
-/

namespace StepFlow

/-- The flow with steps behind its own. -/
def Flow.extend (f : Flow) (added : Table Step) : Flow := { f with steps := f.steps ++ added }

lemma Flow.declared_extend {f : Flow} {added : Table Step} {k : Nat} {d : Declared}
    (hd : f.declared[k]? = some d) : (f.extend added).declared[k]? = some d := by
  have hk := (List.getElem?_eq_some_iff.1 hd).1
  rw [declared, extend, Step.declared_append]
  exact (List.getElem?_append_left hk).trans hd

/-- The nodes of `g` are the first ones of `h`. They stand under the same numbers with the same names,
parents, exits and effective properties, and what comes inside or behind one of them in `h` comes
after all that is inside or behind it in `g`. -/
structure Graph.Extends (h g : Graph) : Prop where
  nodes : g.tree.nodes <+: h.tree.nodes
  size_le : g.size ≤ h.size
  idOf : ∀ name i, g.tree.idOf? name = some i → h.tree.idOf? name = some i
  name : ∀ i < g.size, h.name i = g.name i
  path : ∀ i < g.size, (h.tree.node? i).map (·.path) = (g.tree.node? i).map (·.path)
  parent : ∀ i < g.size, h.tree.parent? i = g.tree.parent? i
  inside : ∀ i < g.size, g.tree.children i <+: h.tree.children i
  parents : ∀ i < g.size, h.parents i = g.parents i
  exit : ∀ i < g.size, (h.node i).exit = (g.node i).exit
  resolve : ∀ i < g.size, ∀ defaults, h.tree.resolve? i defaults = g.tree.resolve? i defaults
  children : ∀ i < g.size, g.children i <+: h.children i

lemma filter_range_isPrefix {m n : Nat} (hle : m ≤ n) {p q : Nat → Bool}
    (hpq : ∀ c < m, p c = q c) : (List.range m).filter p <+: (List.range n).filter q := by
  obtain ⟨k, rfl⟩ := Nat.exists_eq_add_of_le hle
  rw [List.range_add, List.filter_append,
    List.filter_congr fun c hc => hpq c (List.mem_range.1 hc)]
  exact List.prefix_append _ _

namespace Tree

section Extend

variable {f : Flow} {added : Table Step} {t t' : Tree} {i : Nat}

/-- **The nodes of a flow come first** when steps are put behind its own. -/
theorem build_extend (ht : build f = .ok t) (ht' : build (f.extend added) = .ok t') :
    t.nodes <+: t'.nodes := by
  obtain ⟨path, hpath, hadd⟩ := build_eq_ok ht
  obtain ⟨path', hpath', hadd'⟩ := build_eq_ok ht'
  cases hpath.symm.trans hpath'
  -- the node of the flow does not depend on its steps
  have hroot : TreeNode.ofFlow (f.extend added) path = .ofFlow f path := rfl
  rw [hroot, Flow.extend, addSteps_append, hadd] at hadd'
  exact (added_of_addSteps hadd').keeps

lemma parent?_of_isPrefix (h : t.nodes <+: t'.nodes) (hi : i < t.size) :
    t'.parent? i = t.parent? i := by
  rw [parent?, parent?, node?_of_isPrefix h hi]

lemma children_of_isPrefix (h : t.nodes <+: t'.nodes) (i : Nat) :
    t.children i <+: t'.children i :=
  filter_range_isPrefix h.length_le fun c hc => by rw [parent?_of_isPrefix h hc]

lemma resolve?_of_isPrefix (h : t.nodes <+: t'.nodes) (hi : i < t.size) (defaults : StepDefaults) :
    t'.resolve? i defaults = t.resolve? i defaults := by
  rw [resolve?, resolve?, node?_of_isPrefix h hi, chain_of_isPrefix h hi]

/-- A step has as many steps inside it as before. -/
lemma isStage_extend (ht : build f = .ok t) (ht' : build (f.extend added) = .ok t')
    (hi : i < t.size) : t'.isStage i = t.isStage i := by
  cases i with
  | zero => simp [isStage, build_isStep ht, build_isStep ht']
  | succ k =>
    obtain ⟨k', d, hk, hd⟩ := Graph.exists_declared ht k.succ_pos hi
    cases hk
    rw [build_isStage ht hd, build_isStage ht' (Flow.declared_extend hd)]

end Extend

end Tree

namespace Graph

section Waits

variable {t t' : Tree} {i : Nat} {parents parents' : List Nat}

/-- What a node waits for is determined by the tree. -/
lemma WaitsFor.unique (h : WaitsFor t i parents) (h' : WaitsFor t i parents') :
    parents = parents' := by
  obtain ⟨n, hn, hnone, hsome⟩ := h
  obtain ⟨n', hn', hnone', hsome'⟩ := h'
  cases hn.symm.trans hn'
  by_cases hdeps : n.dependencies = []
  · rw [hnone hdeps, hnone' hdeps]
  · obtain ⟨named, hmap, rfl⟩ := hsome hdeps
    obtain ⟨named', hmap', rfl⟩ := hsome' hdeps
    obtain rfl : named = named' :=
      List.map_injective_iff.2 (Option.some_injective Nat) (hmap.symm.trans hmap')
    rfl

/-- A node waits for the same in a larger tree if the steps have the same exits there. -/
lemma WaitsFor.of_isPrefix (h : WaitsFor t i parents) (hnodes : t.nodes <+: t'.nodes)
    (hexit : ∀ j, t.isStep j = true → (unconnected t').exitOf j = (unconnected t).exitOf j) :
    WaitsFor t' i parents := by
  obtain ⟨n, hn, hnone, hsome⟩ := h
  have hi : i < t.size := (List.getElem?_eq_some_iff.1 hn).1
  refine ⟨n, (Tree.node?_of_isPrefix hnodes hi).trans hn, hnone, ?_⟩
  intro hdeps
  obtain ⟨named, hmap, rfl⟩ := hsome hdeps
  refine ⟨named, ?_, ?_⟩
  · rw [← hmap]
    refine List.map_congr_left ?_
    intro d hd
    obtain ⟨j, -, hj⟩ := exists_named hmap hd
    rw [hj, Tree.idOf?_of_isPrefix hnodes hj]
  · congr 1
    refine List.map_congr_left ?_
    intro j hj
    obtain ⟨d, -, hd⟩ := exists_naming hmap hj
    exact (hexit j (Tree.idOf?_eq_some hd).1).symm

end Waits

section Compile

variable {f : Flow} {added : Table Step} {g h : Graph} {i : Nat}

lemma exit_extend (hg : f.compile = .ok g) (hh : (f.extend added).compile = .ok h)
    (hi : i < g.size) : (h.node i).exit = (g.node i).exit := by
  obtain ⟨ht, hw, -⟩ := compile_eq_ok hg
  obtain ⟨ht', -⟩ := compile_eq_ok hh
  rw [hw.size] at hi
  rw [compile_exit hg, compile_exit hh, Tree.isStage_extend ht ht' hi]
  split
  · rename_i hstage
    -- a stage is a declared step, and it reaches as far as the document says
    obtain ⟨k, d, rfl, hd⟩ := exists_declared_of_isStep ht (isStep_of_isStage hstage)
    rw [reach_eq hd, reach_eq (Flow.declared_extend hd)]
  · rfl

lemma parents_extend (hg : f.compile = .ok g) (hh : (f.extend added).compile = .ok h)
    (hi : i < g.size) : h.parents i = g.parents i := by
  obtain ⟨ht, hw, hroot, hwaits, -⟩ := compile_eq_ok hg
  obtain ⟨ht', hw', hroot', hwaits', -⟩ := compile_eq_ok hh
  have hnodes := Tree.build_extend ht ht'
  have hsize : g.size ≤ h.size := hw.size ▸ hw'.size ▸ hnodes.length_le
  rcases Nat.eq_zero_or_pos i with rfl | hpos
  · rw [hroot, hroot']
  · refine (hwaits' i hpos (by omega)).unique ((hwaits i hpos hi).of_isPrefix hnodes ?_)
    intro j hj
    obtain ⟨k, d, rfl, hd⟩ := exists_declared_of_isStep ht hj
    rw [unconnected_exitOf ht hd, unconnected_exitOf ht' (Flow.declared_extend hd)]

/-- **Steps behind those of a flow** leave the graph of the flow as it is. -/
theorem extends_extend (hg : f.compile = .ok g) (hh : (f.extend added).compile = .ok h) :
    h.Extends g := by
  obtain ⟨ht, hw, -⟩ := compile_eq_ok hg
  obtain ⟨ht', hw', -⟩ := compile_eq_ok hh
  have hnodes := Tree.build_extend ht ht'
  have hsize : g.size ≤ h.size := hw.size ▸ hw'.size ▸ hnodes.length_le
  have hnode : ∀ i < g.size, h.tree.node? i = g.tree.node? i := fun i hi =>
    Tree.node?_of_isPrefix hnodes (hw.size ▸ hi)
  exact {
    nodes := hnodes
    size_le := hsize
    idOf := fun name i hi => Tree.idOf?_of_isPrefix hnodes hi
    name := fun i hi => by rw [Graph.name, Graph.name, Tree.name, Tree.name, hnode i hi]
    path := fun i hi => by rw [hnode i hi]
    parent := fun i hi => Tree.parent?_of_isPrefix hnodes (hw.size ▸ hi)
    inside := fun i _ => Tree.children_of_isPrefix hnodes i
    parents := fun i hi => parents_extend hg hh hi
    exit := fun i hi => exit_extend hg hh hi
    resolve := fun i hi => Tree.resolve?_of_isPrefix hnodes (hw.size ▸ hi)
    children := by
      intro i hi
      rw [hw.children i (hw.size ▸ hi), hw'.children i (hw'.size ▸ Nat.lt_of_lt_of_le hi hsize)]
      refine filter_range_isPrefix hnodes.length_le ?_
      intro c hc
      rw [parents_extend hg hh (hw.size.symm ▸ hc)] }

/-- **Merging steps with new names** into a flow that compiles goes well, and leaves its graph as it
is: if the result compiles too, its first nodes are those of the flow. -/
theorem extends_of_merge_steps {b : Flow} (hg : b.compile = .ok g)
    (hnames : (Table.names added).Nodup) (hnew : ∀ n ∈ Table.names added, n ∉ Table.names b.steps) :
    ∃ merged, b.merge { steps := added } = .ok merged ∧
      ∀ h, merged.compile = .ok h → h.Extends g :=
  ⟨b.extend added, Flow.merge_of_new hnames hnew, fun _ hh => extends_extend hg hh⟩

end Compile

/-- A stage that waits for another stage, and a step behind it. -/
def smoke : Table Step :=
  [("smoke", {
      spec := { dependencies := ["build"] }
      steps := [("boot", { spec := { bash := some "make run" } }),
        ("ping", { spec := { bash := some "make ping" } })] }),
    ("notify", { spec := { bash := some "make mail" } })]

/-- The added stage becomes a child of the exit of the stage that it waits for. -/
theorem extends_of_merge_steps_smoke : ∃ g, release.compile = .ok g ∧
    (Table.names smoke).Nodup ∧ (∀ n ∈ Table.names smoke, n ∉ Table.names release.steps) ∧
    ∃ merged h, release.merge { steps := smoke } = .ok merged ∧ merged.compile = .ok h ∧
      h.Extends g ∧ g.children 3 = [4, 5] ∧ h.children 3 = [4, 5, 6] := by
  obtain ⟨g, hg, hchildren⟩ := exists_compiled (f := release)
    (P := fun g => g.children 3 = [4, 5]) (by cbv)
  obtain ⟨h, hh, hchildren'⟩ := exists_compiled (f := release.extend smoke)
    (P := fun h => h.children 3 = [4, 5, 6]) (by cbv)
  have hnames : (Table.names smoke).Nodup := by decide +kernel
  have hnew : ∀ n ∈ Table.names smoke, n ∉ Table.names release.steps := by decide +kernel
  obtain ⟨merged, hmerge, hextends⟩ := extends_of_merge_steps hg hnames hnew
  obtain rfl : release.extend smoke = merged :=
    Except.ok.inj ((Flow.merge_of_new hnames hnew).symm.trans hmerge)
  exact ⟨g, hg, hnames, hnew, _, h, hmerge, hh, hextends h hh, hchildren, hchildren'⟩

end Graph

end StepFlow

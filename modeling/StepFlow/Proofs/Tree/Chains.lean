import StepFlow.Effective
import StepFlow.Proofs.Tree.Names

/-!
The chain of a node: the node, the node it is declared in, and so on out to the root. Names that lead
through a document, from a step to one inside it with each name, lead to a node, and the chain of that
node has the steps that were passed and nothing else (`build_chain`). Nodes that are declared later
are on no chain of the earlier ones (`chain_of_isPrefix`).
-/

namespace StepFlow

/-! ### Names that lead to a step -/

/-- `Step.Leads steps names specs`: the first name is one of a step of the list, the next one of a
step inside that, and so on, and the steps that are passed say `specs` about themselves. A name is
taken without the blanks around it. -/
inductive Step.Leads : List (String × Step) → List String → List StepSpec → Prop where
  | nil (steps : List (String × Step)) : Leads steps [] []
  | cons {steps : List (String × Step)} {key : String} {s : Step} {names : List String}
      {specs : List StepSpec} (hs : (key, s) ∈ steps) (hinner : Leads s.steps names specs) :
      Leads steps (Text.trim key :: names) (s.spec :: specs)

/-- A node apart from its place among the others: whom it is declared in and whom it waits for. -/
def TreeNode.unplaced (n : TreeNode) : TreeNode := { n with parent := none, dependencies := [] }

/-- The nodes, apart from their places, of steps that are passed below `above`. -/
def TreeNode.passed (above : List String) : List String → List StepSpec → List TreeNode
  | name :: names, spec :: specs =>
    (TreeNode.ofSpec spec ⟨above ++ [name]⟩ 0).unplaced :: passed (above ++ [name]) names specs
  | _, _ => []

namespace Tree

/-! ### Chains -/

section Chain

variable {t t' : Tree} {i q : Nat} {n : TreeNode}

lemma ancestors_of_parent (hq : t.parent? i = some q) (hlt : q < i) :
    t.ancestors i = i :: t.ancestors q := by
  rw [ancestors, hq]
  exact if_pos hlt

lemma ancestors_of_root (hq : t.parent? i = none) : t.ancestors i = [i] := by
  rw [ancestors, hq]

/-- The chain of a node goes on with that of the node it is declared in. -/
lemma chain_of_parent (hn : t.node? i = some n) (hq : n.parent = some q) (hlt : q < i) :
    t.chain i = n :: t.chain q := by
  have hparent : t.parent? i = some q := by rw [parent?, hn, Option.bind_some, hq]
  rw [chain, ancestors_of_parent hparent hlt, List.filterMap_cons_some hn, chain]

lemma chain_of_root (hn : t.node? i = some n) (hq : n.parent = none) : t.chain i = [n] := by
  have hparent : t.parent? i = none := by rw [parent?, hn, Option.bind_some, hq]
  rw [chain, ancestors_of_root hparent, List.filterMap_cons_some hn, List.filterMap_nil]

/-- A node comes first on its chain. -/
lemma exists_chain_eq_cons (hn : t.node? i = some n) : ∃ rest, t.chain i = n :: rest := by
  rw [chain, ancestors]
  split
  · exact ⟨_, List.filterMap_cons_some hn⟩
  · split
    · exact ⟨_, List.filterMap_cons_some hn⟩
    · exact ⟨_, List.filterMap_cons_some hn⟩

lemma resolve?_eq (hn : t.node? i = some n) (defaults : StepDefaults) :
    t.resolve? i defaults = some (.ofChain defaults n (t.chain i)) := by
  rw [resolve?, hn, Option.map_some]

lemma mem_nodes_of_mem_chain (h : n ∈ t.chain i) : n ∈ t.nodes := by
  obtain ⟨j, -, hj⟩ := List.mem_filterMap.1 h
  exact List.mem_of_getElem? hj

lemma node?_of_isPrefix (h : t.nodes <+: t'.nodes) (hi : i < t.size) :
    t'.node? i = t.node? i := by
  rw [node?, node?, List.getElem?_eq_getElem hi]
  exact List.prefix_iff_getElem?.1 h i hi

/-- A step is still found under its name when others are declared behind it. -/
lemma idOf?_of_isPrefix (h : t.nodes <+: t'.nodes) {name : String}
    (hi : t.idOf? name = some i) : t'.idOf? name = some i := by
  obtain ⟨added, hadded⟩ := h
  rw [idOf?] at hi ⊢
  rw [← hadded, List.findIdx?_append, hi, Option.some_or]

/-- Nodes that are declared behind those of a tree change no chain of its nodes. -/
theorem chain_of_isPrefix (h : t.nodes <+: t'.nodes) (hi : i < t.size) :
    t'.chain i = t.chain i := by
  induction i using Nat.strong_induction_on with
  | _ i ih =>
    have hnode := node?_of_isPrefix h hi
    obtain ⟨n, hn⟩ : ∃ n, t.node? i = some n := ⟨_, List.getElem?_eq_getElem hi⟩
    have hn' : t'.node? i = some n := hnode.trans hn
    have hparent : t'.parent? i = t.parent? i := by rw [parent?, parent?, hnode]
    cases hq : t.parent? i with
    | none =>
      rw [chain, chain, ancestors_of_root hq, ancestors_of_root (hparent.trans hq)]
      simp [hn, hn']
    | some q =>
      by_cases hlt : q < i
      · have hpar : n.parent = some q := by rw [parent?, hn, Option.bind_some] at hq; exact hq
        rw [chain_of_parent hn hpar hlt, chain_of_parent hn' hpar hlt, ih q hlt (by omega)]
      · -- a chain stops at a node that is not declared in an earlier one
        rw [chain, chain, ancestors, ancestors, hparent, hq]
        simp [hlt, hn, hn']

end Chain

/-! ### The chain of a step -/

/-- The node of a step of a list, and where the steps inside it are added. -/
lemma Added.exists_node {parent : Nat} {above : Path} {nodes nodes' : List TreeNode}
    {steps : List (String × Step)} (h : Added parent above nodes steps nodes') {t : Tree}
    (ht : nodes' <+: t.nodes) {key : String} {s : Step} (hs : (key, s) ∈ steps) :
    ∃ i path, above.child key = .ok path ∧ t.node? i = some (.ofSpec s.spec path parent) ∧
      ∃ before after, Added i path before s.steps after ∧ after <+: t.nodes := by
  induction h with
  | nil => cases hs
  | @cons parent above nodes mid nodes' node name spec inner rest hnode hinner hrest _ ih_rest =>
    rcases List.mem_cons.1 hs with heq | hs
    · cases heq
      obtain ⟨path, hpath, rfl, -⟩ := stepNode_eq_ok hnode
      have hmid : mid <+: t.nodes := hrest.keeps.trans ht
      exact ⟨nodes.length, path, hpath, hinner.node?_last hmid, _, _, hinner, hmid⟩
    · exact ih_rest ht hs

/-- Names that lead into the steps below a node lead to a node whose chain is that of the upper one
with the steps that are passed. -/
theorem Added.exists_chain {parent : Nat} {above : Path} {nodes nodes' : List TreeNode}
    {steps : List (String × Step)} (h : Added parent above nodes steps nodes') {t : Tree}
    (ht : nodes' <+: t.nodes) (hlt : ∀ c q, t.parent? c = some q → q < c)
    (hparent : (t.node? parent).map (·.path) = some above) {names : List String}
    {specs : List StepSpec} (hleads : Step.Leads steps names specs) :
    ∃ i, (t.node? i).map (·.path) = some ⟨above.segments ++ names⟩ ∧
      (t.chain i).map TreeNode.unplaced =
        (TreeNode.passed above.segments names specs).reverse ++
          (t.chain parent).map TreeNode.unplaced := by
  induction hleads generalizing parent above nodes nodes' with
  | nil steps => exact ⟨parent, by simpa using hparent, by simp [TreeNode.passed]⟩
  | @cons steps key s names specs hs _ ih =>
    obtain ⟨i, path, hpath, hi, before, after, hinner, hafter⟩ := h.exists_node ht hs
    have hsegments := (Path.child_eq_ok hpath).1
    obtain ⟨j, hj, hchain⟩ := ih hinner hafter (by rw [hi]; rfl)
    have hparent? : t.parent? i = some parent := by rw [parent?, hi]; rfl
    rw [chain_of_parent hi rfl (hlt i parent hparent?)] at hchain
    refine ⟨j, by simpa [hsegments] using hj, ?_⟩
    have hnode : (TreeNode.ofSpec s.spec path parent).unplaced =
        (TreeNode.ofSpec s.spec ⟨above.segments ++ [Text.trim key]⟩ 0).unplaced := by
      rw [← hsegments]
      rfl
    rw [hchain, hsegments, TreeNode.passed, List.map_cons, hnode]
    simp

section Build

variable {f : Flow} {t : Tree}

lemma build_root (h : build f = .ok t) : ∃ path, Path.root f.effectiveName = .ok path ∧
    t.node? 0 = some (.ofFlow f path) := by
  obtain ⟨path, hpath, hadd⟩ := build_added h
  refine ⟨path, hpath, ?_⟩
  have hget := List.prefix_iff_getElem?.1 hadd.keeps 0 (by simp)
  simpa [node?] using hget

/-- Every node is that of the flow or of a declared step. -/
lemma build_node_cases (h : build f = .ok t) {i : Nat} {n : TreeNode} (hn : t.node? i = some n) :
    (∃ path, n = .ofFlow f path) ∨ ∃ d ∈ f.declared, IsNodeOf n d := by
  cases i with
  | zero =>
    obtain ⟨path, -, hroot⟩ := build_root h
    exact .inl ⟨path, Option.some.inj (hn.symm.trans hroot)⟩
  | succ k =>
    have hk : k + 1 < t.size := (List.getElem?_eq_some_iff.1 hn).1
    rw [build_size h, Nat.add_lt_add_iff_right] at hk
    obtain ⟨n', hn', hnode⟩ := build_node h (List.getElem?_eq_getElem hk)
    cases hn.symm.trans hn'
    exact .inr ⟨_, List.getElem_mem hk, hnode⟩

/-- Every node has the last segment of its path for a name. -/
lemma build_name_eq (h : build f = .ok t) {i : Nat} {n : TreeNode} (hn : t.node? i = some n) :
    n.name = n.path.name := by
  obtain ⟨path, rfl⟩ | ⟨d, -, path, parent, rfl, -⟩ := build_node_cases h hn
  · rfl
  · rfl

/-- **The chain of a step**: the steps that the names pass, the last one first, and the flow. -/
theorem build_chain (h : build f = .ok t) {names : List String} {specs : List StepSpec}
    (hleads : Step.Leads f.steps names specs) :
    ∃ root i, Path.root f.effectiveName = .ok root ∧
      (t.node? i).map (·.path) = some ⟨root.segments ++ names⟩ ∧
      (t.chain i).map TreeNode.unplaced =
        (TreeNode.passed root.segments names specs).reverse ++ [TreeNode.ofFlow f root] := by
  obtain ⟨root, hroot, hadd⟩ := build_added h
  obtain ⟨root', hroot', hzero⟩ := build_root h
  cases hroot.symm.trans hroot'
  obtain ⟨i, hi, hchain⟩ := hadd.exists_chain (List.prefix_refl _)
    (fun c q hq => (build_parent_lt h hq).1) (by rw [hzero]; rfl) hleads
  refine ⟨root, i, hroot, hi, ?_⟩
  rw [hchain, chain_of_root hzero rfl]
  rfl

/-- Names lead to the step that is found under the last of them. -/
theorem build_idOf?_of_leads (h : build f = .ok t) {above : List String} {name : String}
    {specs : List StepSpec} (hleads : Step.Leads f.steps (above ++ [name]) specs) :
    ∃ root i n, Path.root f.effectiveName = .ok root ∧ t.idOf? name = some i ∧
      t.node? i = some n ∧ n.name = name ∧ n.path = ⟨root.segments ++ (above ++ [name])⟩ ∧
      (t.chain i).map TreeNode.unplaced =
        (TreeNode.passed root.segments (above ++ [name]) specs).reverse ++
          [TreeNode.ofFlow f root] := by
  obtain ⟨root, i, hroot, hi, hchain⟩ := build_chain h hleads
  obtain ⟨n, hn, hpath⟩ := Option.map_eq_some_iff.1 hi
  have hname : n.name = name := by
    rw [build_name_eq h hn, hpath]
    simp [Path.name]
  -- the path of the step is longer than that of the flow
  have hpos : 0 < i := by
    refine Nat.pos_of_ne_zero ?_
    rintro rfl
    obtain ⟨root', hroot', hzero⟩ := build_root h
    cases hroot.symm.trans hroot'
    cases hn.symm.trans hzero
    have := congrArg (·.segments.length) hpath
    simp [TreeNode.ofFlow] at this
  have hstep : t.isStep i = true := by
    rw [build_isStep h, decide_eq_true_eq]
    exact ⟨hpos, (List.getElem?_eq_some_iff.1 hn).1⟩
  refine ⟨root, i, n, hroot, ?_, hn, hname, hpath, hchain⟩
  have hfound := build_idOf?_name h hstep
  rwa [Tree.name, hn, Option.map_some, Option.getD_some, hname] at hfound

end Build

end Tree

end StepFlow

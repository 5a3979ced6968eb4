import StepFlow.Graph
import StepFlow.Proofs.Tree.Names

/-!
The building of a graph as one pass over the nodes. Connecting level by level, with the exit of
each inner chain handed to the next step, is the same as connecting the nodes in order of
declaration, each with the one before it (`connectLevel_eq_wire`). While this goes on the parents
and the children stay two views of the same edges (`Wired`).
-/

namespace StepFlow.Graph

/-! ### One edge -/

lemma node_modify (t : Tree) (nodes : List GraphNode) (k j : Nat) (f : GraphNode → GraphNode) :
    node ⟨t, nodes.modify k f⟩ j =
      if j = k ∧ j < nodes.length then f (node ⟨t, nodes⟩ j) else node ⟨t, nodes⟩ j := by
  unfold node
  rw [List.getElem?_modify]
  by_cases hj : j < nodes.length
  · rw [List.getElem?_eq_getElem hj]
    by_cases hk : j = k
    · simp [hk]
      omega
    · simp [hk, Ne.symm hk]
  · rw [List.getElem?_eq_none (by omega)]
    simp [hj]

section Connect

variable (g : Graph) (s i : Nat)

lemma connect_tree : (g.connect s i).tree = g.tree := by
  unfold connect
  split <;> rfl

lemma connect_size : (g.connect s i).size = g.size := by
  unfold connect size
  split <;> simp

lemma connect_exit (j : Nat) : ((g.connect s i).node j).exit = (g.node j).exit := by
  unfold connect
  split
  · rfl
  · rw [node_modify, node_modify]
    split <;> split <;> rfl

lemma connect_exitOf (j : Nat) : (g.connect s i).exitOf j = g.exitOf j := by
  rw [exitOf, connect_exit, exitOf]

lemma connect_parents (hi : i < g.size) (j : Nat) : (g.connect s i).parents j =
    if j = i ∧ i ∉ g.children s then g.parents j ++ [s] else g.parents j := by
  unfold connect parents
  by_cases hmem : i ∈ g.children s
  · simp [hmem]
  · rw [if_neg hmem, node_modify, node_modify]
    by_cases hji : j = i
    · subst hji
      have : j < g.nodes.length := hi
      simp [hmem, this]
      split <;> rfl
    · simp [hji]
      split <;> rfl

lemma connect_children (hs : s < g.size) (j : Nat) : (g.connect s i).children j =
    if j = s ∧ i ∉ g.children s then g.children j ++ [i] else g.children j := by
  unfold connect
  by_cases hmem : i ∈ g.children s
  · simp [hmem]
  · rw [if_neg hmem]
    unfold children
    rw [node_modify, node_modify]
    by_cases hjs : j = s
    · subst hjs
      have : j < g.nodes.length := hs
      have hmem' : i ∉ (g.node j).children := hmem
      simp [hmem', this]
      split <;> rfl
    · simp [hjs]
      split <;> rfl

end Connect

/-! ### What no edge changes -/

section Keeps

variable {α : Type} (view : Graph → α) (hview : ∀ g s i, view (connect g s i) = view g)
include hview

lemma foldl_connect_keeps (g : Graph) (sources : List Nat) (i : Nat) :
    view (sources.foldl (fun g s => g.connect s i) g) = view g := by
  induction sources generalizing g with
  | nil => rfl
  | cons s r ih => rw [List.foldl_cons, ih, hview]

lemma connectNode_keeps {g g' : Graph} {current i : Nat} (h : g.connectNode current i = .ok g') :
    view g' = view g := by
  unfold connectNode at h
  split at h
  · cases h
    rfl
  · rename_i n _
    split at h
    · cases h
      exact hview ..
    · cases hs : g.sources n.name n.dependencies with
      | error e =>
        rw [hs] at h
        cases h
      | ok from_ =>
        rw [hs] at h
        cases h
        exact foldl_connect_keeps view hview ..

end Keeps

lemma connectNode_tree {g g' : Graph} {current i : Nat} (h : g.connectNode current i = .ok g') :
    g'.tree = g.tree :=
  connectNode_keeps (·.tree) connect_tree h

/-! ### One pass -/

/-- Connects `n` nodes from `first` on, each with what it waits for: its dependencies, or else the
node before it. -/
def wire (g : Graph) : (first n : Nat) → Except GraphError Graph
  | _, 0 => .ok g
  | first, n + 1 =>
    match g.connectNode (first - 1) first with
    | .error e => .error e
    | .ok g => wire g (first + 1) n

/-- What no edge changes, the pass does not change. -/
lemma wire_keeps {α : Type} (view : Graph → α) (hview : ∀ g s i, view (connect g s i) = view g)
    {g g' : Graph} {first n : Nat} (h : g.wire first n = .ok g') : view g' = view g := by
  induction n generalizing g first with
  | zero =>
    cases h
    rfl
  | succ n ih =>
    rw [wire] at h
    split at h
    · cases h
    · rename_i g₁ hg₁
      rw [ih h, connectNode_keeps view hview hg₁]

lemma wire_tree {g g' : Graph} {first n : Nat} (h : g.wire first n = .ok g') :
    g'.tree = g.tree :=
  wire_keeps (·.tree) connect_tree h

lemma wire_exit {g g' : Graph} {first n : Nat} (h : g.wire first n = .ok g') (j : Nat) :
    (g'.node j).exit = (g.node j).exit :=
  wire_keeps (fun g => (g.node j).exit) (fun g s i => connect_exit g s i j) h

lemma wire_add (g : Graph) (first m n : Nat) :
    g.wire first (m + n) = (g.wire first m).bind fun g => g.wire (first + m) n := by
  induction m generalizing g first with
  | zero => simp [wire, Except.bind]
  | succ m ih =>
    rw [show m + 1 + n = m + n + 1 by omega, wire, wire]
    cases g.connectNode (first - 1) first with
    | error e => rfl
    | ok g₁ => simp only [ih, show first + 1 + m = first + (m + 1) by omega]

/-- What is done with one step of a level: it is connected, and so are the steps inside it. The
number is the step that the next one waits for. -/
def visit (levels : Nat) (s : Nat × Graph) (i : Nat) : Except GraphError (Nat × Graph) :=
  match s.2.connectNode s.1 i with
  | .error e => .error e
  | .ok g => if g.tree.isStage i then connectLevel levels i g else .ok (i, g)

lemma connectLevel_succ (levels start : Nat) (g : Graph) :
    connectLevel (levels + 1) start g = (g.tree.children start).foldlM (visit levels) (start, g) :=
  rfl

/-- **Level by level is node by node.** Going through the steps of a list, and into the stages
among them, connects the nodes of the list in order, each with the one before it, and ends at the
last of them. -/
theorem foldlM_visit {t : Tree} {levels parent first : Nat} {steps : List (String × Step)}
    (h : t.Laid levels parent first steps) (hlt : parent < first)
    (hclosed : t.Closed first (first + (Step.declared steps).length))
    (hparent : ∀ c q, t.parent? c = some q → q < c ∧ c < t.size) (g : Graph) (hg : g.tree = t) :
    (Step.places first steps).foldlM (visit (levels - 1)) (first - 1, g) =
      (g.wire first (Step.declared steps).length).map fun g' =>
        (first + (Step.declared steps).length - 1, g') := by
  induction h generalizing g with
  | nil => simp [Step.places_nil, Step.declared_nil, wire, Except.map, pure, Except.pure]
  | @cons levels parent first key spec inner rest hpar hinner hrest ih_inner ih_rest =>
    have hhead := hrest.closed_head hlt hclosed
    have htail := hclosed.tail
    have hchildren := hinner.children_eq hhead hparent
    rw [Step.places_cons, Step.declared_cons, List.foldlM_cons]
    simp only [List.length_cons, List.length_append, Nat.add_sub_cancel]
    rw [wire, visit]
    cases hc : g.connectNode (first - 1) first with
    | error e => rfl
    | ok g₁ =>
      have hg₁ : g₁.tree = t := (connectNode_tree hc).trans hg
      -- the step itself is connected; now what is inside it
      have hstep : (if g₁.tree.isStage first then connectLevel levels first g₁
          else .ok (first, g₁)) = (g₁.wire (first + 1) (Step.declared inner).length).map
            fun g' => (first + (Step.declared inner).length, g') := by
        rw [hg₁]
        cases hinner with
        | nil =>
          have hleaf : t.isStage first = false := by
            simp [Tree.isStage, hchildren, Step.places_nil]
          simp [hleaf, Step.declared_nil, wire, Except.map]
        | @cons levels _ _ key' spec' inner' rest' =>
          have hstage : t.isStage first = true := by
            simp [Tree.isStage, Tree.isStep, hchildren, Step.places_cons, hpar]
          have := ih_inner (by omega) (fun c q hq h1 h2 => hhead c q hq (by omega) h2) g₁ hg₁
          rw [if_pos hstage, connectLevel_succ, hg₁, hchildren]
          simpa [Nat.add_right_comm] using this
      simp only [hstep, wire_add]
      cases hw : g₁.wire (first + 1) (Step.declared inner).length with
      | error e => rfl
      | ok g₂ =>
        have hg₂ : g₂.tree = t := (wire_tree hw).trans hg₁
        have := ih_rest (by omega) htail g₂ hg₂
        simp only [Nat.add_sub_cancel] at this
        simp only [Except.map, Except.bind, bind]
        rw [show first + (Step.declared inner).length =
          first + 1 + (Step.declared inner).length - 1 by omega, this]
        simp only [Except.map]
        split <;> simp
        omega

/-- **The graph of a tree is wired in one pass.** -/
theorem connectLevel_eq_wire {f : Flow} {t : Tree} (h : Tree.build f = .ok t) (g : Graph)
    (hg : g.tree = t) :
    connectLevel Path.maxDepth 0 g =
      (g.wire 1 f.declared.length).map fun g' => (f.declared.length, g') := by
  have hlaid := Tree.build_laid h
  have hparent : ∀ c q, t.parent? c = some q → q < c ∧ c < t.size :=
    fun c q hq => Tree.build_parent_lt h hq
  have hclosed : t.Closed 0 (0 + 1 + (Step.declared f.steps).length) := by
    intro c q hq _ _
    have := (hparent c q hq).2
    rw [Tree.build_size h, Flow.declared] at this
    omega
  have hchildren := hlaid.children_eq hclosed hparent
  have := foldlM_visit hlaid Nat.zero_lt_one (Tree.build_closed h) hparent g hg
  rw [← hg] at hchildren
  unfold Path.maxDepth at this ⊢
  rw [connectLevel_succ, hchildren]
  simpa [Flow.declared] using this

end StepFlow.Graph

import Mathlib.Data.List.Basic
import Mathlib.Tactic.Lemma
import StepFlow.Proofs.Table
import StepFlow.Tree

/-!
The arena of a flow and its tree. What a node is stored with follows from the nodes and their parents
alone: its id is its place, the places stored as being inside it are those of the nodes whose parent it
is, and the index leads from a name to the step of that name. A node that is pushed keeps all of this in
step (`Arena.InStep.push`), and so does the builder (`Arena.addSteps_agrees`). Hence the tree can be built
without an arena (`Tree.build_eq`), and what it tells is what the arena stores (`Arena.build_refines`).
-/

namespace StepFlow

namespace Tree

/-! ### Building without an arena -/

/-- A step of this name is among the nodes. -/
def hasStep (nodes : List TreeNode) (name : String) : Bool :=
  nodes.any fun n => !n.isRoot && n.name = name

/-- The node of a step, if the step may stand below `above` and behind the nodes declared so far. -/
def stepNode (nodes : List TreeNode) (parent : Nat) (above : Path) (name : String) (spec : StepSpec)
    (stage : Bool) : Except TreeError TreeNode :=
  match above.child name with
  | .error e => .error (.badPath e)
  | .ok path =>
    if hasStep nodes path.name then .error (.duplicateName path.name path)
    else if stage && spec.plugin.isSome then .error (.pluginOnStage path)
    else if !stage && !spec.hasBody then .error (.noBody path)
    else .ok (.ofSpec spec path parent)

/-- Adds steps, each followed by the steps inside it, behind the nodes declared so far. -/
def addSteps (parent : Nat) (above : Path) :
    List (String × Step) → List TreeNode → Except TreeError (List TreeNode)
  | [], nodes => .ok nodes
  | (name, ⟨spec, inner⟩) :: rest, nodes =>
    match stepNode nodes parent above name spec (!inner.isEmpty) with
    | .error e => .error e
    | .ok node =>
      match addSteps nodes.length node.path inner (nodes ++ [node]) with
      | .error e => .error e
      | .ok nodes => addSteps parent above rest nodes

/-- What has to hold for a step to get a node, and what that node is. -/
theorem stepNode_eq_ok {nodes : List TreeNode} {parent : Nat} {above : Path} {key : String}
    {spec : StepSpec} {stage : Bool} {node : TreeNode}
    (h : stepNode nodes parent above key spec stage = .ok node) :
    ∃ path, above.child key = .ok path ∧ node = .ofSpec spec path parent ∧
      hasStep nodes path.name = false := by
  unfold stepNode at h
  split at h
  · cases h
  · rename_i path hpath
    split at h
    · cases h
    · rename_i hfresh
      split at h
      · cases h
      · split at h
        · cases h
        · cases h
          exact ⟨path, hpath, rfl, by simpa using hfresh⟩

/-! ### One more node -/

section Snoc

variable (nodes : List TreeNode) (node : TreeNode)

lemma children_snoc (i : Nat) : children ⟨nodes ++ [node]⟩ i =
    children ⟨nodes⟩ i ++ if node.parent = some i then [nodes.length] else [] := by
  have hlast : parent? ⟨nodes ++ [node]⟩ nodes.length = node.parent := by
    simp [parent?, node?]
  have hold : ∀ c ∈ List.range nodes.length,
      decide (parent? ⟨nodes ++ [node]⟩ c = some i) = decide (parent? ⟨nodes⟩ c = some i) := by
    intro c hc
    rw [parent?, parent?, node?, node?, List.getElem?_append_left (List.mem_range.mp hc)]
  rw [children, children, size, size, List.length_append, List.length_singleton, List.range_succ,
    List.filter_append, List.filter_congr hold, List.filter_singleton, hlast]
  by_cases hi : node.parent = some i <;> simp [hi]

lemma idOf?_snoc (name : String) : idOf? ⟨nodes ++ [node]⟩ name =
    (idOf? ⟨nodes⟩ name).or (if !node.isRoot && node.name = name then some nodes.length else none) := by
  rw [idOf?, List.findIdx?_append]
  congr 1
  by_cases h : (!node.isRoot && node.name = name) = true <;> simp [h]

lemma hasStep_eq_isSome (name : String) : hasStep nodes name = (idOf? ⟨nodes⟩ name).isSome := by
  rw [hasStep, idOf?, List.findIdx?_isSome]

end Snoc

end Tree

namespace Arena

variable {a b : Arena} {parent i : Nat} {node : TreeNode}

/-! ### The nodes of an arena as a tree -/

lemma length_tree (a : Arena) : a.tree.nodes.length = a.size := List.length_map _

lemma size_tree (a : Arena) : a.tree.size = a.size := length_tree a

lemma node?_tree (a : Arena) (i : Nat) : a.tree.node? i = (a.node? i).map (·.toTreeNode) :=
  List.getElem?_map

lemma parent?_tree (a : Arena) (i : Nat) : a.tree.parent? i = a.parent? i := by
  rw [Tree.parent?, node?_tree, parent?, Option.bind_map]
  rfl

lemma path_eq (a : Arena) (i : Nat) : a.path i = ((a.tree.node? i).map (·.path)).getD ⟨[]⟩ := by
  rw [path, node?_tree, Option.map_map]
  rfl

lemma path_of_isPrefix (h : a.tree.nodes <+: b.tree.nodes) (hi : i < a.size) : b.path i = a.path i := by
  rw [← size_tree] at hi
  rw [path_eq, path_eq, Tree.node?, Tree.node?, List.getElem?_eq_getElem hi,
    List.prefix_iff_getElem?.1 h i hi]

lemma ancestors_tree (a : Arena) (i : Nat) : a.tree.ancestors i = a.ancestors i := by
  induction i using Nat.strongRecOn with
  | ind i ih =>
    rw [Tree.ancestors, ancestors, parent?_tree]
    cases a.parent? i with
    | none => rfl
    | some p =>
      by_cases hp : p < i
      · simp only [if_pos hp, ih p hp]
      · simp only [if_neg hp]

lemma findPath?_eq (a : Arena) (text : String) :
    a.findPath? text = (a.tree.findPath? text).bind a.node? := by
  rw [findPath?, Tree.findPath?]
  cases Path.parse text with
  | error e => rfl
  | ok path =>
    simp only [tree, List.findIdx?_map]
    exact List.find?_eq_bind_findIdx?_getElem?

/-! ### Pushing a node -/

lemma nodes_tree_push (a : Arena) (parent : Nat) (node : TreeNode) :
    (a.push parent node).tree.nodes = a.tree.nodes ++ [node] := by
  -- the node that `node` is put inside changes in its children only
  have hsame : ∀ nodes : List ArenaNode, (nodes.modify parent fun n =>
      { n with children := n.children ++ [a.size] }).map (·.toTreeNode) = nodes.map (·.toTreeNode) := by
    intro nodes
    refine List.ext_getElem? fun i => ?_
    rw [List.getElem?_map, List.getElem?_map, List.getElem?_modify]
    cases nodes[i]? with
    | none => rfl
    | some n => by_cases hi : parent = i <;> simp [hi]
  rw [tree, tree, push, hsame, List.map_append]
  rfl

lemma size_lt_push (a : Arena) (parent : Nat) (node : TreeNode) :
    a.size < (a.push parent node).size := by
  rw [← length_tree, ← length_tree, nodes_tree_push, List.length_append]
  exact Nat.lt_succ_self _

lemma node?_push (hparent : parent < a.size) (node : TreeNode) (i : Nat) :
    (a.push parent node).node? i =
      if i = a.size then some { node with id := a.size }
      else (a.node? i).map fun n =>
        if parent = i then { n with children := n.children ++ [a.size] } else n := by
  rw [node?, push, List.getElem?_modify]
  by_cases hlast : i = a.size
  · subst hlast
    have hne : parent ≠ a.nodes.length := Nat.ne_of_lt hparent
    simp [size, hne]
  · have hold : (a.nodes ++ [{ node with id := a.size }])[i]? = a.nodes[i]? := by
      rw [List.getElem?_append]
      split
      · rfl
      · rw [List.getElem?_eq_none (by simp [size] at hlast ⊢; omega)]
        exact (List.getElem?_eq_none (by omega)).symm
    rw [if_neg hlast, hold]
    rfl

lemma children_push (hparent : parent < a.size) (node : TreeNode) (i : Nat) :
    (a.push parent node).children i = a.children i ++ if parent = i then [a.size] else [] := by
  rw [children, children, node?_push hparent]
  by_cases hlast : i = a.size
  · subst hlast
    have hnone : a.node? a.size = none := List.getElem?_eq_none (Nat.le_refl _)
    simp [hnone, Nat.ne_of_lt hparent]
  · rw [if_neg hlast, Option.map_map]
    cases hn : a.node? i with
    | none =>
      have hne : parent ≠ i := by
        rintro rfl
        exact absurd (List.getElem?_eq_none_iff.mp hn) (Nat.not_le_of_lt hparent)
      simp [hne]
    | some n => by_cases hi : parent = i <;> simp [hi]

lemma path_push (hparent : parent < a.size) (node : TreeNode) :
    (a.push parent node).path a.size = node.path := by
  rw [path, node?_push hparent, if_pos rfl]
  rfl

lemma idOf?_push (a : Arena) (parent : Nat) (node : TreeNode) (name : String) :
    (a.push parent node).idOf? name = if node.name = name then some a.size else a.idOf? name :=
  Table.get?_insert ..

/-- What a node is stored with is in step with the nodes themselves. -/
structure InStep (a : Arena) : Prop where
  id : ∀ i n, a.node? i = some n → n.id = i
  children : ∀ i, a.children i = a.tree.children i
  idOf? : ∀ name, a.idOf? name = a.tree.idOf? name
  names_nodup : (Table.names a.index).Nodup

lemma inStep_ofRoot {root : TreeNode} (hroot : root.parent = none) : (ofRoot root).InStep where
  id i n hn := by
    cases i with
    | zero =>
      cases hn
      rfl
    | succ i => cases hn
  children i := by
    have htree : (ofRoot root).tree = ⟨[] ++ [root]⟩ := rfl
    rw [htree, Tree.children_snoc, hroot]
    cases i <;> rfl
  idOf? name := by
    have htree : (ofRoot root).tree = ⟨[] ++ [root]⟩ := rfl
    rw [htree, Tree.idOf?_snoc, TreeNode.isRoot, hroot]
    rfl
  names_nodup := List.nodup_nil

/-- **A node that is pushed** keeps the arena in step, if it is new and inside one that is there. -/
theorem InStep.push (h : a.InStep) (hparent : parent < a.size) (hnode : node.parent = some parent)
    (hfresh : a.idOf? node.name = none) : (a.push parent node).InStep := by
  have htree : (a.push parent node).tree = ⟨a.tree.nodes ++ [node]⟩ := by rw [← nodes_tree_push]
  constructor
  case id =>
    intro i n hn
    rw [node?_push hparent] at hn
    split at hn
    case isTrue hlast =>
      cases hn
      exact hlast.symm
    case isFalse =>
      obtain ⟨m, hm, rfl⟩ := Option.map_eq_some_iff.mp hn
      rw [← h.id i m hm]
      split <;> rfl
  case children =>
    intro i
    rw [children_push hparent, h.children, htree, Tree.children_snoc, hnode, length_tree]
    simp only [Option.some.injEq]
  case idOf? =>
    intro name
    have hstep : node.isRoot = false := by rw [TreeNode.isRoot, hnode]; rfl
    rw [idOf?_push, htree, Tree.idOf?_snoc, length_tree, hstep, h.idOf?]
    by_cases hname : node.name = name
    · subst hname
      rw [h.idOf?] at hfresh
      simp [hfresh]
    · simp [hname]
  case names_nodup => exact Table.nodup_insert h.names_nodup ..

/-! ### Adding steps -/

/-- The arena stores a step where the tree has a node for it, and refuses it for the same reason. -/
lemma InStep.declare_eq (h : a.InStep) (parent : Nat) (key : String) (spec : StepSpec) (stage : Bool) :
    a.declare parent key spec stage =
      (Tree.stepNode a.tree.nodes parent (a.path parent) key spec stage).map (a.push parent) := by
  rw [declare, Tree.stepNode]
  cases (a.path parent).child key with
  | error e => rfl
  | ok path =>
    simp only [Tree.hasStep_eq_isSome, h.idOf?]
    split
    · rfl
    · split
      · rfl
      · split <;> rfl

/-- A step that may stand inside a node is pushed, and what is in step stays so. -/
lemma InStep.declare_eq_ok (h : a.InStep) (hparent : parent < a.size) {key : String}
    {spec : StepSpec} {stage : Bool}
    (hnode : Tree.stepNode a.tree.nodes parent (a.path parent) key spec stage = .ok node) :
    a.declare parent key spec stage = .ok (a.push parent node) ∧ (a.push parent node).InStep := by
  obtain ⟨path, -, rfl, hfresh⟩ := Tree.stepNode_eq_ok hnode
  rw [Tree.hasStep_eq_isSome, ← h.idOf?, Option.isSome_eq_false_iff, Option.isNone_iff_eq_none] at hfresh
  refine ⟨?_, h.push hparent rfl hfresh⟩
  rw [h.declare_eq, hnode]
  rfl

/-- `Agrees a x y`: from the arena `a` on, `x` is an arena in step that keeps the nodes of `a` and whose
nodes are `y`; or both are the same error. -/
inductive Agrees (a : Arena) : Except TreeError Arena → Except TreeError (List TreeNode) → Prop where
  | error (e : TreeError) : Agrees a (.error e) (.error e)
  | ok {b : Arena} (hb : b.InStep) (hkeeps : a.tree.nodes <+: b.tree.nodes) :
      Agrees a (.ok b) (.ok b.tree.nodes)

lemma Agrees.of_error {x : Except TreeError Arena} {e : TreeError} (h : Agrees a x (.error e)) :
    x = .error e := by
  cases h
  rfl

lemma Agrees.of_ok {x : Except TreeError Arena} {nodes : List TreeNode}
    (h : Agrees a x (.ok nodes)) :
    ∃ b, x = .ok b ∧ b.InStep ∧ a.tree.nodes <+: b.tree.nodes ∧ b.tree.nodes = nodes := by
  cases h with
  | ok hb hkeeps => exact ⟨_, rfl, hb, hkeeps, rfl⟩

lemma Agrees.inStep {y : Except TreeError (List TreeNode)} (h : Agrees a (.ok b) y) : b.InStep := by
  cases h with
  | ok hb _ => exact hb

lemma Agrees.map_tree {x : Except TreeError Arena} {y : Except TreeError (List TreeNode)}
    (h : Agrees a x y) : x.map tree = y.map Tree.mk := by
  cases h <;> rfl

lemma Agrees.of_isPrefix {x : Except TreeError Arena} {y : Except TreeError (List TreeNode)}
    (h : Agrees b x y) (hab : a.tree.nodes <+: b.tree.nodes) : Agrees a x y := by
  cases h with
  | error e => exact .error e
  | ok hc hkeeps => exact .ok hc (hab.trans hkeeps)

/-- **Adding steps** keeps an arena in step, and its nodes are those that are added without an arena. -/
theorem InStep.addSteps_agrees (h : a.InStep) (hparent : parent < a.size) {above : Path}
    (habove : a.path parent = above) {nodes : List TreeNode} (hnodes : a.tree.nodes = nodes)
    (steps : List (String × Step)) :
    Agrees a (a.addSteps parent steps) (Tree.addSteps parent above steps nodes) := by
  induction parent, above, steps, nodes using Tree.addSteps.induct generalizing a with
  | case1 parent above nodes =>
    subst hnodes
    rw [addSteps, Tree.addSteps]
    exact .ok h (List.prefix_refl _)
  | case2 parent above key spec inner rest nodes e he =>
    subst habove hnodes
    rw [addSteps, h.declare_eq, Tree.addSteps, he]
    exact .error e
  | case3 parent above key spec inner rest nodes node hnode e he ih_inner =>
    subst habove hnodes
    rw [length_tree] at he ih_inner
    obtain ⟨hdeclare, hpushed⟩ := h.declare_eq_ok hparent hnode
    have hinner := ih_inner hpushed (size_lt_push ..) (path_push hparent node)
      (nodes_tree_push ..)
    rw [he] at hinner
    rw [addSteps, hdeclare, Tree.addSteps, hnode]
    simp only [length_tree, he, hinner.of_error]
    exact .error e
  | case4 parent above key spec inner rest nodes node hnode mid hmid ih_inner ih_rest =>
    subst habove hnodes
    rw [length_tree] at hmid ih_inner
    obtain ⟨hdeclare, hpushed⟩ := h.declare_eq_ok hparent hnode
    have hinner := ih_inner hpushed (size_lt_push ..) (path_push hparent node)
      (nodes_tree_push ..)
    rw [hmid] at hinner
    obtain ⟨b, hadded, hb, hkeeps, rfl⟩ := hinner.of_ok
    -- the node around the list is still there, with the path it had
    have hab : a.tree.nodes <+: b.tree.nodes :=
      (nodes_tree_push a parent node ▸ List.prefix_append _ _).trans hkeeps
    have hlength := hab.length_le
    rw [length_tree, length_tree] at hlength
    have hrest := ih_rest hb (Nat.lt_of_lt_of_le hparent hlength) (path_of_isPrefix hab hparent) rfl
    rw [addSteps, hdeclare, Tree.addSteps, hnode]
    simp only [length_tree, hmid, hadded]
    exact hrest.of_isPrefix hab

/-! ### The arena of a flow -/

lemma addSteps_ofFlow_agrees (f : Flow) (path : Path) :
    Agrees (ofRoot (.ofFlow f path)) ((ofRoot (.ofFlow f path)).addSteps 0 f.steps)
      (Tree.addSteps 0 path f.steps [.ofFlow f path]) :=
  (inStep_ofRoot rfl).addSteps_agrees Nat.zero_lt_one rfl rfl f.steps

theorem build_inStep {f : Flow} (h : build f = .ok a) : a.InStep := by
  unfold build at h
  split at h
  · cases h
  case _ path _ =>
    have hagrees := addSteps_ofFlow_agrees f path
    rw [h] at hagrees
    exact hagrees.inStep

/-- The nodes of an arena in step are given by its tree. -/
lemma InStep.nodes_eq (h : a.InStep) : a.nodes = a.tree.nodes.mapIdx fun i n =>
    { n with id := i, children := a.tree.children i } := by
  refine List.ext_getElem? fun i => ?_
  rw [List.getElem?_mapIdx, ← Tree.node?, node?_tree, ← node?]
  cases hn : a.node? i with
  | none => rfl
  | some n =>
    have hchildren : a.tree.children i = n.children := by
      rw [← h.children, Arena.children, hn]
      rfl
    rw [Option.map_some, Option.map_some, hchildren, ← h.id i n hn]

/-- **What the tree of a flow tells** is what its arena stores: the nodes, each with its id and those
right inside it, what the index leads to, the way out to the root, and what a path leads to. -/
theorem build_refines {f : Flow} (h : build f = .ok a) :
    Tree.build f = .ok a.tree ∧
    a.nodes = a.tree.nodes.mapIdx (fun i n =>
      { n with id := i, children := a.tree.children i }) ∧
    (∀ i, a.children i = a.tree.children i) ∧
    (∀ name, a.idOf? name = a.tree.idOf? name) ∧
    (∀ i, a.ancestors i = a.tree.ancestors i) ∧
    ∀ text, a.findPath? text = (a.tree.findPath? text).bind a.node? := by
  have hstep := build_inStep h
  refine ⟨?_, hstep.nodes_eq, hstep.children, hstep.idOf?, fun i => (ancestors_tree a i).symm,
    findPath?_eq a⟩
  rw [Tree.build, h]
  rfl

end Arena

namespace Tree

/-- **The tree of a flow** as it is built without an arena. -/
theorem build_eq (f : Flow) : build f =
    match Path.root f.effectiveName with
    | .error e => .error (.badPath e)
    | .ok path => (addSteps 0 path f.steps [.ofFlow f path]).map Tree.mk := by
  rw [build, Arena.build]
  cases Path.root f.effectiveName with
  | error e => rfl
  | ok path =>
    exact (Arena.addSteps_ofFlow_agrees f path).map_tree

end Tree

end StepFlow

import Mathlib
import StepFlow.Proofs.Path
import StepFlow.Proofs.Tree.Chains

/-!
How the nodes of a flow are arranged. The document alone says what is stored in an arena and where
(`Flow.layout`): the flow, then every step with its id, its path, the place of the node around it and the
places of the nodes right inside it. An arena that is built is laid out so, and what all later code relies
on holds of it (`Arena.Arranged`): parents come first, the places inside a node and the index of names
agree with the nodes, paths lengthen by one name, and nodes are found by their names and by the texts of
their paths. Most of this is shown of the tree, which has the same nodes, and carried over to the arena.
-/

namespace StepFlow

/-! ### The layout of a document -/

/-- The nodes of steps that are right inside the node `parent`, whose path is `above`, and of all steps
in these, from the place `first` on. -/
def Step.layout (above : List String) (parent first : Nat) : List (String × Step) → List ArenaNode
  | [] => []
  | (key, ⟨spec, inner⟩) :: rest =>
    let path := above ++ [Text.trim key]
    { TreeNode.ofSpec spec ⟨path⟩ parent with id := first, children := places (first + 1) inner } ::
      (layout path first (first + 1) inner ++
        layout above parent (first + 1 + (declared inner).length) rest)

/-- The nodes of a flow and its steps, in order of declaration. -/
def Flow.layout (f : Flow) : List ArenaNode :=
  let path := [Text.trim f.effectiveName]
  { TreeNode.ofFlow f ⟨path⟩ with id := 0, children := Step.places 1 f.steps } ::
    Step.layout path 0 1 f.steps

lemma Step.layout_nil (above : List String) (parent first : Nat) :
    layout above parent first [] = [] := by simp [layout]

lemma Step.layout_cons (above : List String) (parent first : Nat) (key : String) (spec : StepSpec)
    (inner rest : List (String × Step)) :
    layout above parent first ((key, ⟨spec, inner⟩) :: rest) =
      { TreeNode.ofSpec spec ⟨above ++ [Text.trim key]⟩ parent with
        id := first, children := places (first + 1) inner } ::
        (layout (above ++ [Text.trim key]) first (first + 1) inner ++
          layout above parent (first + 1 + (declared inner).length) rest) := by
  rw [layout]

lemma Step.layout_ids (above : List String) (parent first : Nat) (steps : List (String × Step)) :
    (layout above parent first steps).map (·.id) = List.range' first (declared steps).length := by
  induction steps using declared.induct generalizing above parent first with
  | case1 => rw [layout_nil, declared_nil]; rfl
  | case2 key spec inner rest ih_inner ih_rest =>
    rw [layout_cons, declared_cons, List.map_cons, List.map_append, ih_inner, ih_rest,
      List.length_cons, List.length_append, List.range'_succ, ← List.range'_append_1]

/-- The id of a node is its place. -/
lemma Flow.layout_ids (f : Flow) : f.layout.map (·.id) = List.range (f.declared.length + 1) := by
  rw [layout, List.map_cons, Step.layout_ids, List.range_eq_range', List.range'_succ]
  rfl

namespace Tree

/-- The nodes that are added are those of the layout. -/
theorem Added.layout {parent : Nat} {above : Path} {nodes nodes' : List TreeNode}
    {steps : List (String × Step)} (h : Added parent above nodes steps nodes') :
    nodes' = nodes ++ (Step.layout above.segments parent nodes.length steps).map (·.toTreeNode) := by
  induction h with
  | nil => rw [Step.layout_nil, List.map_nil, List.append_nil]
  | @cons parent above nodes mid nodes' node key spec inner rest hnode hinner _ ih_inner ih_rest =>
    obtain ⟨path, hpath, rfl, -⟩ := stepNode_eq_ok hnode
    obtain rfl : path = ⟨above.segments ++ [Text.trim key]⟩ := by
      rw [← (Path.child_eq_ok hpath).1]
    have hmid : mid.length = nodes.length + 1 + (Step.declared inner).length := by
      simpa using hinner.length
    rw [List.length_append, List.length_singleton] at ih_inner
    rw [hmid] at ih_rest
    rw [ih_rest, ih_inner, Step.layout_cons]
    simp only [List.map_cons, List.map_append, List.append_assoc, List.cons_append, List.nil_append]
    rfl

/-- The nodes right inside those of laid steps stand where the layout says. -/
theorem Laid.children_layout {t : Tree} {levels parent first : Nat} {steps : List (String × Step)}
    (h : Laid t levels parent first steps) (hlt : parent < first)
    (hclosed : Closed t first (first + (Step.declared steps).length))
    (hparent : ∀ c q, t.parent? c = some q → q < c ∧ c < t.size) (above : List String) :
    (List.range' first (Step.declared steps).length).map t.children =
      (Step.layout above parent first steps).map (·.children) := by
  induction h generalizing above with
  | nil => rw [Step.layout_nil, Step.declared_nil]; rfl
  | @cons levels parent first key spec inner rest _ hinner hrest ih_inner ih_rest =>
    have hhead := hrest.closed_head hlt hclosed
    have hclosedInner : Closed t (first + 1) (first + 1 + (Step.declared inner).length) :=
      fun c q hq hfirst hpast => hhead c q hq (by omega) hpast
    rw [Step.layout_cons, Step.declared_cons, List.length_cons, List.length_append,
      List.range'_succ, ← List.range'_append_1, List.map_cons, List.map_append,
      ih_inner (Nat.lt_succ_self first) hclosedInner _, ih_rest (by omega) hclosed.tail _,
      hinner.children_eq hhead hparent, List.map_cons, List.map_append]

section Build

variable {f : Flow} {t : Tree} {i : Nat} {n : TreeNode}

theorem build_layout (h : build f = .ok t) :
    t.nodes = f.layout.map (·.toTreeNode) ∧
      (List.range t.size).map t.children = f.layout.map (·.children) := by
  have hparent : ∀ c q, t.parent? c = some q → q < c ∧ c < t.size :=
    fun c q hq => build_parent_lt h hq
  constructor
  · obtain ⟨path, hpath, hadd⟩ := build_added h
    have hroot : path = ⟨[Text.trim f.effectiveName]⟩ := by rw [← Path.root_eq_ok hpath]
    rw [hadd.layout, hroot, Flow.layout]
    rfl
  · have hlaid := build_laid h
    have hclosed : Closed t 0 (0 + 1 + (Step.declared f.steps).length) := by
      intro c q hq _ _
      have := (hparent c q hq).2
      rw [build_size h, Flow.declared] at this
      omega
    have hroot : t.children 0 = Step.places 1 f.steps := hlaid.children_eq hclosed hparent
    have hsteps := hlaid.children_layout Nat.zero_lt_one (build_closed h) hparent
      [Text.trim f.effectiveName]
    rw [build_size h, List.range_eq_range', List.range'_succ, List.map_cons, hroot, Flow.declared,
      hsteps, Flow.layout, List.map_cons]

/-! ### Parents and paths -/

/-- The path of an added node goes on from that of the node it is in. -/
lemma Added.exists_parent {parent : Nat} {above : Path} {nodes nodes' : List TreeNode}
    {steps : List (String × Step)} (h : Added parent above nodes steps nodes')
    (ht : nodes' <+: t.nodes) (hparent : (t.node? parent).map (·.path) = some above)
    (hfirst : nodes.length ≤ i) (hpast : i < nodes'.length) (hn : t.node? i = some n) :
    ∃ q m key, n.parent = some q ∧ t.node? q = some m ∧ m.path.child key = .ok n.path := by
  induction h with
  | nil => omega
  | @cons parent above nodes mid nodes' node key spec inner rest hnode hinner hrest ih_inner
      ih_rest =>
    have hmid : mid <+: t.nodes := hrest.keeps.trans ht
    have hget : t.node? nodes.length = some node := hinner.node?_last hmid
    by_cases hi : i = nodes.length
    · obtain ⟨path, hpath, rfl, -⟩ := stepNode_eq_ok hnode
      rw [hi, hget] at hn
      cases hn
      obtain ⟨m, hm, rfl⟩ := Option.map_eq_some_iff.1 hparent
      exact ⟨parent, m, key, rfl, hm, hpath⟩
    · by_cases hin : i < mid.length
      · exact ih_inner hmid (by rw [hget]; rfl) (by simp; omega) hin
      · exact ih_rest ht hparent (Nat.le_of_not_lt hin) hpast

/-- Every node but the root is in an earlier one, and its path is that one's with its name. -/
lemma build_exists_parent (h : build f = .ok t) (hn : t.node? i = some n) (hi : 0 < i) :
    ∃ q m key, n.parent = some q ∧ t.node? q = some m ∧ m.path.child key = .ok n.path := by
  obtain ⟨path, hpath, hadd⟩ := build_added h
  obtain ⟨path', hpath', hzero⟩ := build_root h
  cases hpath.symm.trans hpath'
  exact hadd.exists_parent (List.prefix_refl _) (by rw [hzero]; rfl) hi
    (List.getElem?_eq_some_iff.1 hn).1 hn

lemma build_formed (h : build f = .ok t) (hn : t.node? i = some n) : n.path.Formed := by
  induction i using Nat.strong_induction_on generalizing n with
  | _ i ih =>
    obtain rfl | hi := Nat.eq_zero_or_pos i
    · obtain ⟨path, hpath, hzero⟩ := build_root h
      cases hn.symm.trans hzero
      exact Path.root_formed hpath
    · obtain ⟨q, m, key, hq, hm, hchild⟩ := build_exists_parent h hn hi
      have hparent : t.parent? i = some q := by rw [parent?, hn, Option.bind_some, hq]
      exact (ih q (build_parent_lt h hparent).1 hm).child hchild

/-- Only the root is in no other node. -/
lemma build_parent?_eq_none_iff (h : build f = .ok t) (hi : i < t.size) :
    t.parent? i = none ↔ i = 0 := by
  constructor
  · intro hnone
    have hstep := build_isStep h i
    rw [isStep, hnone, Option.isSome_none, eq_comm, decide_eq_false_iff_not] at hstep
    omega
  · rintro rfl
    exact build_parent?_zero h

/-- The path of a node is that of its parent with its name. -/
lemma build_segments (h : build f = .ok t) (hn : t.node? i = some n) {q : Nat}
    (hq : n.parent = some q) :
    ∃ m, t.node? q = some m ∧ n.path.segments = m.path.segments ++ [n.name] := by
  have hi : 0 < i := by
    refine Nat.pos_of_ne_zero ?_
    rintro rfl
    have := build_parent?_zero h
    rw [parent?, hn, Option.bind_some, hq] at this
    cases this
  obtain ⟨q', m, key, hq', hm, hchild⟩ := build_exists_parent h hn hi
  cases hq.symm.trans hq'
  refine ⟨m, hm, ?_⟩
  rw [build_name_eq h hn, Path.name_of_child hchild]
  exact (Path.child_eq_ok hchild).1

/-- A node is as deep as the way out to the root is long. -/
lemma build_depth (h : build f = .ok t) (hn : t.node? i = some n) :
    n.path.depth = (t.ancestors i).length := by
  induction i using Nat.strong_induction_on generalizing n with
  | _ i ih =>
    have hparent : t.parent? i = n.parent := by rw [parent?, hn, Option.bind_some]
    cases hq : n.parent with
    | none =>
      rw [hq] at hparent
      have hi : i < t.size := (List.getElem?_eq_some_iff.1 hn).1
      obtain rfl := (build_parent?_eq_none_iff h hi).1 hparent
      obtain ⟨path, hpath, hzero⟩ := build_root h
      cases hn.symm.trans hzero
      rw [ancestors_of_root hparent]
      exact Path.depth_of_root hpath
    | some q =>
      rw [hq] at hparent
      obtain ⟨m, hm, hsegments⟩ := build_segments h hn hq
      have hlt := (build_parent_lt h hparent).1
      rw [ancestors_of_parent hparent hlt, List.length_cons, ← ih q hlt hm, Path.depth, hsegments,
        List.length_append]
      rfl

/-! ### Looking nodes up -/

/-- Only the root has a path of one segment. -/
lemma build_isRoot_iff (h : build f = .ok t) (hn : t.node? i = some n) :
    n.path.isRoot = true ↔ i = 0 := by
  rw [Path.isRoot, decide_eq_true_eq]
  constructor
  · intro hlength
    have hi : i < t.size := (List.getElem?_eq_some_iff.1 hn).1
    rw [← build_parent?_eq_none_iff h hi, parent?, hn, Option.bind_some]
    cases hq : n.parent with
    | none => rfl
    | some q =>
      obtain ⟨m, hm, hsegments⟩ := build_segments h hn hq
      rw [hsegments, List.length_append, List.length_singleton, Nat.add_eq_right,
        List.length_eq_zero_iff] at hlength
      exact absurd hlength (build_formed h hm).some_segment
  · rintro rfl
    obtain ⟨path, hpath, hzero⟩ := build_root h
    cases hn.symm.trans hzero
    exact Path.depth_of_root hpath

/-- Two nodes of one path are the same node. -/
lemma build_path_inj (h : build f = .ok t) {j : Nat} {m : TreeNode} (hn : t.node? i = some n)
    (hm : t.node? j = some m) (hpath : n.path = m.path) : i = j := by
  have hroot : i = 0 ↔ j = 0 := by
    rw [← build_isRoot_iff h hn, ← build_isRoot_iff h hm, hpath]
  obtain rfl | hi := Nat.eq_zero_or_pos i
  · exact (hroot.1 rfl).symm
  · have hj : 0 < j := Nat.pos_of_ne_zero (mt hroot.2 hi.ne')
    have hstep : ∀ {k o}, t.node? k = some o → 0 < k → t.isStep k = true := by
      intro k o ho hk
      rw [build_isStep h, decide_eq_true_eq]
      exact ⟨hk, (List.getElem?_eq_some_iff.1 ho).1⟩
    apply build_name_inj h (hstep hn hi) (hstep hm hj)
    rw [name, name, hn, hm, Option.map_some, Option.map_some, build_name_eq h hn,
      build_name_eq h hm, hpath]

/-- **A node is found** by the text of its path. -/
lemma build_findPath? (h : build f = .ok t) (hn : t.node? i = some n) :
    t.findPath? n.path.text = some i := by
  rw [findPath?, Path.parse_text (build_formed h hn)]
  obtain ⟨hi, hget⟩ := List.getElem?_eq_some_iff.1 hn
  refine List.findIdx?_eq_some_iff_getElem.2 ⟨hi, by simp [hget], ?_⟩
  intro j hj
  have hlt : j < t.nodes.length := hj.trans hi
  rw [decide_eq_true_eq]
  intro hpath
  exact hj.ne (build_path_inj h (List.getElem?_eq_getElem hlt) hn hpath)

/-- The steps and no others are found by their names. -/
lemma build_idOf?_eq_some_iff (h : build f = .ok t) {name : String} :
    t.idOf? name = some i ↔ t.isStep i = true ∧ t.name i = name := by
  refine ⟨idOf?_eq_some, ?_⟩
  rintro ⟨hi, rfl⟩
  exact build_idOf?_name h hi

end Build

end Tree

namespace Arena

variable {f : Flow} {a : Arena} {i : Nat} {n : ArenaNode}

/-! ### What an arena holds -/

/-- What is read off the places in order is read off the items at these places. -/
lemma eq_of_map_range {α β : Type} {items : List α} {read : Nat → β} {view : α → β} {k : Nat}
    (h : (List.range k).map read = items.map view) {x : α} (hx : items[i]? = some x) :
    read i = view x := by
  have hget := congrArg (·[i]?) h
  simp only [List.getElem?_map, hx, Option.map_some] at hget
  obtain ⟨j, hj, hread⟩ := Option.map_eq_some_iff.1 hget
  obtain ⟨hi, rfl⟩ := List.getElem?_eq_some_iff.1 hj
  rw [← hread, List.getElem_range]

/-- **The nodes of an arena** are those of the layout, with their ids and what is inside them. -/
lemma build_layout (h : build f = .ok a) : a.nodes = f.layout := by
  obtain ⟨ht, hnodes, -⟩ := build_refines h
  obtain ⟨hlayout, hchildren⟩ := Tree.build_layout ht
  rw [hnodes, hlayout]
  refine List.ext_getElem? fun i => ?_
  rw [List.getElem?_mapIdx, List.getElem?_map]
  cases hm : f.layout[i]? with
  | none => rfl
  | some m =>
    have hid : i = m.id := eq_of_map_range ((List.map_id _).trans f.layout_ids.symm) hm
    have hinside : a.tree.children i = m.children := eq_of_map_range hchildren hm
    rw [Option.map_some, Option.map_some, hinside, hid]

lemma node?_tree_of_node? (hn : a.node? i = some n) : a.tree.node? i = some n.toTreeNode := by
  rw [node?_tree, hn]
  rfl

lemma parent?_tree_of_node? (hn : a.node? i = some n) : a.tree.parent? i = n.parent := by
  rw [Tree.parent?, node?_tree_of_node? hn, Option.bind_some]

lemma lt_size_of_node? (hn : a.node? i = some n) : i < a.size :=
  (List.getElem?_eq_some_iff.1 hn).1

section Build

variable (h : build f = .ok a)
include h

lemma build_root_iff (hn : a.node? i = some n) : n.parent = none ↔ i = 0 := by
  obtain ⟨ht, -⟩ := build_refines h
  rw [← parent?_tree_of_node? hn]
  exact Tree.build_parent?_eq_none_iff ht ((size_tree a).symm ▸ lt_size_of_node? hn)

lemma build_parent_lt (hn : a.node? i = some n) {q : Nat} (hq : n.parent = some q) :
    q < i ∧ i < a.size := by
  obtain ⟨ht, -⟩ := build_refines h
  rw [← size_tree]
  exact Tree.build_parent_lt ht ((parent?_tree_of_node? hn).trans hq)

/-- The places that a node is stored with are those of the nodes whose parent it is, in order. -/
lemma build_children (hn : a.node? i = some n) : n.children.Pairwise (· < ·) ∧
    ∀ c, c ∈ n.children ↔ ∃ m, a.node? c = some m ∧ m.parent = some i := by
  obtain ⟨ht, -, hchildren, -⟩ := build_refines h
  have hinside : n.children = a.tree.children i := by
    rw [← hchildren, children, hn]
    rfl
  rw [hinside]
  refine ⟨List.pairwise_lt_range.filter _, fun c => ?_⟩
  rw [Tree.children, List.mem_filter, List.mem_range, decide_eq_true_eq,
    and_iff_right_of_imp fun hc => (Tree.build_parent_lt ht hc).2, parent?_tree, parent?,
    Option.bind_eq_some_iff]

lemma build_segments (hn : a.node? i = some n) {q : Nat} (hq : n.parent = some q) :
    ∃ m, a.node? q = some m ∧ n.path.segments = m.path.segments ++ [n.name] := by
  obtain ⟨ht, -⟩ := build_refines h
  obtain ⟨_, hnode, hsegments⟩ := Tree.build_segments ht (node?_tree_of_node? hn) hq
  rw [node?_tree] at hnode
  obtain ⟨m, hm, rfl⟩ := Option.map_eq_some_iff.1 hnode
  exact ⟨m, hm, hsegments⟩

/-- The way out of a node goes on from its parent, up to the root. -/
lemma build_ancestors (hn : a.node? i = some n) :
    a.ancestors i = i :: (n.parent.map a.ancestors).getD [] := by
  have hparent := parent?_tree_of_node? hn
  rw [← ancestors_tree]
  cases hq : n.parent with
  | none => rw [Tree.ancestors_of_root (hparent.trans hq)]; rfl
  | some q =>
    rw [Tree.ancestors_of_parent (hparent.trans hq) (build_parent_lt h hn hq).1, ancestors_tree]
    rfl

lemma build_depth (hn : a.node? i = some n) : n.path.depth = (a.ancestors i).length := by
  obtain ⟨ht, -⟩ := build_refines h
  rw [← ancestors_tree]
  exact Tree.build_depth ht (node?_tree_of_node? hn)

/-- The index leads from the names of the steps to the steps, and from nothing else. -/
lemma build_mem_index {name : String} :
    (name, i) ∈ a.index ↔ ∃ n, a.node? i = some n ∧ n.isRoot = false ∧ n.name = name := by
  obtain ⟨ht, -, -, hid, -⟩ := build_refines h
  have hget : (name, i) ∈ a.index ↔ a.idOf? name = some i :=
    ⟨Table.get?_of_mem (build_inStep h).names_nodup, Table.mem_of_get?⟩
  rw [hget, hid, Tree.build_idOf?_eq_some_iff ht, Tree.isStep_iff, Tree.name, node?_tree]
  cases a.node? i <;> simp

/-- Different names lead to different steps. -/
lemma build_index_places : (a.index.map (·.2)).Nodup := by
  refine List.Nodup.map_on ?_ (List.Nodup.of_map _ (build_inStep h).names_nodup)
  rintro ⟨name, i⟩ hmem ⟨name', i'⟩ hmem' rfl
  obtain ⟨n, hn, -, rfl⟩ := (build_mem_index h).1 hmem
  obtain ⟨n', hn', -, rfl⟩ := (build_mem_index h).1 hmem'
  cases hn.symm.trans hn'
  rfl

lemma build_find? (hn : a.node? i = some n) (hstep : n.isRoot = false) :
    a.find? n.name = some n := by
  have hmem : (n.name, i) ∈ a.index := (build_mem_index h).2 ⟨n, hn, hstep, rfl⟩
  rw [find?, idOf?, Table.get?_of_mem (build_inStep h).names_nodup hmem, Option.bind_some, hn]

lemma build_findPath? (hn : a.node? i = some n) : a.findPath? n.path.text = some n := by
  obtain ⟨ht, -⟩ := build_refines h
  rw [findPath?_eq, Tree.build_findPath? ht (node?_tree_of_node? hn), Option.bind_some, hn]

end Build

/-- How the nodes of a flow are arranged in an arena. -/
structure Arranged (f : Flow) (a : Arena) : Prop where
  /-- The nodes are the flow and its steps, each once, in order of declaration. -/
  nodes : a.nodes = f.layout
  id : ∀ i n, a.node? i = some n → n.id = i
  root_iff : ∀ i n, a.node? i = some n → (n.parent = none ↔ i = 0)
  parent_lt : ∀ i n q, a.node? i = some n → n.parent = some q → q < i ∧ i < a.size
  children_lt : ∀ i n c, a.node? i = some n → c ∈ n.children → c < a.size
  children_sorted : ∀ i n, a.node? i = some n → n.children.Pairwise (· < ·)
  mem_children : ∀ i n, a.node? i = some n →
    ∀ c, c ∈ n.children ↔ ∃ m, a.node? c = some m ∧ m.parent = some i
  /-- A path is that of the parent with the name of the node. -/
  path : ∀ i n q, a.node? i = some n → n.parent = some q →
    ∃ m, a.node? q = some m ∧ n.path.segments = m.path.segments ++ [n.name]
  /-- The way out of a node goes on from its parent. -/
  ancestors : ∀ i n, a.node? i = some n →
    a.ancestors i = i :: (n.parent.map a.ancestors).getD []
  depth : ∀ i n, a.node? i = some n → n.path.depth = (a.ancestors i).length
  depth_le : ∀ i n, a.node? i = some n → n.path.depth ≤ Path.maxDepth
  /-- No name is in the index twice, and no place. -/
  index_nodup : (Table.names a.index).Nodup ∧ (a.index.map (·.2)).Nodup
  mem_index : ∀ name i, (name, i) ∈ a.index ↔
    ∃ n, a.node? i = some n ∧ n.isRoot = false ∧ n.name = name
  find? : ∀ i n, a.node? i = some n → n.isRoot = false → a.find? n.name = some n
  findPath? : ∀ i n, a.node? i = some n → a.findPath? n.path.text = some n

/-- **An arena that is built** is arranged as its document says. -/
theorem build_arranged (h : build f = .ok a) : a.Arranged f where
  nodes := build_layout h
  id := (build_inStep h).id
  root_iff _ _ hn := build_root_iff h hn
  parent_lt _ _ _ hn hq := build_parent_lt h hn hq
  children_lt _ _ _ hn hc := by
    obtain ⟨m, hm, -⟩ := ((build_children h hn).2 _).1 hc
    exact lt_size_of_node? hm
  children_sorted _ _ hn := (build_children h hn).1
  mem_children _ _ hn := (build_children h hn).2
  path _ _ _ hn hq := build_segments h hn hq
  ancestors _ _ hn := build_ancestors h hn
  depth _ _ hn := build_depth h hn
  depth_le _ _ hn := by
    obtain ⟨ht, -⟩ := build_refines h
    exact (Tree.build_formed ht (node?_tree_of_node? hn)).depth_le
  index_nodup := ⟨(build_inStep h).names_nodup, build_index_places h⟩
  mem_index _ _ := build_mem_index h
  find? _ _ hn hstep := build_find? h hn hstep
  findPath? _ _ hn := build_findPath? h hn

/-- A stage inside a stage, and steps behind both. -/
def toolchain : Flow where
  name := some "tools"
  steps := [
    ("build", { steps := [
      ("compile", { steps := [(" link ", { spec := { bash := some "ld" } })] }),
      ("lint", { spec := { bash := some "make lint" } })] }),
    ("ship", { spec := { bash := some "make ship" } })]

/-- Where the nodes stand, and two ways to the one inside the inner stage. -/
theorem build_arranged_toolchain : ∃ a, build toolchain = .ok a ∧ a.Arranged toolchain ∧
    a.nodes.map (·.children) = [[1, 5], [2, 4], [3], [], [], []] ∧
    a.index = [("build", 1), ("compile", 2), ("link", 3), ("lint", 4), ("ship", 5)] ∧
    a.ancestors 3 = [3, 2, 1, 0] ∧ (a.find? "link").map (·.id) = some 3 ∧
    (a.findPath? "tools/build/compile/link").map (·.id) = some 3 := by
  obtain ⟨a, ha, hchildren, hindex, hway, hfind, hfindPath⟩ : ∃ a, build toolchain = .ok a ∧
      a.nodes.map (·.children) = [[1, 5], [2, 4], [3], [], [], []] ∧
      a.index = [("build", 1), ("compile", 2), ("link", 3), ("lint", 4), ("ship", 5)] ∧
      a.ancestors 3 = [3, 2, 1, 0] ∧ (a.find? "link").map (·.id) = some 3 ∧
      (a.findPath? "tools/build/compile/link").map (·.id) = some 3 :=
    exists_of_any_toOption (by cbv)
  exact ⟨a, ha, build_arranged ha, hchildren, hindex, hway, hfind, hfindPath⟩

end Arena

end StepFlow

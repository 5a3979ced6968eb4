import Mathlib.Data.List.Forall2
import Mathlib.Data.List.Sort
import Mathlib.Logic.Relation
import Mathlib.Tactic.Lemma
import StepFlow.Proofs.Path
import StepFlow.Proofs.Tree.Arena

/-!
The nodes of a tree against the document they come from. The steps of a document are listed in
order of declaration (`Step.declared`), each with the number of steps inside it. The node of the
`k`-th of them is node `k + 1` of the tree, its parent is the node of the step around it, and the
nodes inside a node are those right behind it, as many as the document says.
-/

namespace StepFlow

/-! ### The order of declaration -/

/-- A step as it is declared: its key, what it says about itself, and how many steps are declared
inside it at any depth. -/
structure Declared where
  key : String
  spec : StepSpec
  inside : Nat

/-- The steps of a document in order of declaration: a step, then the steps inside it, then the
next step beside it. -/
def Step.declared : List (String × Step) → List Declared
  | [] => []
  | (key, ⟨spec, inner⟩) :: rest =>
    ⟨key, spec, (declared inner).length⟩ :: (declared inner ++ declared rest)

/-- All steps of a flow in order of declaration. -/
def Flow.declared (f : Flow) : List Declared := Step.declared f.steps

/-- Where the steps of a list stand among the nodes when the first of them stands at `first`. -/
def Step.places (first : Nat) : List (String × Step) → List Nat
  | [] => []
  | (_, ⟨_, inner⟩) :: rest => first :: places (first + 1 + (declared inner).length) rest

namespace Step

lemma declared_nil : declared [] = [] := by simp [declared]

lemma declared_cons (key : String) (spec : StepSpec) (inner rest : List (String × Step)) :
    declared ((key, ⟨spec, inner⟩) :: rest) =
      ⟨key, spec, (declared inner).length⟩ :: (declared inner ++ declared rest) := by
  rw [declared]

lemma declared_append (steps added : List (String × Step)) :
    declared (steps ++ added) = declared steps ++ declared added := by
  induction steps with
  | nil => rw [List.nil_append, declared_nil, List.nil_append]
  | cons step rest ih =>
    obtain ⟨key, spec, inner⟩ := step
    rw [List.cons_append, declared_cons, declared_cons, ih, List.cons_append, List.append_assoc]

lemma declared_eq_nil_iff {steps : List (String × Step)} : declared steps = [] ↔ steps = [] := by
  match steps with
  | [] => simp [declared_nil]
  | (key, ⟨spec, inner⟩) :: rest => simp [declared_cons]

lemma places_nil (first : Nat) : places first [] = [] := by simp [places]

lemma places_cons (first : Nat) (key : String) (spec : StepSpec)
    (inner rest : List (String × Step)) :
    places first ((key, ⟨spec, inner⟩) :: rest) =
      first :: places (first + 1 + (declared inner).length) rest := by
  rw [places]

/-- What is inside a step is declared before the list ends. -/
theorem inside_lt {steps : List (String × Step)} {k : Nat} {d : Declared}
    (h : (declared steps)[k]? = some d) : k + d.inside < (declared steps).length := by
  induction steps using declared.induct generalizing k with
  | case1 => simp [declared_nil] at h
  | case2 key spec inner rest ih_inner ih_rest =>
    rw [declared_cons] at h ⊢
    simp only [List.length_cons, List.length_append]
    match k with
    | 0 =>
      simp only [List.getElem?_cons_zero, Option.some.injEq] at h
      subst h
      simp only
      omega
    | k + 1 =>
      rw [List.getElem?_cons_succ] at h
      by_cases hk : k < (declared inner).length
      · rw [List.getElem?_append_left hk] at h
        have := ih_inner h
        omega
      · rw [List.getElem?_append_right (by omega)] at h
        have := ih_rest h
        omega

/-- The last step of a list is the last one that ends where the list ends. -/
theorem getLast?_places {first last : Nat} {steps : List (String × Step)}
    (h : (places first steps).getLast? = some last) :
    ∃ k d, (declared steps)[k]? = some d ∧ last = first + k ∧
      k + 1 + d.inside = (declared steps).length := by
  induction steps using declared.induct generalizing first with
  | case1 => simp [places_nil] at h
  | case2 key spec inner rest _ ih =>
    rw [places_cons, List.getLast?_cons] at h
    cases hr : (places (first + 1 + (declared inner).length) rest).getLast? with
    | none =>
      -- the list has one step, and it reaches to the end
      have hrest : rest = [] := by
        rw [List.getLast?_eq_none_iff] at hr
        match rest with
        | [] => rfl
        | (k, ⟨s, i⟩) :: r => simp [places_cons] at hr
      rw [hr] at h
      refine ⟨0, ⟨key, spec, (declared inner).length⟩, by simp [declared_cons], ?_, ?_⟩
      · simpa using h.symm
      · rw [declared_cons, hrest, declared_nil]
        simp
        omega
    | some l =>
      obtain rfl : l = last := by simpa [hr] using h
      obtain ⟨k, d, hd, hl, hend⟩ := ih hr
      refine ⟨1 + (declared inner).length + k, d, ?_, ?_, ?_⟩
      · rw [declared_cons, show 1 + (declared inner).length + k = (declared inner).length + k + 1
          by omega, List.getElem?_cons_succ, List.getElem?_append_right (by omega)]
        simpa using hd
      · omega
      · rw [declared_cons]
        simp
        omega

end Step

namespace Tree

/-! ### Adding steps -/

/-- The node of a declared step. -/
def IsNodeOf (n : TreeNode) (d : Declared) : Prop :=
  ∃ path parent, n = .ofSpec d.spec path parent ∧ path.name = Text.trim d.key

/-- Steps are added in turn, each behind the nodes that are there by then. -/
lemma addSteps_append (parent : Nat) (above : Path) (steps added : List (String × Step))
    (nodes : List TreeNode) : addSteps parent above (steps ++ added) nodes =
      (addSteps parent above steps nodes).bind fun nodes =>
        addSteps parent above added nodes := by
  induction steps generalizing nodes with
  | nil => rw [List.nil_append, addSteps, Except.bind]
  | cons step rest ih =>
    obtain ⟨key, spec, inner⟩ := step
    rw [List.cons_append, addSteps, addSteps]
    cases stepNode nodes parent above key spec (!inner.isEmpty) with
    | error e => rfl
    | ok node =>
      simp only
      cases addSteps nodes.length node.path inner (nodes ++ [node]) with
      | error e => rfl
      | ok mid => exact ih mid

/-- `Added parent above nodes steps nodes'`: adding `steps` behind `nodes` goes well and leads to
`nodes'`. -/
inductive Added : Nat → Path → List TreeNode → List (String × Step) → List TreeNode → Prop where
  | nil (parent : Nat) (above : Path) (nodes : List TreeNode) : Added parent above nodes [] nodes
  | cons {parent : Nat} {above : Path} {nodes mid nodes' : List TreeNode} {node : TreeNode}
      {key : String} {spec : StepSpec} {inner rest : List (String × Step)}
      (hnode : stepNode nodes parent above key spec (!inner.isEmpty) = .ok node)
      (hinner : Added nodes.length node.path (nodes ++ [node]) inner mid)
      (hrest : Added parent above mid rest nodes') :
      Added parent above nodes ((key, ⟨spec, inner⟩) :: rest) nodes'

theorem added_of_addSteps {parent : Nat} {above : Path} {steps : List (String × Step)}
    {nodes nodes' : List TreeNode} (h : addSteps parent above steps nodes = .ok nodes') :
    Added parent above nodes steps nodes' := by
  induction parent, above, steps, nodes using addSteps.induct generalizing nodes' with
  | case1 parent above nodes =>
    rw [addSteps] at h
    cases h
    exact .nil ..
  | case2 parent above key spec inner rest nodes e he =>
    rw [addSteps, he] at h
    cases h
  | case3 parent above key spec inner rest nodes node hnode e he =>
    rw [addSteps, hnode] at h
    simp [he] at h
  | case4 parent above key spec inner rest nodes node hnode mid hmid ih_inner ih_rest =>
    rw [addSteps, hnode] at h
    simp only [hmid] at h
    exact .cons hnode (ih_inner hmid) (ih_rest h)

theorem Added.keeps {parent : Nat} {above : Path} {nodes nodes' : List TreeNode}
    {steps : List (String × Step)} (h : Added parent above nodes steps nodes') :
    nodes <+: nodes' := by
  induction h with
  | nil => exact List.prefix_refl _
  | cons _ _ _ ih_inner ih_rest =>
    exact ((List.prefix_append _ _).trans ih_inner).trans ih_rest

/-- The node that was added last stays where the nodes ended before. -/
lemma Added.node?_last {parent : Nat} {above : Path} {nodes nodes' : List TreeNode}
    {node : TreeNode} {steps : List (String × Step)}
    (h : Added parent above (nodes ++ [node]) steps nodes') {t : Tree} (ht : nodes' <+: t.nodes) :
    t.node? nodes.length = some node := by
  have hget := List.prefix_iff_getElem?.1 (h.keeps.trans ht) nodes.length (by simp)
  simpa [node?] using hget

end Tree

/-! ### Paths -/

namespace Path

/-- A path below another one: one segment more, within the limit of depth. -/
theorem child_eq_ok {above path : Path} {key : String} (h : above.child key = .ok path) :
    path.segments = above.segments ++ [Text.trim key] ∧ path.depth ≤ maxDepth := by
  obtain ⟨-, hdepth, hpath⟩ := child_eq_ok_iff.mp h
  refine ⟨hpath, ?_⟩
  rw [depth, hpath, List.length_append, List.length_singleton]
  exact hdepth

theorem name_of_child {above path : Path} {key : String} (h : above.child key = .ok path) :
    path.name = Text.trim key := by
  simp [name, (child_eq_ok h).1]

theorem depth_of_child {above path : Path} {key : String} (h : above.child key = .ok path) :
    path.depth = above.depth + 1 ∧ path.depth ≤ maxDepth := by
  obtain ⟨hs, hd⟩ := child_eq_ok h
  exact ⟨by simp [depth, hs], hd⟩

theorem root_eq_ok {path : Path} {key : String} (h : root key = .ok path) :
    path.segments = [Text.trim key] :=
  (root_eq_ok_iff.mp h).2

theorem name_of_root {path : Path} {key : String} (h : root key = .ok path) :
    path.name = Text.trim key := by
  simp [name, root_eq_ok h]

theorem depth_of_root {path : Path} {key : String} (h : root key = .ok path) : path.depth = 1 := by
  simp [depth, root_eq_ok h]

end Path

namespace Tree

/-! ### Where the nodes stand -/

theorem Added.length {parent : Nat} {above : Path} {nodes nodes' : List TreeNode}
    {steps : List (String × Step)} (h : Added parent above nodes steps nodes') :
    nodes'.length = nodes.length + (Step.declared steps).length := by
  induction h with
  | nil => simp [Step.declared_nil]
  | cons _ _ _ ih_inner ih_rest =>
    rw [ih_rest, ih_inner, Step.declared_cons]
    simp
    omega

/-- The nodes that are added are those of the steps in order of declaration. -/
theorem Added.declared {parent : Nat} {above : Path} {nodes nodes' : List TreeNode}
    {steps : List (String × Step)} (h : Added parent above nodes steps nodes') :
    ∃ added, nodes' = nodes ++ added ∧ List.Forall₂ IsNodeOf added (Step.declared steps) := by
  induction h with
  | nil => exact ⟨[], by simp, by simp [Step.declared_nil]⟩
  | @cons parent above nodes mid nodes' node key spec inner rest hnode _ _ ih_inner ih_rest =>
    obtain ⟨a, rfl, ha⟩ := ih_inner
    obtain ⟨b, rfl, hb⟩ := ih_rest
    obtain ⟨path, hpath, rfl, -⟩ := stepNode_eq_ok hnode
    refine ⟨.ofSpec spec path parent :: (a ++ b), by simp, ?_⟩
    rw [Step.declared_cons]
    refine .cons ⟨path, parent, rfl, Path.name_of_child hpath⟩ ?_
    exact List.rel_append ha hb

/-- `Laid t levels parent first steps`: in the tree `t` the nodes from `first` on are those of
`steps`, steps right inside the node `parent`, with at most `levels` levels below that. -/
inductive Laid (t : Tree) : Nat → Nat → Nat → List (String × Step) → Prop where
  | nil (levels parent first : Nat) : Laid t levels parent first []
  | cons {levels parent first : Nat} {key : String} {spec : StepSpec}
      {inner rest : List (String × Step)} (hparent : t.parent? first = some parent)
      (hinner : Laid t levels first (first + 1) inner)
      (hrest : Laid t (levels + 1) parent (first + 1 + (Step.declared inner).length) rest) :
      Laid t (levels + 1) parent first ((key, ⟨spec, inner⟩) :: rest)

theorem Added.laid {parent : Nat} {above : Path} {nodes nodes' : List TreeNode}
    {steps : List (String × Step)} (h : Added parent above nodes steps nodes') {t : Tree}
    (ht : nodes' <+: t.nodes) :
    Laid t (Path.maxDepth + 1 - above.depth) parent nodes.length steps := by
  induction h with
  | nil => exact .nil ..
  | @cons parent above nodes mid nodes' node key spec inner rest hnode hinner hrest ih_inner
      ih_rest =>
    obtain ⟨path, hpath, rfl, -⟩ := stepNode_eq_ok hnode
    obtain ⟨hdepth, hmax⟩ := Path.depth_of_child hpath
    have hmid : mid <+: t.nodes := hrest.keeps.trans ht
    have hlen := hinner.length
    have hlevels : Path.maxDepth + 1 - above.depth = Path.maxDepth + 1 - path.depth + 1 := by
      omega
    have hi := ih_inner hmid
    have hr := ih_rest ht
    rw [hlen, hlevels] at hr
    simp only [List.length_append, List.length_singleton] at hi hr
    rw [hlevels]
    refine .cons ?_ hi hr
    rw [parent?, hinner.node?_last hmid]
    rfl

/-! ### Blocks -/

/-- The parent of a laid node is the node around the list or a laid node before it. -/
theorem Laid.parent_cases {t : Tree} {levels parent first : Nat} {steps : List (String × Step)}
    (h : Laid t levels parent first steps) {c : Nat} (hfirst : first ≤ c)
    (hpast : c < first + (Step.declared steps).length) :
    ∃ q, t.parent? c = some q ∧ (q = parent ∨ first ≤ q ∧ q < c) := by
  induction h with
  | nil => simp [Step.declared_nil] at hpast; omega
  | @cons levels parent first key spec inner rest hparent _ _ ih_inner ih_rest =>
    rw [Step.declared_cons] at hpast
    simp only [List.length_cons, List.length_append] at hpast
    by_cases hc : c = first
    · exact ⟨parent, hc ▸ hparent, .inl rfl⟩
    · by_cases hin : c < first + 1 + (Step.declared inner).length
      · obtain ⟨q, hq, hcase⟩ := ih_inner (by omega) hin
        exact ⟨q, hq, .inr (by omega)⟩
      · obtain ⟨q, hq, hcase⟩ := ih_rest (by omega) (by omega)
        exact ⟨q, hq, by omega⟩

/-- The places of the steps of a list are the laid nodes right inside the node around it. -/
theorem Laid.mem_places_iff {t : Tree} {levels parent first : Nat} {steps : List (String × Step)}
    (h : Laid t levels parent first steps) (hlt : parent < first) {c : Nat} :
    c ∈ Step.places first steps ↔
      first ≤ c ∧ c < first + (Step.declared steps).length ∧ t.parent? c = some parent := by
  induction h with
  | nil =>
    simp [Step.places_nil, Step.declared_nil]
    omega
  | @cons levels parent first key spec inner rest hparent hinner _ _ ih_rest =>
    rw [Step.places_cons, Step.declared_cons, List.mem_cons, ih_rest (by omega)]
    simp only [List.length_cons, List.length_append]
    constructor
    · rintro (rfl | ⟨hfirst, hpast, hc⟩)
      · exact ⟨le_rfl, by omega, hparent⟩
      · exact ⟨by omega, by omega, hc⟩
    · rintro ⟨hfirst, hpast, hc⟩
      by_cases heq : c = first
      · exact .inl heq
      · refine .inr ⟨?_, by omega, hc⟩
        by_contra hin
        -- a node further inside has another parent
        obtain ⟨q, hq, hcase⟩ := hinner.parent_cases (c := c) (by omega) (by omega)
        rw [hc] at hq
        cases hq
        omega

end Tree

namespace Step

theorem le_of_mem_places {first c : Nat} {steps : List (String × Step)}
    (h : c ∈ places first steps) : first ≤ c := by
  induction steps using declared.induct generalizing first with
  | case1 => simp [places_nil] at h
  | case2 key spec inner rest _ ih =>
    rw [places_cons, List.mem_cons] at h
    rcases h with rfl | h
    · exact le_rfl
    · have := ih h
      omega

theorem places_pairwise (first : Nat) (steps : List (String × Step)) :
    (places first steps).Pairwise (· < ·) := by
  induction steps using declared.induct generalizing first with
  | case1 => simp [places_nil]
  | case2 key spec inner rest _ ih =>
    rw [places_cons, List.pairwise_cons]
    refine ⟨?_, ih _⟩
    intro c hc
    have := le_of_mem_places hc
    omega

end Step

namespace Tree

/-- The nodes from `first` up to `past` are closed: what is inside one of them is one of them. -/
def Closed (t : Tree) (first past : Nat) : Prop :=
  ∀ c q, t.parent? c = some q → first ≤ q → q < past → c < past

section Blocks

variable {t : Tree} {levels parent first : Nat} {key : String} {spec : StepSpec}
  {inner rest : List (String × Step)}

/-- The first step of a closed list and what is inside it are closed. -/
theorem Laid.closed_head (hrest : Laid t levels parent (first + 1 + (Step.declared inner).length)
    rest) (hlt : parent < first)
    (hclosed : Closed t first (first + (Step.declared ((key, ⟨spec, inner⟩) :: rest)).length)) :
    Closed t first (first + 1 + (Step.declared inner).length) := by
  intro c q hq hfirst hpast
  rw [Step.declared_cons] at hclosed
  simp only [List.length_cons, List.length_append] at hclosed
  have hc := hclosed c q hq hfirst (by omega)
  by_contra hout
  obtain ⟨q', hq', hcase⟩ := hrest.parent_cases (c := c) (by omega) (by omega)
  rw [hq] at hq'
  cases hq'
  omega

/-- The rest of a closed list is closed. -/
theorem Closed.tail
    (hclosed : Closed t first (first + (Step.declared ((key, ⟨spec, inner⟩) :: rest)).length)) :
    Closed t (first + 1 + (Step.declared inner).length)
      (first + 1 + (Step.declared inner).length + (Step.declared rest).length) := by
  intro c q hq hfirst hpast
  rw [Step.declared_cons] at hclosed
  simp only [List.length_cons, List.length_append] at hclosed
  have := hclosed c q hq (by omega) (by omega)
  omega

end Blocks

/-- Every declared step has its block: its node, and right behind it the nodes inside it. -/
theorem Laid.block {t : Tree} {levels parent first : Nat} {steps : List (String × Step)}
    (h : Laid t levels parent first steps) (hlt : parent < first)
    (hclosed : Closed t first (first + (Step.declared steps).length)) {k : Nat} {d : Declared}
    (hd : (Step.declared steps)[k]? = some d) :
    ∃ levels' inner, Laid t levels' (first + k) (first + k + 1) inner ∧
      (Step.declared inner).length = d.inside ∧
      (∀ j < d.inside, (Step.declared steps)[k + 1 + j]? = (Step.declared inner)[j]?) ∧
      Closed t (first + k) (first + k + 1 + d.inside) := by
  induction h generalizing k with
  | nil => simp [Step.declared_nil] at hd
  | @cons levels parent first key spec inner rest hparent hinner hrest ih_inner ih_rest =>
    have hhead := hrest.closed_head hlt hclosed
    have htail := hclosed.tail
    rw [Step.declared_cons] at hd
    match k with
    | 0 =>
      simp only [List.getElem?_cons_zero, Option.some.injEq] at hd
      subst hd
      refine ⟨levels, inner, hinner, rfl, ?_, hhead⟩
      intro j hj
      rw [Step.declared_cons, show 0 + 1 + j = j + 1 by omega, List.getElem?_cons_succ,
        List.getElem?_append_left hj]
    | k + 1 =>
      rw [List.getElem?_cons_succ] at hd
      have hshift : ∀ j, (Step.declared ((key, ⟨spec, inner⟩) :: rest))[k + 1 + 1 + j]? =
          (Step.declared inner ++ Step.declared rest)[k + 1 + j]? := fun j => by
        rw [Step.declared_cons, show k + 1 + 1 + j = k + 1 + j + 1 by omega,
          List.getElem?_cons_succ]
      by_cases hk : k < (Step.declared inner).length
      · rw [List.getElem?_append_left hk] at hd
        obtain ⟨levels', inner', hl, hlen, hj, hc⟩ := ih_inner (by omega)
          (fun c q hq h1 h2 => hhead c q hq (by omega) h2) hd
        rw [show first + 1 + k = first + (k + 1) by omega] at hl hc
        refine ⟨levels', inner', hl, hlen, ?_, hc⟩
        intro j hj'
        have hget := hj j hj'
        have hlt : k + 1 + j < (Step.declared inner).length := by
          by_contra hge
          rw [List.getElem?_eq_none (by omega)] at hget
          have := List.getElem?_eq_none_iff.1 hget.symm
          omega
        rw [hshift, List.getElem?_append_left hlt, hget]
      · rw [List.getElem?_append_right (by omega)] at hd
        obtain ⟨levels', inner', hl, hlen, hj, hc⟩ := ih_rest (by omega) htail hd
        rw [show first + 1 + (Step.declared inner).length + (k - (Step.declared inner).length) =
          first + (k + 1) by omega] at hl hc
        refine ⟨levels', inner', hl, hlen, ?_, hc⟩
        intro j hj'
        rw [hshift, List.getElem?_append_right (by omega), ← hj j hj']
        congr 1
        omega

/-- The nodes right inside a node are the places of the steps inside it. -/
theorem Laid.children_eq {t : Tree} {levels i : Nat} {inner : List (String × Step)}
    (h : Laid t levels i (i + 1) inner)
    (hclosed : Closed t i (i + 1 + (Step.declared inner).length))
    (hparent : ∀ c q, t.parent? c = some q → q < c ∧ c < t.size) :
    t.children i = Step.places (i + 1) inner := by
  have hsorted : (t.children i).Pairwise (· < ·) := List.pairwise_lt_range.filter _
  refine hsorted.eq_of_mem_iff (Step.places_pairwise _ _) ?_
  intro c
  rw [h.mem_places_iff (Nat.lt_succ_self i)]
  simp only [children, List.mem_filter, List.mem_range, decide_eq_true_eq]
  constructor
  · rintro ⟨-, hc⟩
    have hlt := (hparent c i hc).1
    exact ⟨hlt, hclosed c i hc le_rfl (by omega), hc⟩
  · rintro ⟨-, -, hc⟩
    exact ⟨(hparent c i hc).2, hc⟩

/-! ### The tree of a flow -/

section Build

variable {f : Flow} {t : Tree}

theorem build_eq_ok (h : build f = .ok t) :
    ∃ path, Path.root f.effectiveName = .ok path ∧
      addSteps 0 path f.steps [.ofFlow f path] = .ok t.nodes := by
  rw [build_eq] at h
  split at h
  · cases h
  · rename_i path hpath
    refine ⟨path, hpath, ?_⟩
    cases hadd : addSteps 0 path f.steps [.ofFlow f path] with
    | error e =>
      rw [hadd] at h
      cases h
    | ok nodes =>
      rw [hadd] at h
      cases h
      rfl

theorem build_added (h : build f = .ok t) :
    ∃ path, Path.root f.effectiveName = .ok path ∧
      Added 0 path [.ofFlow f path] f.steps t.nodes := by
  obtain ⟨path, hpath, hadd⟩ := build_eq_ok h
  exact ⟨path, hpath, added_of_addSteps hadd⟩

theorem build_size (h : build f = .ok t) : t.size = f.declared.length + 1 := by
  obtain ⟨path, -, hadd⟩ := build_added h
  rw [size, hadd.length, Flow.declared]
  simp
  omega

theorem build_laid (h : build f = .ok t) : Laid t Path.maxDepth 0 1 f.steps := by
  obtain ⟨path, hpath, hadd⟩ := build_added h
  have := hadd.laid (List.prefix_refl t.nodes)
  rwa [Path.depth_of_root hpath] at this

theorem build_parent?_zero (h : build f = .ok t) : t.parent? 0 = none := by
  obtain ⟨path, -, hadd⟩ := build_added h
  have := List.prefix_iff_getElem?.1 hadd.keeps 0 (by simp)
  simp only [List.getElem_cons_zero] at this
  simp [parent?, node?, this, TreeNode.ofFlow]

/-- Parents come before their children, and only nodes have parents. -/
theorem build_parent_lt (h : build f = .ok t) {c q : Nat} (hq : t.parent? c = some q) :
    q < c ∧ c < t.size := by
  have hc : c < t.size := by
    by_contra hc
    have : t.nodes[c]? = none := List.getElem?_eq_none (Nat.le_of_not_lt hc)
    simp [parent?, node?, this] at hq
  refine ⟨?_, hc⟩
  obtain rfl | hpos := Nat.eq_zero_or_pos c
  · simp [build_parent?_zero h] at hq
  · have hsize := build_size h
    rw [Flow.declared] at hsize
    obtain ⟨q', hq', hcase⟩ := (build_laid h).parent_cases (c := c) hpos (by omega)
    rw [hq] at hq'
    cases hq'
    omega

theorem build_closed (h : build f = .ok t) : Closed t 1 (1 + f.declared.length) := by
  intro c q hq _ _
  have := (build_parent_lt h hq).2
  rw [build_size h] at this
  omega

theorem build_isStep (h : build f = .ok t) (i : Nat) :
    t.isStep i = decide (0 < i ∧ i < t.size) := by
  by_cases hi : 0 < i ∧ i < t.size
  · have hsize := build_size h
    rw [Flow.declared] at hsize
    obtain ⟨q, hq, -⟩ := (build_laid h).parent_cases (c := i) (by omega) (by omega)
    simp [isStep, hq, hi]
  · cases hp : t.parent? i with
    | none => simp [isStep, hp, hi]
    | some q => exact absurd ⟨by have := build_parent_lt h hp; omega, (build_parent_lt h hp).2⟩ hi

/-- The node of the `k`-th declared step. -/
theorem build_node (h : build f = .ok t) {k : Nat} {d : Declared} (hd : f.declared[k]? = some d) :
    ∃ n, t.node? (k + 1) = some n ∧ IsNodeOf n d := by
  obtain ⟨path, -, hadd⟩ := build_added h
  obtain ⟨added, hnodes, hall⟩ := hadd.declared
  have hk : k < added.length := by
    have := (List.getElem?_eq_some_iff.1 hd).1
    rw [hall.length_eq]
    exact this
  refine ⟨added[k], ?_, ?_⟩
  · simp [node?, hnodes, hk]
  · have hdk := (List.getElem?_eq_some_iff.1 hd).2
    rw [← hdk]
    exact hall.get hk _

/-- The node of a declared step has its key for a name, without the blanks around it, and waits for
the steps that the step waits for. -/
theorem build_of_node? (h : build f = .ok t) {k : Nat} {d : Declared} (hd : f.declared[k]? = some d)
    {n : TreeNode} (hn : t.node? (k + 1) = some n) :
    n.name = Text.trim d.key ∧ n.dependencies = d.spec.dependencies := by
  obtain ⟨n', hn', path, parent, rfl, hname⟩ := build_node h hd
  cases hn.symm.trans hn'
  exact ⟨hname, rfl⟩

theorem build_name (h : build f = .ok t) {k : Nat} {d : Declared} (hd : f.declared[k]? = some d) :
    t.name (k + 1) = Text.trim d.key := by
  obtain ⟨n, hn, -⟩ := build_node h hd
  rw [name, hn]
  exact (build_of_node? h hd hn).1

/-- The nodes right inside the node of a declared step, and how far the last of them reaches. -/
theorem build_block (h : build f = .ok t) {k : Nat} {d : Declared}
    (hd : f.declared[k]? = some d) :
    ∃ inner, t.children (k + 1) = Step.places (k + 2) inner ∧
      (Step.declared inner).length = d.inside ∧
      ∀ j < d.inside, f.declared[k + 1 + j]? = (Step.declared inner)[j]? := by
  obtain ⟨levels, inner, hlaid, hlen, hj, hclosed⟩ :=
    (build_laid h).block Nat.zero_lt_one (build_closed h) hd
  rw [Nat.add_comm 1 k] at hlaid hclosed
  refine ⟨inner, ?_, hlen, hj⟩
  rw [← hlen] at hclosed
  exact hlaid.children_eq hclosed fun c q hq => build_parent_lt h hq

theorem build_children_eq_nil_iff (h : build f = .ok t) {k : Nat} {d : Declared}
    (hd : f.declared[k]? = some d) : t.children (k + 1) = [] ↔ d.inside = 0 := by
  obtain ⟨inner, hchildren, hlen, -⟩ := build_block h hd
  rw [hchildren, ← hlen, List.length_eq_zero_iff, Step.declared_eq_nil_iff]
  match inner with
  | [] => simp [Step.places_nil]
  | (key, ⟨spec, inner⟩) :: rest => simp [Step.places_cons]

/-- A step with steps inside it is a stage. -/
theorem build_isStage (h : build f = .ok t) {k : Nat} {d : Declared}
    (hd : f.declared[k]? = some d) : t.isStage (k + 1) = decide (0 < d.inside) := by
  have hk := (List.getElem?_eq_some_iff.1 hd).1
  rw [isStage, build_isStep h, build_size h, Bool.eq_iff_iff]
  simp [hk, build_children_eq_nil_iff h hd, Nat.pos_iff_ne_zero]

/-- A step without steps inside it is a leaf. -/
theorem build_isLeaf (h : build f = .ok t) {k : Nat} {d : Declared}
    (hd : f.declared[k]? = some d) : t.isLeaf (k + 1) = decide (d.inside = 0) := by
  have hk := (List.getElem?_eq_some_iff.1 hd).1
  rw [isLeaf, build_isStep h, build_size h, Bool.eq_iff_iff]
  simp [hk, List.isEmpty_iff, build_children_eq_nil_iff h hd]

/-- The last step right inside a stage ends where the stage ends. -/
theorem build_getLast?_children (h : build f = .ok t) {k : Nat} {d : Declared}
    (hd : f.declared[k]? = some d) (hinside : 0 < d.inside) :
    ∃ l e, (t.children (k + 1)).getLast? = some (l + 1) ∧ f.declared[l]? = some e ∧
      k < l ∧ l + e.inside = k + d.inside := by
  have hne : t.children (k + 1) ≠ [] := fun hc => by
    have := (build_children_eq_nil_iff h hd).1 hc
    omega
  obtain ⟨inner, hchildren, hlen, hj⟩ := build_block h hd
  rw [hchildren] at hne ⊢
  obtain ⟨last, hlast⟩ := Option.ne_none_iff_exists'.1 (mt List.getLast?_eq_none_iff.1 hne)
  obtain ⟨j, e, he, rfl, hend⟩ := Step.getLast?_places hlast
  refine ⟨k + 1 + j, e, ?_, ?_, by omega, by omega⟩
  · rw [hlast]
    congr 1
    omega
  · rw [hj j (by omega), he]

/-- The last node inside a stage is a leaf, and a leaf is the last node of its own block. -/
theorem build_inside_last (h : build f = .ok t) {k : Nat} {d : Declared}
    (hd : f.declared[k]? = some d) : ∃ e, f.declared[k + d.inside]? = some e ∧ e.inside = 0 := by
  by_cases hz : d.inside = 0
  · exact ⟨d, by rw [hz]; exact hd, hz⟩
  · obtain ⟨inner, -, hlen, hj⟩ := build_block h hd
    have hlast := hj (d.inside - 1) (by omega)
    rw [show k + 1 + (d.inside - 1) = k + d.inside by omega] at hlast
    obtain ⟨e, he⟩ : ∃ e, (Step.declared inner)[d.inside - 1]? = some e :=
      ⟨_, List.getElem?_eq_getElem (by omega)⟩
    have := Step.inside_lt he
    exact ⟨e, hlast.trans he, by omega⟩

end Build

end Tree

end StepFlow

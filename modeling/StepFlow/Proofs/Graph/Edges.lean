import Mathlib
import StepFlow.Proofs.Graph.Wiring
import StepFlow.Proofs.Outcome

/-!
The edges of a compiled graph. A step waits for the exits of the steps it names, or else for the
node declared before it; the exit of a stage is the last node declared inside it; and the children
of a node are the nodes that wait for it, in order of declaration.
-/

namespace StepFlow.Graph

/-! ### Parents and children -/

/-- Nothing before `past` is left to connect: the edges so far lead to nodes before `past`, and
parents and children are two views of them. -/
structure Wired (t : Tree) (past : Nat) (g : Graph) : Prop where
  tree : g.tree = t
  size : g.size = t.size
  exitOf : ∀ i, g.exitOf i = (unconnected t).exitOf i
  parent_lt : ∀ i, ∀ p ∈ g.parents i, p < t.size
  later : ∀ i, past ≤ i → g.parents i = []
  children : ∀ p < t.size, g.children p = (List.range t.size).filter fun c => p ∈ g.parents c

section Wired

variable {t : Tree} {g : Graph} {past i s : Nat}

lemma unconnected_node (t : Tree) (i : Nat) : ((unconnected t).node i).parents = [] ∧
    ((unconnected t).node i).children = [] := by
  unfold unconnected node
  by_cases hi : i < t.size
  · simp [hi]
  · simp [Nat.le_of_not_lt hi]

lemma unconnected_wired (t : Tree) (past : Nat) : Wired t past (unconnected t) where
  tree := rfl
  size := by simp [unconnected, Graph.size]
  exitOf _ := rfl
  parent_lt i p hp := by simp [parents, unconnected_node] at hp
  later i _ := (unconnected_node t i).1
  children p _ := by simp [Graph.children, parents, unconnected_node]

lemma Wired.mem_children (h : Wired t past g) {p c : Nat} (hp : p < t.size) :
    c ∈ g.children p ↔ c < t.size ∧ p ∈ g.parents c := by
  simp [h.children p hp]

lemma Wired.mono (h : Wired t past g) {past' : Nat} (hle : past ≤ past') : Wired t past' g :=
  { h with later := fun i hi => h.later i (hle.trans hi) }

lemma Wired.connect_parents (h : Wired t (i + 1) g) (hs : s < t.size) (hi : i < t.size) (j : Nat) :
    (g.connect s i).parents j =
      if j = i ∧ s ∉ g.parents i then g.parents j ++ [s] else g.parents j := by
  rw [Graph.connect_parents g s i (h.size.symm ▸ hi)]
  simp [h.mem_children hs, hi]

/-- A new edge to the last node that has edges keeps the two views together. -/
theorem Wired.connect (h : Wired t (i + 1) g) (hs : s < t.size) (hi : i < t.size) :
    Wired t (i + 1) (g.connect s i) where
  tree := (connect_tree ..).trans h.tree
  size := (connect_size ..).trans h.size
  exitOf j := (connect_exitOf ..).trans (h.exitOf j)
  parent_lt j p hp := by
    rw [h.connect_parents hs hi] at hp
    split at hp
    · rcases List.mem_append.1 hp with hp | hp
      · exact h.parent_lt j p hp
      · exact List.mem_singleton.1 hp ▸ hs
    · exact h.parent_lt j p hp
  later j hj := by
    rw [h.connect_parents hs hi, if_neg (by omega)]
    exact h.later j hj
  children p hp := by
    have hs' : s < g.size := h.size.symm ▸ hs
    have hnew : i ∉ g.children s ↔ s ∉ g.parents i := by
      rw [h.mem_children hs]
      simp [hi]
    rw [Graph.connect_children g s i hs']
    simp only [hnew]
    by_cases hedge : p = s ∧ s ∉ g.parents i
    · obtain ⟨rfl, hfresh⟩ := hedge
      rw [if_pos ⟨rfl, hfresh⟩]
      -- the children of `p` so far come before `i`
      have hbefore : ∀ c ∈ g.children p, c < i := fun c hc => by
        obtain ⟨-, hpc⟩ := (h.mem_children hs).1 hc
        by_contra hge
        by_cases heq : c = i
        · exact hfresh (heq ▸ hpc)
        · rw [h.later c (by omega)] at hpc
          cases hpc
      have hsorted : (g.children p).Pairwise (· < ·) := by
        rw [h.children p hp]
        exact List.pairwise_lt_range.filter _
      refine (List.pairwise_append.2 ⟨hsorted, List.pairwise_singleton _ _, ?_⟩).eq_of_mem_iff
        (List.pairwise_lt_range.filter _) ?_
      · intro c hc c' hc'
        exact List.mem_singleton.1 hc' ▸ hbefore c hc
      · intro c
        simp only [List.mem_append, h.mem_children hs, List.mem_singleton, List.mem_filter,
          List.mem_range, decide_eq_true_eq, h.connect_parents hs hi]
        by_cases hc : c = i
        · simp [hc, hi, hfresh]
        · simp [hc]
    · rw [if_neg hedge, h.children p hp]
      refine List.filter_congr ?_
      intro c _
      rw [h.connect_parents hs hi]
      by_cases hc : c = i ∧ s ∉ g.parents i
      · have : p ≠ s := fun hps => hedge ⟨hps, hc.2⟩
        simp [hc, this]
      · rw [if_neg hc]

lemma eraseDups_concat (l : List Nat) (x : Nat) :
    (l ++ [x]).eraseDups = if x ∈ l then l.eraseDups else l.eraseDups ++ [x] := by
  rw [List.eraseDups_append]
  by_cases hx : x ∈ l
  · simp [List.removeAll, hx]
  · simp [List.removeAll, hx, List.eraseDups_cons]

lemma eraseDups_nodup (l : List Nat) : l.eraseDups.Nodup := by
  induction l using List.reverseRecOn with
  | nil => exact List.nodup_nil
  | append_singleton l x ih =>
    rw [eraseDups_concat]
    split
    · exact ih
    · rename_i hx
      rw [List.nodup_append]
      refine ⟨ih, List.nodup_singleton x, fun a ha b hb heq => hx ?_⟩
      rw [← List.mem_singleton.1 hb, ← heq]
      exact List.mem_eraseDups.1 ha

/-- Edges from several nodes to one: each source becomes a parent once, in order. -/
theorem Wired.foldl_connect (h : Wired t (i + 1) g) (hi : i < t.size) {sources met : List Nat}
    (hs : ∀ s ∈ sources, s < t.size) (hmet : g.parents i = met.eraseDups) :
    Wired t (i + 1) (sources.foldl (fun g s => g.connect s i) g) ∧
      (sources.foldl (fun g s => g.connect s i) g).parents i = (met ++ sources).eraseDups ∧
      ∀ j ≠ i, (sources.foldl (fun g s => g.connect s i) g).parents j = g.parents j := by
  induction sources generalizing g met with
  | nil => exact ⟨h, by simpa using hmet, fun _ _ => rfl⟩
  | cons s r ih =>
    have hlt : s < t.size := hs s List.mem_cons_self
    have hp := h.connect_parents hlt hi
    have hnew : (g.connect s i).parents i = (met ++ [s]).eraseDups := by
      rw [hp, eraseDups_concat, hmet]
      by_cases hmem : s ∈ met <;> simp [hmem, List.mem_eraseDups]
    obtain ⟨hw, hpi, hpj⟩ := ih (h.connect hlt hi) (fun s' h' => hs s' (List.mem_cons_of_mem _ h'))
      hnew
    refine ⟨hw, by simpa using hpi, ?_⟩
    intro j hj
    rw [List.foldl_cons, hpj j hj, hp, if_neg (by tauto)]

end Wired

/-! ### Leaves and stages -/

section Kinds

variable {t : Tree} {i : Nat}

lemma isStep_of_isLeaf (h : t.isLeaf i = true) : t.isStep i = true :=
  (Bool.and_eq_true _ _ ▸ h).1

lemma isStep_of_isStage (h : t.isStage i = true) : t.isStep i = true :=
  (Bool.and_eq_true _ _ ▸ h).1

lemma isLeaf_or_isStage (h : t.isStep i = true) : t.isLeaf i = true ∨ t.isStage i = true := by
  rw [Tree.isLeaf, Tree.isStage, h]
  cases (t.children i).isEmpty
  · exact .inr rfl
  · exact .inl rfl

lemma not_isStage_of_isLeaf (h : t.isLeaf i = true) : ¬ t.isStage i = true := by
  rw [Tree.isLeaf, Bool.and_eq_true] at h
  simp [Tree.isStage, h.2]

end Kinds

/-! ### Exits -/

/-- Where the block of a step ends: the last node inside it, or the node itself. -/
def reach (f : Flow) (i : Nat) : Nat := i + ((f.declared[i - 1]?).map (·.inside)).getD 0

lemma reach_eq {f : Flow} {k : Nat} {d : Declared} (hd : f.declared[k]? = some d) :
    reach f (k + 1) = k + 1 + d.inside := by
  simp [reach, hd]

/-- What the pass over the exits does at one node. -/
def addExit (t : Tree) (i : Nat) (known : List (Nat × Nat)) : List (Nat × Nat) :=
  if t.isStage i then
    match (t.children i).getLast? with
    | some last => (i, (known.lookup last).getD last) :: known
    | none => known
  else known

lemma exits_eq (t : Tree) : exits t = (List.range t.size).foldr (addExit t) [] := rfl

section Exits

variable {f : Flow} {t : Tree}

/-- A step of the tree is a declared one. -/
theorem exists_declared (h : Tree.build f = .ok t) {i : Nat} (hi : 0 < i) (hlt : i < t.size) :
    ∃ k d, i = k + 1 ∧ f.declared[k]? = some d := by
  rw [Tree.build_size h] at hlt
  exact ⟨i - 1, f.declared[i - 1], by omega, List.getElem?_eq_getElem (by omega)⟩

lemma exists_declared_of_isStep (h : Tree.build f = .ok t) {i : Nat} (hi : t.isStep i = true) :
    ∃ k d, i = k + 1 ∧ f.declared[k]? = some d := by
  rw [Tree.build_isStep h, decide_eq_true_eq] at hi
  exact exists_declared h hi.1 hi.2

/-- What is found under a text is the step that it names. -/
lemma idOf?_eq_some_iff (ht : Tree.build f = .ok t) {text : String} {i : Nat} :
    t.idOf? text = some i ↔
      ∃ j e, i = j + 1 ∧ f.declared[j]? = some e ∧ Text.trim e.key = text := by
  constructor
  · intro hid
    obtain ⟨hstep, hname⟩ := Tree.idOf?_eq_some hid
    obtain ⟨j, e, rfl, he⟩ := exists_declared_of_isStep ht hstep
    exact ⟨j, e, rfl, he, (Tree.build_name ht he).symm.trans hname⟩
  · rintro ⟨j, e, rfl, he, rfl⟩
    have hj := (List.getElem?_eq_some_iff.1 he).1
    rw [← Tree.build_name ht he]
    apply Tree.build_idOf?_name ht
    rw [Tree.build_isStep ht, Tree.build_size ht]
    simpa using hj

/-- After the nodes from `a` on the exits of their stages are known, and nothing else. -/
theorem lookup_foldr_addExit (h : Tree.build f = .ok t) {a n : Nat} (hn : a + n = t.size)
    (i : Nat) : ((List.range' a n).foldr (addExit t) []).lookup i =
      if a ≤ i ∧ i < t.size ∧ t.isStage i then some (reach f i) else none := by
  induction n generalizing a i with
  | zero =>
    rw [if_neg (by omega)]
    rfl
  | succ n ih =>
    have ih := fun i => ih (a := a + 1) (by omega) i
    rw [List.range'_succ, List.foldr_cons]
    by_cases hstage : t.isStage a = true
    · obtain ⟨k, d, rfl, hd⟩ := exists_declared_of_isStep h (isStep_of_isStage hstage)
      have hinside : 0 < d.inside := by simpa [Tree.build_isStage h hd] using hstage
      obtain ⟨l, e, hlast, he, hkl, hend⟩ := Tree.build_getLast?_children h hd hinside
      have hlsize := (List.getElem?_eq_some_iff.1 he).1
      rw [addExit, if_pos hstage, hlast]
      -- the last step inside the stage reaches as far as the stage
      have hexit : (((List.range' (k + 1 + 1) n).foldr (addExit t) []).lookup (l + 1)).getD (l + 1) =
          reach f (k + 1) := by
        rw [ih, reach_eq hd, Tree.build_isStage h he, reach_eq he]
        have : l + 1 < t.size := by rw [Tree.build_size h]; omega
        by_cases hz : e.inside = 0
        · simp [hz]
          omega
        · rw [if_pos ⟨by omega, this, by simpa using Nat.pos_of_ne_zero hz⟩]
          simp
          omega
      rw [List.lookup_cons, hexit]
      by_cases hik : i = k + 1
      · subst hik
        simp [hstage]
        omega
      · have hne : (i == k + 1) = false := by simpa using hik
        have hle : k + 1 + 1 ≤ i ↔ k + 1 ≤ i := by omega
        rw [hne, ih]
        simp only [hle]
    · rw [addExit, if_neg hstage, ih]
      by_cases hia : i = a
      · simp [hia, hstage]
      · have hle : a + 1 ≤ i ↔ a ≤ i := by omega
        simp only [hle]

/-- Stages have exits, and other nodes none. -/
theorem unconnected_exit (h : Tree.build f = .ok t) (i : Nat) :
    ((unconnected t).node i).exit = if t.isStage i then some (reach f i) else none := by
  have hlookup := lookup_foldr_addExit h (Nat.zero_add t.size) i
  rw [← List.range_eq_range', ← exits_eq] at hlookup
  by_cases hi : i < t.size
  · simp [node, unconnected, hi, hlookup]
  · have hstage : t.isStage i = false := by simp [Tree.isStage, Tree.build_isStep h, hi]
    simp [node, unconnected, hi, hstage]

/-- **The exit of a stage is the last node inside it, and the exit of a leaf the leaf.** -/
theorem unconnected_exitOf (h : Tree.build f = .ok t) {k : Nat} {d : Declared}
    (hd : f.declared[k]? = some d) : (unconnected t).exitOf (k + 1) = k + 1 + d.inside := by
  rw [exitOf, unconnected_exit h, Tree.build_isStage h hd, reach_eq hd]
  by_cases hz : d.inside = 0
  · simp [hz]
  · simp [Nat.pos_of_ne_zero hz]

/-- The exit of a step is a node. -/
theorem unconnected_exitOf_lt (h : Tree.build f = .ok t) {j : Nat} (hj : t.isStep j = true) :
    (unconnected t).exitOf j < t.size := by
  obtain ⟨k, d, rfl, hd⟩ := exists_declared_of_isStep h hj
  have := Step.inside_lt hd
  rw [unconnected_exitOf h hd, Tree.build_size h, Flow.declared]
  omega

end Exits

/-! ### Wiring -/

/-- What the node `i` waits for in a graph over `t`: the exits of the steps that its dependencies
name, each once, or the node before it if it names none. -/
def WaitsFor (t : Tree) (i : Nat) (parents : List Nat) : Prop :=
  ∃ n, t.node? i = some n ∧ (n.dependencies = [] → parents = [i - 1]) ∧
    (n.dependencies ≠ [] → ∃ named : List Nat, n.dependencies.map t.idOf? = named.map some ∧
      parents = (named.map (unconnected t).exitOf).eraseDups)

section Named

variable {t : Tree} {deps : List String} {named : List Nat}

/-- Each dependency names one of the steps. -/
lemma exists_named (h : deps.map t.idOf? = named.map some) {d : String} (hd : d ∈ deps) :
    ∃ s ∈ named, t.idOf? d = some s := by
  have hmem : t.idOf? d ∈ named.map some := h ▸ List.mem_map_of_mem hd
  obtain ⟨s, hs, heq⟩ := List.mem_map.1 hmem
  exact ⟨s, hs, heq.symm⟩

/-- Each of the steps is named by a dependency. -/
lemma exists_naming (h : deps.map t.idOf? = named.map some) {s : Nat} (hs : s ∈ named) :
    ∃ d ∈ deps, t.idOf? d = some s := by
  have hmem : some s ∈ deps.map t.idOf? := h ▸ List.mem_map_of_mem hs
  exact List.mem_map.1 hmem

end Named

/-- The sources of a node are the exits of the steps that its dependencies name. -/
theorem sources_eq_ok {g : Graph} {step : String} {deps : List String} {from_ : List Nat}
    (h : g.sources step deps = .ok from_) :
    ∃ named : List Nat, deps.map g.tree.idOf? = named.map some ∧ from_ = named.map g.exitOf := by
  induction deps generalizing from_ with
  | nil =>
    cases h
    exact ⟨[], rfl, rfl⟩
  | cons d r ih =>
    rw [sources] at h
    cases hd : g.tree.idOf? d with
    | none =>
      rw [hd] at h
      cases h
    | some i =>
      simp only [hd] at h
      cases hr : g.sources step r with
      | error e =>
        rw [hr] at h
        cases h
      | ok rest =>
        rw [hr] at h
        cases h
        obtain ⟨named, hmap, rfl⟩ := ih hr
        exact ⟨i :: named, by simp [hd, hmap], rfl⟩

section Wire

variable {f : Flow} {t : Tree}

/-- Connecting a node gives it the parents it waits for and leaves the other nodes alone. -/
theorem Wired.connectNode (ht : Tree.build f = .ok t) {g g' : Graph} {i : Nat} (h : Wired t i g)
    (hpos : 0 < i) (hi : i < t.size) (hok : g.connectNode (i - 1) i = .ok g') :
    Wired t (i + 1) g' ∧ WaitsFor t i (g'.parents i) ∧
      ∀ j ≠ i, g'.parents j = g.parents j := by
  have hw := h.mono (Nat.le_succ i)
  have hfresh : g.parents i = ([] : List Nat).eraseDups := h.later i le_rfl
  obtain ⟨n, hn⟩ : ∃ n, t.node? i = some n := ⟨_, List.getElem?_eq_getElem hi⟩
  unfold Graph.connectNode at hok
  simp only [h.tree, hn] at hok
  by_cases hdeps : n.dependencies = []
  · rw [if_pos (by simpa using hdeps)] at hok
    cases hok
    have hlt : ∀ s ∈ [i - 1], s < t.size := by
      simp
      omega
    obtain ⟨hw', hpi, hpj⟩ := hw.foldl_connect hi hlt hfresh
    refine ⟨hw', ⟨n, hn, ?_, fun hne => absurd hdeps hne⟩, hpj⟩
    intro _
    simpa [List.eraseDups_cons] using hpi
  · rw [if_neg (by simpa using hdeps)] at hok
    cases hs : g.sources n.name n.dependencies with
    | error e =>
      rw [hs] at hok
      cases hok
    | ok from_ =>
      rw [hs] at hok
      cases hok
      obtain ⟨named, hmap, rfl⟩ := sources_eq_ok hs
      rw [h.tree] at hmap
      have hexit : named.map g.exitOf = named.map (unconnected t).exitOf :=
        List.map_congr_left fun j _ => h.exitOf j
      have hlt : ∀ s ∈ named.map g.exitOf, s < t.size := by
        intro s hs
        obtain ⟨j, hj, rfl⟩ := List.mem_map.1 hs
        obtain ⟨d, -, hd⟩ := exists_naming hmap hj
        rw [h.exitOf]
        exact unconnected_exitOf_lt ht (Tree.idOf?_eq_some hd).1
      obtain ⟨hw', hpi, hpj⟩ := hw.foldl_connect hi hlt hfresh
      refine ⟨hw', ⟨n, hn, fun he => absurd he hdeps, fun _ => ⟨named, hmap, ?_⟩⟩, hpj⟩
      rw [hpi, List.nil_append, hexit]

/-- **After the pass every node has the parents it waits for.** -/
theorem Wired.wire (ht : Tree.build f = .ok t) {g g' : Graph} {first n : Nat}
    (h : Wired t first g) (hpos : 0 < first) (hn : first + n ≤ t.size)
    (hok : g.wire first n = .ok g') :
    Wired t (first + n) g' ∧ (∀ i, first ≤ i → i < first + n → WaitsFor t i (g'.parents i)) ∧
      ∀ i < first, g'.parents i = g.parents i := by
  induction n generalizing g first with
  | zero =>
    cases hok
    exact ⟨h, fun i _ _ => absurd ‹i < _› (by omega), fun _ _ => rfl⟩
  | succ n ih =>
    rw [Graph.wire] at hok
    split at hok
    · cases hok
    · rename_i g₁ hg₁
      obtain ⟨hw, hwaits, hother⟩ := h.connectNode ht hpos (by omega) hg₁
      obtain ⟨hw', hwaits', hother'⟩ := ih hw (by omega) (by omega) hok
      refine ⟨by rwa [show first + (n + 1) = first + 1 + n by omega], ?_, ?_⟩
      · intro i hfirst hlt
        by_cases heq : i = first
        · subst heq
          rw [hother' i (by omega)]
          exact hwaits
        · exact hwaits' i (by omega) (by omega)
      · intro i hi
        rw [hother' i (by omega), hother i (by omega)]

end Wire

/-! ### Compiled graphs -/

section Compile

variable {f : Flow} {g : Graph}

/-- How the building of a graph ends: in the pass over the nodes, or in the search for a cycle in
the graph that the pass made. -/
theorem build_cases {t : Tree} (ht : Tree.build f = .ok t) :
    (∃ e, (unconnected t).wire 1 f.declared.length = .error e ∧ build t = .error e) ∨
      ∃ g, (unconnected t).wire 1 f.declared.length = .ok g ∧
        (g.cycle? = none ∧ build t = .ok g ∨
          ∃ cycle, g.cycle? = some cycle ∧ build t = .error (.cyclic (cycle.map g.name))) := by
  unfold build
  rw [connectLevel_eq_wire ht _ rfl]
  cases (unconnected t).wire 1 f.declared.length with
  | error e => exact .inl ⟨e, rfl, rfl⟩
  | ok g =>
    refine .inr ⟨g, rfl, ?_⟩
    simp only [Except.map]
    cases g.cycle? with
    | none => exact .inl ⟨rfl, rfl⟩
    | some cycle => exact .inr ⟨cycle, rfl, rfl⟩

/-- A pass over all nodes that goes through leaves the graph wired. -/
theorem wired_of_wire {t : Tree} (ht : Tree.build f = .ok t)
    (hw : (unconnected t).wire 1 f.declared.length = .ok g) :
    Wired t t.size g ∧ g.parents 0 = [] ∧
      ∀ i, 0 < i → i < t.size → WaitsFor t i (g.parents i) := by
  have hsize := Tree.build_size ht
  obtain ⟨hwired, hwaits, hroot⟩ := (unconnected_wired t 1).wire ht Nat.zero_lt_one (by omega) hw
  refine ⟨hwired.mono (by omega), ?_, fun i hpos hi => hwaits i hpos (by omega)⟩
  rw [hroot 0 Nat.zero_lt_one]
  exact (unconnected_node t 0).1

/-- What was found out about the graph of a flow by compiling it. -/
lemma exists_compiled {P : Graph → Prop} [DecidablePred P]
    (h : f.compile.toOption.any (fun g => P g) = true) : ∃ g, f.compile = .ok g ∧ P g :=
  exists_of_any_toOption h

/-- A compiled graph is what the pass over the nodes makes of the tree of its flow, and no cycle was
found in it. -/
lemma compile_wire (h : f.compile = .ok g) : Tree.build f = .ok g.tree ∧
    (unconnected g.tree).wire 1 f.declared.length = .ok g ∧ g.cycle? = none := by
  unfold Flow.compile at h
  split at h
  · cases h
  · rename_i t ht
    rcases build_cases ht with ⟨e, -, hbuild⟩ | ⟨g', hw, ⟨hc, hbuild⟩ | ⟨cycle, -, hbuild⟩⟩
    · rw [hbuild] at h
      cases h
    · rw [hbuild] at h
      cases h
      obtain rfl : t = g.tree := (wire_tree hw).symm
      exact ⟨ht, hw, hc⟩
    · rw [hbuild] at h
      cases h

/-- A compiled graph stands over the tree of its flow, is wired, and has no cycle. -/
theorem compile_eq_ok (h : f.compile = .ok g) :
    Tree.build f = .ok g.tree ∧ Wired g.tree g.size g ∧ g.parents 0 = [] ∧
      (∀ i, 0 < i → i < g.size → WaitsFor g.tree i (g.parents i)) ∧ g.cycle? = none := by
  obtain ⟨ht, hw, hc⟩ := compile_wire h
  obtain ⟨hwired, hroot, hwaits⟩ := wired_of_wire ht hw
  rw [hwired.size]
  exact ⟨ht, hwired, hroot, hwaits, hc⟩

lemma compile_size (h : f.compile = .ok g) : g.size = f.declared.length + 1 := by
  obtain ⟨ht, hw, -⟩ := compile_eq_ok h
  rw [hw.size, Tree.build_size ht]

/-- The node of the `k`-th declared step has its key for a name, without the blanks around it. -/
lemma compile_name (h : f.compile = .ok g) {k : Nat} {d : Declared}
    (hd : f.declared[k]? = some d) : g.name (k + 1) = Text.trim d.key := by
  obtain ⟨ht, -⟩ := compile_eq_ok h
  exact Tree.build_name ht hd

lemma compile_isStep (h : f.compile = .ok g) {k : Nat} {d : Declared}
    (hd : f.declared[k]? = some d) : g.tree.isStep (k + 1) = true := by
  obtain ⟨ht, -⟩ := compile_eq_ok h
  have := (List.getElem?_eq_some_iff.1 hd).1
  rw [Tree.build_isStep ht, Tree.build_size ht]
  simpa using this

/-- Two steps of a flow that compiles have the same name only if they are the same. -/
theorem compile_name_inj (h : f.compile = .ok g) {i j : Nat} (hi : g.tree.isStep i = true)
    (hj : g.tree.isStep j = true) : g.name i = g.name j ↔ i = j := by
  obtain ⟨ht, -⟩ := compile_eq_ok h
  exact ⟨Tree.build_name_inj ht hi hj, fun heq => heq ▸ rfl⟩

theorem compile_isStep_iff (h : f.compile = .ok g) {i : Nat} :
    g.tree.isStep i = true ↔ 0 < i ∧ i < g.size := by
  obtain ⟨ht, hw, -⟩ := compile_eq_ok h
  rw [Tree.build_isStep ht, decide_eq_true_eq, hw.size]

/-- What a step waits for, read off the document. -/
lemma compile_waitsFor (h : f.compile = .ok g) {k : Nat} {d : Declared}
    (hd : f.declared[k]? = some d) :
    (d.spec.dependencies = [] → g.parents (k + 1) = [k]) ∧
    (d.spec.dependencies ≠ [] → ∃ named : List Nat,
      List.Forall₂ (fun text j => ∃ e, f.declared[j]? = some e ∧ Text.trim e.key = text)
        d.spec.dependencies named ∧
      g.parents (k + 1) = (named.map fun j => g.exitOf (j + 1)).eraseDups) := by
  obtain ⟨ht, hw, -, hwaits, -⟩ := compile_eq_ok h
  have hk := (List.getElem?_eq_some_iff.1 hd).1
  obtain ⟨n, hn, hnone, hsome⟩ := hwaits (k + 1) k.succ_pos (by rw [compile_size h]; omega)
  rw [(Tree.build_of_node? ht hd hn).2] at hnone hsome
  refine ⟨hnone, ?_⟩
  intro hne
  obtain ⟨named, hmap, hparents⟩ := hsome hne
  have hall : List.Forall₂ (fun text j => g.tree.idOf? text = some j) d.spec.dependencies named := by
    rw [← List.forall₂_map_left_iff (f := g.tree.idOf?) (R := fun x j => x = some j),
      ← List.forall₂_map_right_iff (f := some) (R := fun x y => x = y), List.forall₂_eq_eq_eq]
    exact hmap
  refine ⟨named.map (· - 1), ?_, ?_⟩
  · rw [List.forall₂_map_right_iff]
    refine hall.imp ?_
    intro text j hid
    obtain ⟨l, e, rfl, he, hkey⟩ := (idOf?_eq_some_iff ht).1 hid
    exact ⟨e, he, hkey⟩
  · rw [hparents, List.map_map]
    congr 1
    refine List.map_congr_left ?_
    intro j hj
    obtain ⟨text, -, hid⟩ := exists_naming hmap hj
    obtain ⟨l, e, rfl, -⟩ := (idOf?_eq_some_iff ht).1 hid
    exact (hw.exitOf _).symm

lemma compile_exitOf (h : f.compile = .ok g) {k : Nat} {d : Declared}
    (hd : f.declared[k]? = some d) : g.exitOf (k + 1) = k + 1 + d.inside := by
  obtain ⟨ht, hw, -⟩ := compile_eq_ok h
  rw [hw.exitOf, unconnected_exitOf ht hd]

lemma compile_exit (h : f.compile = .ok g) (i : Nat) :
    (g.node i).exit = if g.tree.isStage i then some (reach f i) else none := by
  obtain ⟨ht, hw, -⟩ := compile_wire h
  rw [wire_exit hw, unconnected_exit ht]

/-- The names of the steps of a flow that compiles are distinct. -/
lemma compile_names_nodup (h : f.compile = .ok g) :
    (f.declared.map fun d => Text.trim d.key).Nodup := by
  obtain ⟨ht, -⟩ := compile_eq_ok h
  refine List.pairwise_map.2 (List.pairwise_iff_getElem.2 ?_)
  intro i j hi hj hlt heq
  have hdi := List.getElem?_eq_getElem hi
  have hdj := List.getElem?_eq_getElem hj
  rw [← compile_name h hdi, ← compile_name h hdj] at heq
  have := Tree.build_name_inj ht (compile_isStep h hdi) (compile_isStep h hdj) heq
  omega

/-- **The edges of a compiled graph.** Node `k + 1` is that of the `k`-th declared step. A step
without dependencies waits for the node declared right before it; a step with dependencies waits
for the exits of the steps they name, in their order and each once. The exit of a step is the last
node inside it, which is a leaf, and the step itself if there is none inside. The root waits for
nothing, and the children of a node are those that wait for it, in order of declaration. -/
theorem compile_edges (h : f.compile = .ok g) :
    g.size = f.declared.length + 1 ∧
    (f.declared.map fun d => Text.trim d.key).Nodup ∧
    (∀ k d, f.declared[k]? = some d →
      g.name (k + 1) = Text.trim d.key ∧
      g.tree.isLeaf (k + 1) = decide (d.inside = 0) ∧
      (d.spec.dependencies = [] → g.parents (k + 1) = [k]) ∧
      (d.spec.dependencies ≠ [] → ∃ named : List Nat,
        List.Forall₂ (fun text j => ∃ e, f.declared[j]? = some e ∧ Text.trim e.key = text)
          d.spec.dependencies named ∧
        g.parents (k + 1) = (named.map fun j => g.exitOf (j + 1)).eraseDups) ∧
      g.exitOf (k + 1) = k + 1 + d.inside ∧
      g.tree.isLeaf (k + 1 + d.inside) = true) ∧
    g.parents 0 = [] ∧
    ∀ p < g.size, g.children p = (List.range g.size).filter fun c => p ∈ g.parents c := by
  obtain ⟨ht, hw, hroot, -⟩ := compile_eq_ok h
  refine ⟨compile_size h, compile_names_nodup h, ?_, hroot, ?_⟩
  · intro k d hd
    obtain ⟨hnone, hsome⟩ := compile_waitsFor h hd
    refine ⟨compile_name h hd, Tree.build_isLeaf ht hd, hnone, hsome, compile_exitOf h hd, ?_⟩
    obtain ⟨e, he, hz⟩ := Tree.build_inside_last ht hd
    rw [Nat.add_right_comm, Tree.build_isLeaf ht he]
    exact decide_eq_true hz
  · intro p hp
    rw [hw.size] at hp ⊢
    exact hw.children p hp

end Compile

/-- A stage with two steps, a step behind it, and a step that waits for both. The stage and its last
step are the same source. -/
def release : Flow where
  steps :=
    [("build", { steps := [("compile", { spec := { bash := some "make" } }),
        ("link", { spec := { bash := some "make link" } })] }),
      ("lint", { spec := { bash := some "make lint" } }),
      ("package", { spec := { bash := some "make dist", dependencies := ["build", "lint", "link"] } })]

theorem release_compiles : ∃ g, release.compile = .ok g := by
  obtain ⟨g, hc, -⟩ := exists_compiled (f := release) (P := fun _ => True) (by cbv)
  exact ⟨g, hc⟩

lemma release_declared : release.declared =
    [⟨"build", {}, 2⟩, ⟨"compile", { bash := some "make" }, 0⟩,
      ⟨"link", { bash := some "make link" }, 0⟩, ⟨"lint", { bash := some "make lint" }, 0⟩,
      ⟨"package", { bash := some "make dist", dependencies := ["build", "lint", "link"] }, 0⟩] := by
  simp [Flow.declared, release, Step.declared]

theorem compile_edges_release : ∃ g, release.compile = .ok g ∧ g.size = 6 ∧ g.exitOf 1 = 3 ∧
    g.parents 4 = [3] ∧ ∃ named : List Nat,
      List.Forall₂ (fun text j => ∃ e, release.declared[j]? = some e ∧ Text.trim e.key = text)
        ["build", "lint", "link"] named ∧
      g.parents 5 = (named.map fun j => g.exitOf (j + 1)).eraseDups := by
  obtain ⟨g, hc⟩ := release_compiles
  obtain ⟨hsize, -, hstep, -⟩ := compile_edges hc
  rw [release_declared] at hsize hstep ⊢
  obtain ⟨-, -, -, -, hexit, -⟩ := hstep 0 _ rfl
  obtain ⟨-, -, hlint, -⟩ := hstep 3 _ rfl
  obtain ⟨-, -, -, hpackage, -⟩ := hstep 4 _ rfl
  exact ⟨g, hc, hsize, hexit, hlint rfl, hpackage (by simp)⟩

end StepFlow.Graph

import StepFlow.Proofs.Graph.Cycles

/-!
Which trees have a graph. Building fails at the first dependency that is not the name of a step; if
there is none it fails when the steps wait for each other in a circle, and then it reports such a
circle; otherwise there is a graph. All of this is read off the document: who is named, and which
node a step comes after.
-/

namespace StepFlow

/-! ### Reading the document -/

/-- A text is the name of a step. -/
def Flow.Names (f : Flow) (text : String) : Prop := ∃ d ∈ f.declared, Text.trim d.key = text

/-- `f.Feeds a b`: node `b` comes right after node `a`. A step that names nothing comes after the
node declared before it, any other step after the exits of the steps it names; the exit of a step is
the last node inside it, or the step itself. -/
inductive Flow.Feeds (f : Flow) : Nat → Nat → Prop
  | default {k : Nat} {d : Declared} (hd : f.declared[k]? = some d)
      (hnone : d.spec.dependencies = []) : Feeds f k (k + 1)
  | named {k j : Nat} {d e : Declared} (hd : f.declared[k]? = some d)
      (he : f.declared[j]? = some e) (hname : Text.trim e.key ∈ d.spec.dependencies) :
      Feeds f (j + 1 + e.inside) (k + 1)

/-- The first dependency that is not the name of a step: `text` in the list of the step `step`. All
texts before it in that list and in the lists of the steps declared before are names of steps. -/
def Flow.FirstUnnamed (f : Flow) (step text : String) : Prop :=
  ∃ (k : Nat) (d : Declared) (before after : List String), f.declared[k]? = some d ∧
    Text.trim d.key = step ∧ d.spec.dependencies = before ++ text :: after ∧ ¬ f.Names text ∧
    (∀ x ∈ before, f.Names x) ∧
    ∀ (j : Nat) (e : Declared), j < k → f.declared[j]? = some e →
      ∀ x ∈ e.spec.dependencies, f.Names x

lemma Flow.FirstUnnamed.exists_unnamed {f : Flow} {step text : String} (h : f.FirstUnnamed step text) :
    ∃ d ∈ f.declared, ∃ x ∈ d.spec.dependencies, ¬ f.Names x := by
  obtain ⟨k, d, before, after, hd, -, hdeps, hnot, -⟩ := h
  exact ⟨d, List.mem_of_getElem? hd, text, by simp [hdeps], hnot⟩

namespace Graph

section Names

variable {f : Flow} {t : Tree} {text : String}

/-- Something is found under a text just when it is the name of a step. -/
lemma idOf?_ne_none_iff (ht : Tree.build f = .ok t) : t.idOf? text ≠ none ↔ f.Names text := by
  rw [Option.ne_none_iff_exists']
  constructor
  · rintro ⟨i, hid⟩
    obtain ⟨j, e, -, he, hname⟩ := (idOf?_eq_some_iff ht).1 hid
    exact ⟨e, List.mem_of_getElem? he, hname⟩
  · rintro ⟨e, he, hname⟩
    obtain ⟨j, hj⟩ := List.getElem?_of_mem he
    exact ⟨j + 1, (idOf?_eq_some_iff ht).2 ⟨j, e, rfl, hj, hname⟩⟩

end Names

/-! ### Unresolved dependencies -/

/-- A dependency of the node `i` is not the name of a step, and it is the first of them. -/
def Unresolved (t : Tree) (i : Nat) (e : GraphError) : Prop :=
  ∃ n before text after, t.node? i = some n ∧ n.dependencies = before ++ text :: after ∧
    (∀ x ∈ before, t.idOf? x ≠ none) ∧ t.idOf? text = none ∧ e = .unresolved n.name text

/-- All dependencies of the node `i` are names of steps. -/
def Resolved (t : Tree) (i : Nat) : Prop :=
  ∀ n, t.node? i = some n → ∀ x ∈ n.dependencies, t.idOf? x ≠ none

section Unresolved

variable {f : Flow} {t : Tree} {g g' : Graph} {e : GraphError} {i current : Nat}

lemma sources_eq_error {step : String} {deps : List String}
    (h : g.sources step deps = .error e) : ∃ before text after,
      deps = before ++ text :: after ∧ (∀ x ∈ before, g.tree.idOf? x ≠ none) ∧
        g.tree.idOf? text = none ∧ e = .unresolved step text := by
  induction deps with
  | nil => cases h
  | cons d r ih =>
    rw [sources] at h
    cases hd : g.tree.idOf? d with
    | none =>
      rw [hd] at h
      cases h
      exact ⟨[], d, r, rfl, List.forall_mem_nil _, hd, rfl⟩
    | some j =>
      simp only [hd] at h
      cases hr : g.sources step r with
      | ok rest =>
        rw [hr] at h
        cases h
      | error e' =>
        rw [hr] at h
        cases h
        obtain ⟨before, text, after, rfl, hbefore, htext, rfl⟩ := ih hr
        refine ⟨d :: before, text, after, rfl, ?_, htext, rfl⟩
        exact List.forall_mem_cons.2 ⟨by simp [hd], hbefore⟩

lemma connectNode_eq_error (h : g.connectNode current i = .error e) : Unresolved g.tree i e := by
  unfold connectNode at h
  split at h
  · cases h
  · rename_i n hn
    split at h
    · cases h
    · cases hs : g.sources n.name n.dependencies with
      | ok from_ =>
        rw [hs] at h
        cases h
      | error e' =>
        rw [hs] at h
        cases h
        obtain ⟨before, text, after, hdeps, hbefore, htext, rfl⟩ := sources_eq_error hs
        exact ⟨n, before, text, after, hn, hdeps, hbefore, htext, rfl⟩

lemma resolved_of_map_eq {deps : List String} {named : List Nat}
    (h : deps.map t.idOf? = named.map some) : ∀ x ∈ deps, t.idOf? x ≠ none := by
  intro x hx
  obtain ⟨j, -, hj⟩ := exists_named h hx
  rw [hj]
  exact Option.some_ne_none j

lemma connectNode_resolved (h : g.connectNode current i = .ok g') : Resolved g.tree i := by
  intro n hn x hx
  unfold connectNode at h
  simp only [hn] at h
  rw [if_neg (by simpa using List.ne_nil_of_mem hx)] at h
  cases hs : g.sources n.name n.dependencies with
  | error e =>
    rw [hs] at h
    cases h
  | ok from_ =>
    obtain ⟨named, hmap, -⟩ := sources_eq_ok hs
    exact resolved_of_map_eq hmap x hx

/-- **The pass over the nodes** stops at the first node with a dependency that is not the name of a
step. -/
lemma wire_eq_error {first m : Nat} (h : g.wire first m = .error e) : ∃ i, first ≤ i ∧
    i < first + m ∧ Unresolved g.tree i e ∧ ∀ j, first ≤ j → j < i → Resolved g.tree j := by
  induction m generalizing g first with
  | zero => cases h
  | succ m ih =>
    rw [wire] at h
    split at h
    · rename_i e' he
      cases h
      refine ⟨first, le_rfl, by omega, connectNode_eq_error he, ?_⟩
      intro j hj hlt
      exact absurd hlt (Nat.not_lt.2 hj)
    · rename_i g₁ hg₁
      obtain ⟨i, hfirst, hlt, hun, hres⟩ := ih h
      rw [connectNode_tree hg₁] at hun hres
      refine ⟨i, by omega, by omega, hun, ?_⟩
      intro j hj hji
      by_cases heq : j = first
      · subst heq
        exact connectNode_resolved hg₁
      · exact hres j (by omega) hji

/-- What the pass reports is the first dependency in the document that is not the name of a step. -/
lemma firstUnnamed_of_wire (ht : Tree.build f = .ok t)
    (h : (unconnected t).wire 1 f.declared.length = .error e) :
    ∃ step text, e = .unresolved step text ∧ f.FirstUnnamed step text := by
  obtain ⟨i, hfirst, hlt, ⟨n, before, text, after, hn, hdeps, hbefore, htext, rfl⟩, hres⟩ :=
    wire_eq_error h
  obtain ⟨k, d, rfl, hd⟩ := exists_declared ht (i := i) (by omega) (by
    rw [Tree.build_size ht]
    omega)
  obtain ⟨hname, hdeps'⟩ := Tree.build_of_node? ht hd hn
  refine ⟨_, text, rfl, k, d, before, after, hd, hname.symm, hdeps'.symm.trans hdeps, ?_, ?_, ?_⟩
  · rw [← idOf?_ne_none_iff ht]
    exact not_not.2 htext
  · intro x hx
    exact (idOf?_ne_none_iff ht).1 (hbefore x hx)
  · intro j e hj he x hx
    obtain ⟨m, hm, -⟩ := Tree.build_node ht he
    rw [← (Tree.build_of_node? ht he hm).2] at hx
    exact (idOf?_ne_none_iff ht).1 (hres (j + 1) (by omega) (by omega) m hm x hx)

end Unresolved

/-! ### Edges read off the document -/

section Feeds

variable {f : Flow} {t : Tree} {g : Graph} {a b : Nat}

/-- When the pass goes through, all dependencies are names of steps. -/
lemma names_of_wire (ht : Tree.build f = .ok t)
    (hw : (unconnected t).wire 1 f.declared.length = .ok g) :
    ∀ d ∈ f.declared, ∀ x ∈ d.spec.dependencies, f.Names x := by
  intro d hmem x hx
  obtain ⟨k, hd⟩ := List.getElem?_of_mem hmem
  have hk := (List.getElem?_eq_some_iff.1 hd).1
  have hsize := Tree.build_size ht
  obtain ⟨-, -, hwaits⟩ := wired_of_wire ht hw
  obtain ⟨n, hn, -, hsome⟩ := hwaits (k + 1) (by omega) (by omega)
  rw [(Tree.build_of_node? ht hd hn).2] at hsome
  obtain ⟨named, hmap, -⟩ := hsome (List.ne_nil_of_mem hx)
  exact (idOf?_ne_none_iff ht).1 (resolved_of_map_eq hmap x hx)

/-- **The edges that the pass makes** are those of the document. -/
lemma mem_parents_iff_feeds (ht : Tree.build f = .ok t)
    (hw : (unconnected t).wire 1 f.declared.length = .ok g) :
    a ∈ g.parents b ↔ f.Feeds a b := by
  have hsize := Tree.build_size ht
  obtain ⟨hwired, hroot, hwaits⟩ := wired_of_wire ht hw
  by_cases hb : 0 < b ∧ b < t.size
  · obtain ⟨k, d, rfl, hd⟩ := exists_declared ht hb.1 hb.2
    obtain ⟨n, hn, hnone, hsome⟩ := hwaits (k + 1) (by omega) (by omega)
    rw [(Tree.build_of_node? ht hd hn).2] at hnone hsome
    by_cases hdeps : d.spec.dependencies = []
    · rw [hnone hdeps, List.mem_singleton]
      constructor
      · rintro rfl
        exact .default hd hdeps
      · intro hfeeds
        cases hfeeds with
        | default => rfl
        | named hd' he hname =>
          cases hd.symm.trans hd'
          rw [hdeps] at hname
          cases hname
    · obtain ⟨named, hmap, hparents⟩ := hsome hdeps
      rw [hparents, List.mem_eraseDups, List.mem_map]
      constructor
      · rintro ⟨i, hi, rfl⟩
        obtain ⟨text, htext, hid⟩ := exists_naming hmap hi
        obtain ⟨j, e, rfl, he, rfl⟩ := (idOf?_eq_some_iff ht).1 hid
        rw [unconnected_exitOf ht he]
        exact .named hd he htext
      · intro hfeeds
        cases hfeeds with
        | default hd' hnone' =>
          cases hd.symm.trans hd'
          exact absurd hnone' hdeps
        | @named _ j _ e hd' he hname =>
          cases hd.symm.trans hd'
          have hid := (idOf?_eq_some_iff ht).2 ⟨j, e, rfl, he, rfl⟩
          obtain ⟨i, hi, heq⟩ := exists_named hmap hname
          cases heq.symm.trans hid
          exact ⟨j + 1, hi, unconnected_exitOf ht he⟩
  · -- nothing comes before the root, or before what is no node
    have hnil : g.parents b = [] := by
      by_cases hz : b = 0
      · rw [hz, hroot]
      · exact hwired.later b (by omega)
    rw [hnil]
    refine iff_of_false List.not_mem_nil ?_
    intro hfeeds
    cases hfeeds with
    | default hd =>
      have := (List.getElem?_eq_some_iff.1 hd).1
      omega
    | named hd =>
      have := (List.getElem?_eq_some_iff.1 hd).1
      omega

end Feeds

/-! ### The outcome -/

section Outcome

variable {f : Flow} {t : Tree} {g : Graph} {cycle : List Nat}

/-- When no cycle is reported no node comes after itself. -/
lemma acyclic_of_wire (ht : Tree.build f = .ok t)
    (hw : (unconnected t).wire 1 f.declared.length = .ok g) (hcycle : g.cycle? = none) :
    ¬ ∃ a, Relation.TransGen f.Feeds a a := by
  obtain ⟨hwired, -⟩ := wired_of_wire ht hw
  rintro ⟨a, ha⟩
  refine not_before_self (hwired.mem_children_iff le_rfl) hcycle a ?_
  exact Relation.TransGen.mono (fun a b => (mem_parents_iff_feeds ht hw).2) a a ha

/-- A reported cycle is one of the document, and no name but the first comes twice. -/
lemma cycle_of_wire (ht : Tree.build f = .ok t)
    (hw : (unconnected t).wire 1 f.declared.length = .ok g) (hcycle : g.cycle? = some cycle) :
    2 ≤ cycle.length ∧ cycle.head? = cycle.getLast? ∧ (cycle.map t.name).dropLast.Nodup ∧
      cycle.IsChain f.Feeds ∧ ∃ a, Relation.TransGen f.Feeds a a := by
  have hsize := Tree.build_size ht
  obtain ⟨hwired, -⟩ := wired_of_wire ht hw
  have hmem := hwired.mem_children_iff le_rfl
  have hfeeds : ∀ a b, b ∈ g.children a ↔ f.Feeds a b := fun a b =>
    (hmem a b).trans (mem_parents_iff_feeds ht hw)
  have hc := isCycle_of_cycle?_eq_some hcycle
  have hstep : ∀ b ∈ cycle, t.isStep b = true := by
    intro b hb
    obtain ⟨a, ha⟩ := hc.exists_parent hb
    rw [Tree.build_isStep ht, decide_eq_true_eq, hsize]
    cases (hfeeds a b).1 ha with
    | default hd =>
      have := (List.getElem?_eq_some_iff.1 hd).1
      omega
    | named hd =>
      have := (List.getElem?_eq_some_iff.1 hd).1
      omega
  refine ⟨hc.length, hc.closed, ?_, ?_, ?_⟩
  · rw [← List.map_dropLast]
    refine hc.nodup.map_on ?_
    intro x hx y hy hname
    exact Tree.build_name_inj ht (hstep x (List.mem_of_mem_dropLast hx))
      (hstep y (List.mem_of_mem_dropLast hy)) hname
  · exact (List.IsChain.iff hfeeds).1 hc.chain
  · obtain ⟨a, ha⟩ := hc.exists_before fun a b => (hmem a b).1
    exact ⟨a, Relation.TransGen.mono (fun a b => (mem_parents_iff_feeds ht hw).1) a a ha⟩

/-- **What becomes of a tree.** Building its graph fails for a dependency just when some dependency
is not the name of a step, and names the first. If all are names of steps it fails for a cycle just
when some node comes after itself, and otherwise there is a graph, with the edges of the document. A
cycle that is reported is one: it has at least two entries, of which the first and the last are the
same and no others, and each comes right before the next. And the search for a cycle ends on every
graph. -/
theorem build_outcome (ht : Tree.build f = .ok t) :
    ((∃ step text, build t = .error (.unresolved step text)) ↔
      ∃ d ∈ f.declared, ∃ text ∈ d.spec.dependencies, ¬ f.Names text) ∧
    (∀ step text, build t = .error (.unresolved step text) → f.FirstUnnamed step text) ∧
    ((∀ d ∈ f.declared, ∀ text ∈ d.spec.dependencies, f.Names text) →
      ((∃ names, build t = .error (.cyclic names)) ↔ ∃ a, Relation.TransGen f.Feeds a a) ∧
      ((¬ ∃ a, Relation.TransGen f.Feeds a a) →
        ∃ g, build t = .ok g ∧ ∀ a b, a ∈ g.parents b ↔ f.Feeds a b)) ∧
    (∀ names, build t = .error (.cyclic names) → ∃ cycle : List Nat, names = cycle.map t.name ∧
      2 ≤ names.length ∧ names.head? = names.getLast? ∧ names.dropLast.Nodup ∧
      cycle.IsChain f.Feeds) ∧
    ∀ g : Graph, (WellFounded fun y x => g.Move x y) ∧
      ∀ visited trail, ∃ y, g.Moves (visited, trail) y ∧ Ended y (g.search visited trail) := by
  have hends : ∀ g : Graph, (WellFounded fun y x => g.Move x y) ∧
      ∀ visited trail, ∃ y, g.Moves (visited, trail) y ∧ Ended y (g.search visited trail) :=
    fun g => ⟨g.moves_wellFounded, g.search_ended⟩
  rcases build_cases ht with ⟨e, hw, hbuild⟩ | ⟨g, hw, hfinish⟩
  · -- a dependency is not the name of a step
    obtain ⟨step, text, rfl, hfirst⟩ := firstUnnamed_of_wire ht hw
    have hunnamed := hfirst.exists_unnamed
    rw [hbuild]
    refine ⟨iff_of_true ⟨step, text, rfl⟩ hunnamed, ?_, ?_, ?_, hends⟩
    · rintro step' text' ⟨⟩
      exact hfirst
    · intro hall
      obtain ⟨d, hd, x, hx, hnot⟩ := hunnamed
      exact absurd (hall d hd x hx) hnot
    · rintro names ⟨⟩
  · -- all are names of steps
    have hall := names_of_wire ht hw
    have hnone : ¬ ∃ d ∈ f.declared, ∃ text ∈ d.spec.dependencies, ¬ f.Names text := by
      rintro ⟨d, hd, x, hx, hnot⟩
      exact hnot (hall d hd x hx)
    have hedges : ∀ a b, a ∈ g.parents b ↔ f.Feeds a b := fun a b => mem_parents_iff_feeds ht hw
    rcases hfinish with ⟨hcycle, hbuild⟩ | ⟨cycle, hcycle, hbuild⟩
    · have hacyclic := acyclic_of_wire ht hw hcycle
      rw [hbuild]
      refine ⟨iff_of_false ?_ hnone, ?_, fun _ => ⟨iff_of_false ?_ hacyclic, ?_⟩, ?_, hends⟩
      · rintro ⟨step, text, ⟨⟩⟩
      · rintro step text ⟨⟩
      · rintro ⟨names, ⟨⟩⟩
      · exact fun _ => ⟨g, rfl, hedges⟩
      · rintro names ⟨⟩
    · obtain ⟨hlen, hclosed, hnodup, hchain, hself⟩ := cycle_of_wire ht hw hcycle
      have hname : g.name = t.name := by
        funext i
        rw [Graph.name, wire_tree hw]
        rfl
      rw [hbuild, hname]
      refine ⟨iff_of_false ?_ hnone, ?_, fun _ => ⟨iff_of_true ⟨_, rfl⟩ hself, ?_⟩, ?_, hends⟩
      · rintro ⟨step, text, ⟨⟩⟩
      · rintro step text ⟨⟩
      · exact fun hacyclic => absurd hself hacyclic
      · rintro names ⟨⟩
        refine ⟨cycle, rfl, by rwa [List.length_map], ?_, hnodup, hchain⟩
        rw [List.head?_map, List.getLast?_map, hclosed]

end Outcome

/-! ### A circle through a stage -/

/-- The stage waits for the tests, and they come after its last step. -/
def circle : Flow where
  steps :=
    [("build", { steps :=
        [("compile", { spec := { bash := some "make", dependencies := ["test"] } }),
          ("link", { spec := { bash := some "make link" } })] }),
      ("test", { spec := { bash := some "make test" } })]

lemma circle_builds : ∃ t, Tree.build circle = .ok t ∧
    build t = .error (.cyclic ["compile", "link", "test", "compile"]) := by
  have hrun : (Tree.build circle).toOption.any (fun t =>
      build t = .error (.cyclic ["compile", "link", "test", "compile"])) = true := by cbv
  cases ht : Tree.build circle with
  | error e =>
    rw [ht] at hrun
    cases hrun
  | ok t =>
    rw [ht] at hrun
    exact ⟨t, rfl, of_decide_eq_true hrun⟩

theorem build_outcome_circle : ∃ t, Tree.build circle = .ok t ∧
    build t = .error (.cyclic ["compile", "link", "test", "compile"]) ∧
    (∀ d ∈ circle.declared, ∀ text ∈ d.spec.dependencies, circle.Names text) ∧
    (∃ a, Relation.TransGen circle.Feeds a a) ∧
    ∃ cycle : List Nat, cycle.map t.name = ["compile", "link", "test", "compile"] ∧
      cycle.IsChain circle.Feeds := by
  obtain ⟨t, ht, hbuild⟩ := circle_builds
  obtain ⟨hunresolved, -, hresolved, hcycle, -⟩ := build_outcome ht
  have hnames : ∀ d ∈ circle.declared, ∀ text ∈ d.spec.dependencies, circle.Names text := by
    by_contra hnot
    push Not at hnot
    obtain ⟨step, text, herror⟩ := hunresolved.2 hnot
    rw [hbuild] at herror
    cases herror
  obtain ⟨cycle, hmap, -, -, -, hchain⟩ := hcycle _ hbuild
  exact ⟨t, ht, hbuild, hnames, (hresolved hnames).1.1 ⟨_, hbuild⟩, cycle, hmap.symm, hchain⟩

end Graph

end StepFlow

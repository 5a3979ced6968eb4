import StepFlow.Flow.Check
import StepFlow.Proofs.Graph.Exits
import StepFlow.Proofs.Graph.Refusals
import StepFlow.Proofs.Path

/-!
Dependencies that are written like the keys of steps. The name of a step is its key without the blanks
around it, but a dependency is looked up among the names as it stands. So a key leads to its step just
when there are no blanks around it (`idOf?_key`). In a flow whose dependencies are all keys of its
steps one is unresolved just when there are blanks around some of them (`compile_of_keys`).
-/

namespace StepFlow

/-- Every dependency in the flow is the key of a step, as it was declared. -/
def Flow.DependsOnKeys (f : Flow) : Prop :=
  ∀ d ∈ f.declared, ∀ text ∈ d.spec.dependencies, ∃ e ∈ f.declared, e.key = text

namespace Graph

variable {f : Flow} {t : Tree} {g : Graph}

/-! ### Looking keys up -/

/-- The key of a step is a name of a step only if it is its own name. -/
lemma names_key_iff {d : Declared} (hd : d ∈ f.declared) :
    f.Names d.key ↔ Text.trim d.key = d.key := by
  constructor
  · rintro ⟨e, -, he⟩
    rw [← he, Text.trim_trim]
  · exact fun h => ⟨d, hd, h⟩

/-- **A key leads to its step**, or to none if there are blanks around it. -/
lemma idOf?_key (ht : Tree.build f = .ok t) {j : Nat} {e : Declared} (he : f.declared[j]? = some e) :
    t.idOf? e.key = if Text.trim e.key = e.key then some (j + 1) else none := by
  split
  · rename_i htrim
    exact (idOf?_eq_some_iff ht).2 ⟨j, e, rfl, he, htrim⟩
  · rename_i htrim
    rw [← names_key_iff (List.mem_of_getElem? he), ← idOf?_ne_none_iff ht] at htrim
    exact not_not.1 htrim

/-! ### Unresolved dependencies -/

/-- A tree has no graph for a dependency just when some dependency is not the name of a step. -/
lemma unresolved_iff (ht : Tree.build f = .ok t) :
    (∃ step text, build t = .error (.unresolved step text)) ↔
      ∃ d ∈ f.declared, ∃ text ∈ d.spec.dependencies, ¬ f.Names text := by
  rcases build_cases ht with ⟨e, hw, hbuild⟩ | ⟨g, hw, hfinish⟩
  · obtain ⟨step, text, rfl, hfirst⟩ := firstUnnamed_of_wire ht hw
    exact iff_of_true ⟨step, text, hbuild⟩ hfirst.exists_unnamed
  · refine iff_of_false ?_ ?_
    · rintro ⟨step, text, herror⟩
      rcases hfinish with ⟨-, hbuild⟩ | ⟨cycle, -, hbuild⟩
      · rw [hbuild] at herror
        cases herror
      · rw [hbuild] at herror
        cases herror
    · rintro ⟨d, hd, text, htext, hnot⟩
      exact hnot (names_of_wire ht hw d hd text htext)

/-- The dependency that is reported is the first one that is not the name of a step. -/
lemma firstUnnamed_of_build (ht : Tree.build f = .ok t) {step text : String}
    (h : build t = .error (.unresolved step text)) : f.FirstUnnamed step text := by
  rcases build_cases ht with ⟨e, hw, hbuild⟩ | ⟨g, -, ⟨-, hbuild⟩ | ⟨cycle, -, hbuild⟩⟩
  · obtain ⟨step', text', rfl, hfirst⟩ := firstUnnamed_of_wire ht hw
    cases hbuild.symm.trans h
    exact hfirst
  · cases hbuild.symm.trans h
  · cases hbuild.symm.trans h

/-- What goes wrong with the tree of a flow goes wrong with the flow. -/
lemma compile_eq_error_iff (ht : Tree.build f = .ok t) {e : GraphError} :
    f.compile = .error (.graph e) ↔ build t = .error e := by
  have hcompile : f.compile = (build t).mapError .graph := by rw [Flow.compile, ht]
  rw [hcompile]
  cases build t with
  | error e' => simp [Except.mapError]
  | ok g => simp [Except.mapError]

/-- **Depending on a step by its key.** In a flow whose dependencies are keys of its steps, one of them
is unresolved just when there are blanks around some of them, and the first such one is reported. A key
without blanks around it leads to the node of its step, a key with blanks to none. Who depends on a
step by its key waits for the exit of that step. -/
theorem compile_of_keys (ht : Tree.build f = .ok t) (hkeys : f.DependsOnKeys) :
    ((∃ step text, f.compile = .error (.graph (.unresolved step text))) ↔
      ∃ d ∈ f.declared, ∃ text ∈ d.spec.dependencies, Text.trim text ≠ text) ∧
    (∀ step text, f.compile = .error (.graph (.unresolved step text)) →
      f.FirstUnnamed step text ∧ Text.trim text ≠ text) ∧
    (∀ j e, f.declared[j]? = some e →
      t.idOf? e.key = if Text.trim e.key = e.key then some (j + 1) else none) ∧
    ∀ g, f.compile = .ok g → ∀ k j d e, f.declared[k]? = some d → f.declared[j]? = some e →
      e.key ∈ d.spec.dependencies →
        g.DependsOn (k + 1) (j + 1) ∧ g.exitOf (j + 1) ∈ g.parents (k + 1) := by
  have hnames : ∀ d ∈ f.declared, ∀ text ∈ d.spec.dependencies,
      (¬ f.Names text ↔ Text.trim text ≠ text) := by
    intro d hd text htext
    obtain ⟨e, he, rfl⟩ := hkeys d hd text htext
    exact not_congr (names_key_iff he)
  simp only [compile_eq_error_iff ht]
  refine ⟨?_, ?_, fun j e he => idOf?_key ht he, ?_⟩
  · rw [unresolved_iff ht]
    constructor
    · rintro ⟨d, hd, text, htext, hnot⟩
      exact ⟨d, hd, text, htext, (hnames d hd text htext).1 hnot⟩
    · rintro ⟨d, hd, text, htext, hblanks⟩
      exact ⟨d, hd, text, htext, (hnames d hd text htext).2 hblanks⟩
  · intro step text h
    have hfirst := firstUnnamed_of_build ht h
    obtain ⟨k, d, before, after, hd, -, hdeps, hnot, -⟩ := id hfirst
    exact ⟨hfirst, (hnames d (List.mem_of_getElem? hd) text (by simp [hdeps])).1 hnot⟩
  · intro g hg k j d e hd he hmem
    obtain ⟨ht', -⟩ := compile_eq_ok hg
    cases ht.symm.trans ht'
    -- the graph stands, so the dependency was found, and it is the key itself
    obtain ⟨-, hw, -⟩ := compile_wire hg
    have hname := names_of_wire ht hw d (List.mem_of_getElem? hd) _ hmem
    have hid := idOf?_key ht he
    rw [if_pos ((names_key_iff (List.mem_of_getElem? he)).1 hname)] at hid
    obtain ⟨n, hn, -⟩ := Tree.build_node ht hd
    have hdepends : g.DependsOn (k + 1) (j + 1) :=
      ⟨n, hn, e.key, (Tree.build_of_node? ht hd hn).2 ▸ hmem, hid⟩
    exact ⟨hdepends, exitOf_mem_parents hg (compile_isStep hg hd) hdepends⟩

lemma release_dependsOnKeys : release.DependsOnKeys := by
  rw [Flow.DependsOnKeys, release_declared]
  simp

theorem compile_of_keys_release : ∃ g, release.compile = .ok g ∧ release.DependsOnKeys ∧
    g.tree.idOf? "build" = some 1 ∧ g.DependsOn 5 1 ∧ g.exitOf 1 ∈ g.parents 5 := by
  obtain ⟨g, hg⟩ := release_compiles
  obtain ⟨ht, -⟩ := compile_eq_ok hg
  obtain ⟨-, -, hid, hedges⟩ := compile_of_keys ht release_dependsOnKeys
  have hbuild : release.declared[0]? = some ⟨"build", {}, 2⟩ := by rw [release_declared]; rfl
  have hpackage : release.declared[4]? = some ⟨"package",
      { bash := some "make dist", dependencies := ["build", "lint", "link"] }, 0⟩ := by
    rw [release_declared]
    rfl
  have htrim : Text.trim "build" = "build" := by decide
  obtain ⟨hdepends, hexit⟩ := hedges g hg 4 0 _ _ hpackage hbuild List.mem_cons_self
  exact ⟨g, hg, release_dependsOnKeys, (hid 0 _ hbuild).trans (if_pos htrim), hdepends, hexit⟩

/-- The tests depend on the build by its key, which has blanks around it. -/
def padded : Flow where
  steps :=
    [(" build ", { spec := { bash := some "make" } }),
      ("test", { spec := { bash := some "make test", dependencies := [" build "] } })]

theorem padded_key_unresolved : padded.check = .ok () ∧ (∃ t, Tree.build padded = .ok t) ∧
    padded.DependsOnKeys ∧
    padded.compile = .error (.graph (.unresolved "test" " build ")) := by
  have hdeclared : padded.declared = [⟨" build ", { bash := some "make" }, 0⟩,
      ⟨"test", { bash := some "make test", dependencies := [" build "] }, 0⟩] := by
    simp [padded, Flow.declared, Step.declared]
  obtain ⟨t, ht, -⟩ : ∃ t, Tree.build padded = .ok t ∧ t.size = 3 := exists_of_any_toOption (by cbv)
  have hkeys : padded.DependsOnKeys := by
    rw [Flow.DependsOnKeys, hdeclared]
    simp
  exact ⟨by decide, ⟨t, ht⟩, hkeys, by cbv⟩

end Graph

end StepFlow

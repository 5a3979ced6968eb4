import Mathlib
import StepFlow.Proofs.Outcome
import StepFlow.Proofs.Tree.Chains

/-!
What a step inherits comes from its chain alone. Of a node only what it says about itself is read, not
whom it is declared in or waits for (`ofChain_unplaced`), and the chain of a step is given by the flow,
the names that lead to the step and what the steps on the way say (`Tree.build_chain`). So two flows
that agree on these resolve the step to the same, whatever else they hold and in whatever order.
-/

namespace StepFlow

/-- What a step says about itself, apart from the steps that it waits for. -/
def StepSpec.independent (s : StepSpec) : StepSpec := { s with dependencies := [] }

/-- Two flows are the same apart from their steps and their versions. -/
structure Flow.SameTop (f f' : Flow) : Prop where
  name : f.name = f'.name
  vars : f.vars = f'.vars
  condition : f.condition = f'.condition
  docker : f.docker = f'.docker
  agents : f.agents = f'.agents

namespace EffectiveStep

/-- Where a node stands and whom it waits for is not inherited. -/
lemma ofChain_unplaced (defaults : StepDefaults) (own : TreeNode) (chain : List TreeNode) :
    ofChain defaults own chain =
      ofChain defaults own.unplaced (chain.map TreeNode.unplaced) := by
  simp only [ofChain, Inherit.texts, Inherit.union, Inherit.closest, Inherit.byKey,
    List.filterMap_map, List.flatMap_map, List.findSome?_map, List.foldl_map]
  rfl

end EffectiveStep

lemma TreeNode.passed_independent (above names : List String) (specs : List StepSpec) :
    passed above names (specs.map StepSpec.independent) = passed above names specs := by
  induction specs generalizing above names with
  | nil => cases names <;> rfl
  | cons spec specs ih =>
    cases names with
    | nil => rfl
    | cons name names =>
      rw [List.map_cons, passed, passed, ih]
      rfl

namespace Tree

section Chain

variable {f f' : Flow} {t t' : Tree} {i i' : Nat} {n n' : TreeNode}

/-- Two nodes whose chains differ in places only resolve to the same. -/
lemma resolve?_congr (hn : t.node? i = some n) (hn' : t'.node? i' = some n')
    (hchain : (t.chain i).map TreeNode.unplaced = (t'.chain i').map TreeNode.unplaced)
    (defaults : StepDefaults) : t.resolve? i defaults = t'.resolve? i' defaults := by
  obtain ⟨rest, hrest⟩ := exists_chain_eq_cons hn
  obtain ⟨rest', hrest'⟩ := exists_chain_eq_cons hn'
  have hown : n.unplaced = n'.unplaced := by
    rw [hrest, hrest'] at hchain
    exact (List.cons.inj hchain).1
  rw [resolve?_eq hn, resolve?_eq hn', EffectiveStep.ofChain_unplaced _ n,
    EffectiveStep.ofChain_unplaced _ n', hown, hchain]

/-- **A step inherits from its chain alone.** Two flows that have the same name, variables, condition,
container and agents, and in which the same names lead to a step past steps that are the same apart
from what is inside them and what they wait for, resolve that step to the same. -/
theorem resolve_of_leads (h : build f = .ok t) (h' : build f' = .ok t') (htop : f.SameTop f')
    {above : List String} {name : String} {specs specs' : List StepSpec}
    (hleads : Step.Leads f.steps (above ++ [name]) specs)
    (hleads' : Step.Leads f'.steps (above ++ [name]) specs')
    (hspecs : specs.map StepSpec.independent = specs'.map StepSpec.independent) :
    ∃ root i i', Path.root f.effectiveName = .ok root ∧ t.idOf? name = some i ∧
      t'.idOf? name = some i' ∧ ∀ defaults, ∃ e, t.resolve? i defaults = some e ∧
        t'.resolve? i' defaults = some e ∧ e.name = name ∧
        e.path = Path.joined (root.segments ++ (above ++ [name])) := by
  obtain ⟨root, i, n, hroot, hi, hn, hname, hpath, hchain⟩ := build_idOf?_of_leads h hleads
  obtain ⟨root', i', n', hroot', hi', hn', -, -, hchain'⟩ := build_idOf?_of_leads h' hleads'
  have hsame : root' = root := by
    rw [Flow.effectiveName, ← htop.name, ← Flow.effectiveName, hroot] at hroot'
    exact (Except.ok.inj hroot').symm
  have hflow : TreeNode.ofFlow f' root = TreeNode.ofFlow f root := by
    simp only [TreeNode.ofFlow, htop.vars, htop.condition, htop.docker, htop.agents]
  have hchains : (t.chain i).map TreeNode.unplaced = (t'.chain i').map TreeNode.unplaced := by
    rw [hchain, hchain', hsame, hflow, ← TreeNode.passed_independent, hspecs,
      TreeNode.passed_independent]
  refine ⟨root, i, i', hroot, hi, hi', fun defaults => ?_⟩
  refine ⟨_, resolve?_eq hn defaults, ?_, hname, ?_⟩
  · rw [← resolve?_congr hn hn' hchains, resolve?_eq hn]
  · rw [EffectiveStep.ofChain, hpath]
    rfl

end Chain

/-- A stage with a secret, a step inside it, and a step beside it with another secret. -/
def packing : Flow where
  name := some "ci"
  vars := [("LANG", "rust")]
  steps := [
    ("build", {
      spec := { secrets := ["TOKEN"], timeout := some 600 }
      steps := [("compile", { spec := { bash := some "make", secrets := ["KEY"] } })] }),
    ("deploy", { spec := { bash := some "make ship", secrets := ["PASSWORD"] } })]

/-- The same stage and step, with other steps before and beside them, in another order. -/
def packingLate : Flow where
  version := some 2
  name := some "ci"
  vars := [("LANG", "rust")]
  steps := [
    ("lint", { spec := { bash := some "make lint", exports := ["REPORT"], vars := [("LANG", "c")] } }),
    ("build", {
      spec := { secrets := ["TOKEN"], timeout := some 600, dependencies := ["lint"] }
      steps := [
        ("fetch", { spec := { bash := some "git clone", secrets := ["LOGIN"], timeout := some 5 } }),
        (" compile ", { spec := { bash := some "make", secrets := ["KEY"] } })] })]

/-- The step is another node of the other tree, and yet resolves to the same. -/
theorem resolve_of_leads_packing : ∃ t t', build packing = .ok t ∧ build packingLate = .ok t' ∧
    packing.SameTop packingLate ∧
    (∃ specs specs', Step.Leads packing.steps ["build", "compile"] specs ∧
      Step.Leads packingLate.steps ["build", "compile"] specs' ∧
      specs.map StepSpec.independent = specs'.map StepSpec.independent) ∧
    t.idOf? "compile" = some 2 ∧ t'.idOf? "compile" = some 4 ∧
    ∀ defaults, ∃ e, t.resolve? 2 defaults = some e ∧ t'.resolve? 4 defaults = some e ∧
      e.name = "compile" ∧ e.path = "ci/build/compile" := by
  obtain ⟨t, ht, hid⟩ : ∃ t, build packing = .ok t ∧ t.idOf? "compile" = some 2 :=
    exists_of_any_toOption (by cbv)
  obtain ⟨t', ht', hid'⟩ : ∃ t', build packingLate = .ok t' ∧ t'.idOf? "compile" = some 4 :=
    exists_of_any_toOption (by cbv)
  have hbuild : Text.trim "build" = "build" := by decide +kernel
  have hcompile : Text.trim "compile" = "compile" := by decide +kernel
  have hcompile' : Text.trim " compile " = "compile" := by decide +kernel
  have htop : packing.SameTop packingLate := ⟨rfl, rfl, rfl, rfl, rfl⟩
  have hleads : Step.Leads packing.steps (["build"] ++ ["compile"])
      [{ secrets := ["TOKEN"], timeout := some 600 },
        { bash := some "make", secrets := ["KEY"] }] := by
    rw [← hbuild, ← hcompile]
    exact .cons (List.mem_cons_self ..) (.cons (List.mem_cons_self ..) (.nil _))
  have hleads' : Step.Leads packingLate.steps (["build"] ++ ["compile"])
      [{ secrets := ["TOKEN"], timeout := some 600, dependencies := ["lint"] },
        { bash := some "make", secrets := ["KEY"] }] := by
    rw [← hbuild, ← hcompile']
    exact .cons (List.mem_cons_of_mem _ (List.mem_cons_self ..))
      (.cons (List.mem_cons_of_mem _ (List.mem_cons_self ..)) (.nil _))
  obtain ⟨root, i, i', hroot, hi, hi', hresolve⟩ :=
    resolve_of_leads ht ht' htop hleads hleads' rfl
  cases hid.symm.trans hi
  cases hid'.symm.trans hi'
  refine ⟨t, t', ht, ht', htop, ⟨_, _, hleads, hleads', rfl⟩, hid, hid', ?_⟩
  obtain ⟨root', hroot', hsegments⟩ : ∃ p, Path.root packing.effectiveName = .ok p ∧
      p.segments = ["ci"] := exists_of_any_toOption (by cbv)
  cases hroot.symm.trans hroot'
  intro defaults
  obtain ⟨e, he, he', hname, hpath⟩ := hresolve defaults
  rw [hsegments] at hpath
  exact ⟨e, he, he', hname, hpath.trans (by decide +kernel)⟩

end Tree

end StepFlow

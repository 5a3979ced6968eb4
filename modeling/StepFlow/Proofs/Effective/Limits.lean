import StepFlow.Proofs.Graph.Edges
import StepFlow.Proofs.Merge.Sound
import StepFlow.Proofs.Tree.Chains
import StepFlow.Settings

/-!
What the check asks for holds of what is resolved. A time limit, a cache or an artifact that a step
inherits is one of some node of its chain, and of the rules of one name it inherits only one. So from
texts that make a flow, and settings that are accepted, no step is resolved to a time limit of zero or
to rules that would not pass the check.
-/

namespace StepFlow

/-! ### The four ways -/

namespace Inherit

variable {α : Type} {key : α → String} {items : TreeNode → List α} {chain : List TreeNode}

lemma addByKey_eq_union (acc l : List α) : addByKey key acc l = Merge.union key acc l := by
  induction l generalizing acc with
  | nil => rfl
  | cons x r ih =>
    have hmem : (acc.any fun y => key y = key x) = true ↔ key x ∈ acc.map key := by
      simp only [List.any_eq_true, decide_eq_true_eq, List.mem_map]
    rw [addByKey, Merge.union, ih, ih]
    simp only [hmem]

/-- What a chain passes on by key, gathered from the nodes that come after those gathered in `acc`. -/
lemma foldl_addByKey (chain : List TreeNode) (acc : List α) :
    chain.foldl (fun acc n => addByKey key acc (items n)) acc =
      Merge.union key acc (chain.flatMap items) := by
  induction chain generalizing acc with
  | nil => rfl
  | cons n chain ih =>
    rw [List.foldl_cons, ih, addByKey_eq_union, List.flatMap_cons, Merge.union_append]

lemma byKey_eq_union (chain : List TreeNode) :
    byKey key items chain = Merge.union key [] (chain.flatMap items) :=
  foldl_addByKey chain []

/-- For every key there is one item. -/
lemma nodup_byKey : ((byKey key items chain).map key).Nodup := by
  rw [byKey_eq_union]
  apply Merge.nodup_union
  exact List.nodup_nil

/-- Every item is one of a node of the chain. -/
lemma exists_of_mem_byKey {x : α} (h : x ∈ byKey key items chain) : ∃ n ∈ chain, x ∈ items n := by
  rw [byKey_eq_union] at h
  rcases Merge.mem_or_mem_of_mem_union key h with hx | hx
  · cases hx
  · exact List.mem_flatMap.mp hx

end Inherit

/-! ### Sound nodes -/

/-- A node whose time limit and rules would pass the check. -/
structure TreeNode.Sound (n : TreeNode) : Prop where
  timeout : n.timeout ≠ some 0
  caches : FileRule.AllSound n.caches
  artifacts : FileRule.AllSound n.artifacts

lemma FileRule.allSound_nil : FileRule.AllSound [] := ⟨by simp, List.nodup_nil⟩

/-- Rules that a chain of sound nodes passes on are sound, and each has a name of its own. -/
lemma FileRule.allSound_byKey {rules : TreeNode → List FileRule} {chain : List TreeNode}
    (h : ∀ n ∈ chain, FileRule.AllSound (rules n)) :
    FileRule.AllSound (Inherit.byKey (·.name) rules chain) := by
  refine ⟨?_, Inherit.nodup_byKey⟩
  intro r hr
  obtain ⟨n, hn, hrn⟩ := Inherit.exists_of_mem_byKey hr
  exact (h n hn).sound r hrn

namespace EffectiveStep

variable {chain : List TreeNode} (defaults : StepDefaults) (own : TreeNode)

lemma ofChain_timeout (hdefaults : defaults.timeout ≠ 0) (hchain : ∀ n ∈ chain, n.Sound) :
    (ofChain defaults own chain).timeout ≠ 0 := by
  rw [ofChain]
  cases hclosest : Inherit.closest (·.timeout) chain with
  | none => exact hdefaults
  | some v =>
    obtain ⟨n, hn, hv⟩ := List.exists_of_findSome?_eq_some hclosest
    rintro rfl
    exact (hchain n hn).timeout hv

lemma ofChain_caches (hchain : ∀ n ∈ chain, n.Sound) :
    FileRule.AllSound (ofChain defaults own chain).caches :=
  FileRule.allSound_byKey fun n hn => (hchain n hn).caches

lemma ofChain_artifacts (hchain : ∀ n ∈ chain, n.Sound) :
    FileRule.AllSound (ofChain defaults own chain).artifacts :=
  FileRule.allSound_byKey fun n hn => (hchain n hn).artifacts

end EffectiveStep

/-! ### From texts to what is resolved -/

/-- The nodes of a sound flow are sound. -/
lemma Tree.build_sound {f : Flow} {t : Tree} (hf : f.Sound) (h : Tree.build f = .ok t) :
    ∀ n ∈ t.nodes, n.Sound := by
  intro n hn
  obtain ⟨i, hi⟩ := List.mem_iff_getElem?.mp hn
  obtain ⟨path, rfl⟩ | ⟨d, hd, path, parent, rfl, -⟩ := Tree.build_node_cases h hi
  · exact ⟨by simp [TreeNode.ofFlow], FileRule.allSound_nil, FileRule.allSound_nil⟩
  · have hspec := Step.allOf_iff_declared.mp hf.steps.allOf d hd
    exact ⟨hspec.timeout, hspec.caches, hspec.artifacts⟩

/-- Settings without a limit of zero leave a step some time. -/
lemma Settings.check_defaultTimeout {s : Settings} (h : s.check = .ok ()) :
    s.defaultTimeout ≠ 0 := by
  intro hzero
  rw [Settings.check] at h
  split at h
  · cases h
  · -- the second test is the one that the zero meets
    cases h

lemma Settings.parse_check {text : String} {s : Settings} (h : Settings.parse text = .ok s) :
    s.check = .ok () := by
  rw [Settings.parse] at h
  split at h
  · cases h
    decide
  · split at h
    · cases h
    · split at h
      · cases h
      · next hcheck =>
        cases h
        exact hcheck

namespace Flow

/-- **Nothing that is resolved would fail the check.** A flow that texts make together passes the check
that was made on each of them. If it has a graph, then with settings that are accepted every node
resolves to a time limit of at least a second, and to caches and artifacts that each pass the check of
rules and have names of their own. -/
theorem load_keeps_checked {texts : List String} {f : Flow} (h : load texts = .ok f) :
    f.check = .ok () ∧
    ∀ g, f.compile = .ok g → ∀ text s, Settings.parse text = .ok s → ∀ i < g.size,
      ∃ e, g.tree.resolve? i s.stepDefaults = some e ∧ 1 ≤ e.timeout.toNat ∧
        (e.caches.map (·.name)).Nodup ∧ (e.artifacts.map (·.name)).Nodup ∧
        (∀ r ∈ e.caches, r.check e.name .cache = .ok ()) ∧
        ∀ r ∈ e.artifacts, r.check e.name .artifact = .ok () := by
  have hsound := load_sound h
  refine ⟨check_eq_ok_iff.mpr hsound, ?_⟩
  intro g hg text s hs i hi
  obtain ⟨ht, hw, -⟩ := Graph.compile_eq_ok hg
  obtain ⟨n, hn⟩ : ∃ n, g.tree.node? i = some n :=
    ⟨_, List.getElem?_eq_getElem (show i < g.tree.size from hw.size ▸ hi)⟩
  have hchain : ∀ m ∈ g.tree.chain i, m.Sound := fun m hm =>
    Tree.build_sound hsound ht m (Tree.mem_nodes_of_mem_chain hm)
  have hdefaults : s.stepDefaults.timeout ≠ 0 :=
    Settings.check_defaultTimeout (Settings.parse_check hs)
  have htimeout := EffectiveStep.ofChain_timeout _ n hdefaults hchain
  have hcaches := EffectiveStep.ofChain_caches s.stepDefaults n hchain
  have hartifacts := EffectiveStep.ofChain_artifacts s.stepDefaults n hchain
  refine ⟨_, Tree.resolve?_eq hn _, ?_, hcaches.names, hartifacts.names, ?_, ?_⟩
  · rw [Nat.one_le_iff_ne_zero]
    exact fun hzero => htimeout (UInt64.toNat_inj.mp hzero)
  · exact fun r hr => FileRule.check_eq_ok_iff.mpr (hcaches.sound r hr)
  · exact fun r hr => FileRule.check_eq_ok_iff.mpr (hartifacts.sound r hr)

/-- A stage with a time limit and a cache, and what is laid over it: the step inside it gets a cache of
the same name. -/
def cachedTexts : List String :=
  ["steps:\n  build:\n    timeout: 600\n    caches: [{name: deps, paths: [vendor, target]}]\n" ++
      "    steps:\n      compile: {bash: make, caches: [{name: objects, paths: [out]}]}\n",
    "steps: {build: {steps: {compile: {caches: [{name: deps, paths: [third-party]}]}}}}\n"]

/-- The flow that the two texts make together. -/
def cached : Flow where
  steps := [("build", {
    spec := { timeout := some 600, caches := [⟨"deps", ["vendor", "target"]⟩] }
    steps := [("compile", {
      spec := { bash := some "make",
                caches := [⟨"objects", ["out"]⟩, ⟨"deps", ["third-party"]⟩] } })] })]

/-- The step inside the stage: of the two caches called `deps` on its chain one is left. -/
theorem load_keeps_checked_cached : ∃ g s e, load cachedTexts = .ok cached ∧
    cached.compile = .ok g ∧ Settings.parse "max_parallel: 2\n" = .ok s ∧ cached.check = .ok () ∧
    g.tree.resolve? 2 s.stepDefaults = some e ∧ 1 ≤ e.timeout.toNat ∧
    (e.caches.map (·.name)).Nodup ∧ ∀ r ∈ e.caches, r.check e.name .cache = .ok () := by
  have hload : load cachedTexts = .ok cached := toOption_eq_some_iff.mp (by decide +kernel)
  obtain ⟨g, hg, hsize⟩ : ∃ g, cached.compile = .ok g ∧ 2 < g.size := Graph.exists_compiled (by cbv)
  obtain ⟨s, hs, -⟩ : ∃ s, Settings.parse "max_parallel: 2\n" = .ok s ∧ s.maxParallel = 2 :=
    exists_of_any_toOption (by decide +kernel)
  obtain ⟨hcheck, hresolve⟩ := load_keeps_checked hload
  obtain ⟨e, he, htimeout, hnames, -, hcaches, -⟩ := hresolve g hg _ s hs 2 hsize
  exact ⟨g, s, e, hload, hg, hs, hcheck, he, htimeout, hnames, hcaches⟩

end Flow

end StepFlow

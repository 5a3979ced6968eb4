import StepFlow.Proofs.Effective.Limits
import StepFlow.Proofs.Sorted
import StepFlow.Proofs.Tree.Layout

/-!
What a step inherits, from the outside in. The chain of a node is the node and the chain of the node it
is declared in, and each of the four ways takes what the rest of the chain gives and adds what the node
says itself. So a node resolves to what its parent resolves to, extended by its own fields
(`Tree.resolve_extends`); the defaults enter at the root.
-/

namespace StepFlow

/-- Items that have keys of their own are put behind the others, but for those whose keys are there. -/
lemma Merge.union_eq_append {κ β : Type} [DecidableEq κ] (key : β → κ) {base o : List β}
    (h : (o.map key).Nodup) :
    union key base o = base ++ o.filter fun x => key x ∉ base.map key := by
  induction o generalizing base with
  | nil => simp [union]
  | cons x o ih =>
    rw [List.map_cons, List.nodup_cons] at h
    rw [union]
    split
    case isTrue hx =>
      rw [ih h.2, List.filter_cons_of_neg (by simpa using hx)]
    case isFalse hx =>
      -- none of the items behind `x` has its key
      have hfilter : (o.filter fun y => key y ∉ (base ++ [x]).map key) =
          o.filter fun y => key y ∉ base.map key := by
        apply List.filter_congr
        intro y hy
        have hne : key y ≠ key x := fun heq => h.1 (heq ▸ List.mem_map_of_mem hy)
        simp [hne]
      rw [ih h.2, hfilter, List.filter_cons_of_pos (by simpa using hx), List.append_assoc,
        List.singleton_append]

namespace Inherit

/-! ### One more node -/

/-- The text of a node, if it is there and not blank. -/
def ownText (own : Option String) : List String :=
  (own.filter fun s => !Text.isBlankText s).toList

/-- The elements of both sets and no others, in increasing order. -/
structure United (above own all : List String) : Prop where
  mem_iff : ∀ x, x ∈ all ↔ x ∈ above ∨ x ∈ own
  increasing : all.Pairwise (· < ·)

/-- The own items in their order, and behind them those from above whose keys are not among theirs. No
key stands there twice. -/
structure Shadowed {α : Type} (key : α → String) (above own all : List α) : Prop where
  items : all = own ++ above.filter fun x => key x ∉ own.map key
  keys : (all.map key).Nodup

section OneMore

variable {α : Type} (n : TreeNode) (chain : List TreeNode)

lemma texts_cons (f : TreeNode → Option String) :
    texts f (n :: chain) = texts f chain ++ ownText (f n) := by
  rw [texts, texts, List.filterMap_cons, ownText]
  cases f n with
  | none => simp
  | some s => cases hs : Text.isBlankText s <;> simp [hs, Option.filter]

lemma united_union (f : TreeNode → List String) :
    United (union f chain) (f n) (union f (n :: chain)) where
  mem_iff x := by
    rw [union, union, Sorted.mem_ofList, Sorted.mem_ofList, List.flatMap_cons, List.mem_append,
      or_comm]
  increasing := Sorted.ofList_pairwise _

lemma closest_cons (f : TreeNode → Option α) :
    closest f (n :: chain) = (f n).or (closest f chain) := by
  rw [closest, closest, List.findSome?_cons]
  cases f n <;> rfl

lemma closest_getD_cons (f : TreeNode → Option α) (v : α) :
    (closest f (n :: chain)).getD v = (f n).getD ((closest f chain).getD v) := by
  rw [closest_cons]
  cases f n <;> rfl

lemma shadowed_byKey {key : α → String} {items : TreeNode → List α}
    (h : ((items n).map key).Nodup) :
    Shadowed key (byKey key items chain) (items n) (byKey key items (n :: chain)) where
  items := by
    have hown : Merge.union key [] (items n) = items n := by
      rw [Merge.union_eq_append key h]
      simp
    rw [← Merge.union_eq_append key nodup_byKey, byKey_eq_union, byKey_eq_union, List.flatMap_cons,
      Merge.union_append, ← Merge.union_assoc, hown, Merge.union]
  keys := nodup_byKey

end OneMore

end Inherit

open Inherit (ownText United Shadowed)

/-- `e.Extends above n`: the properties `e` are the properties `above` of the node around `n`, extended
by what `n` says itself. -/
structure EffectiveStep.Extends (e above : EffectiveStep) (n : TreeNode) : Prop where
  name : e.name = n.name
  path : e.path = above.path ++ "/" ++ n.name
  bash : e.bash = above.bash ++ ownText n.bash
  pwsh : e.pwsh = above.pwsh ++ ownText n.pwsh
  conditions : e.conditions = above.conditions ++ ownText n.condition
  exports : United above.exports n.exports e.exports
  secrets : United above.secrets n.secrets e.secrets
  configs : United above.configs n.configs e.configs
  timeout : e.timeout = n.timeout.getD above.timeout
  retry : e.retry = n.retry.getD above.retry
  caches : Shadowed (·.name) above.caches n.caches e.caches
  artifacts : Shadowed (·.name) above.artifacts n.artifacts e.artifacts
  vars : Shadowed (·.1) above.vars n.vars e.vars
  agents : e.agents = if n.agents = [] then above.agents else n.agents
  docker : e.docker = n.docker.or above.docker
  plugin : e.plugin = n.plugin
  allowFailure : e.allowFailure = n.allowFailure
  post : e.post = n.post

/-- A node in which no key of a table or name of a rule stands twice. -/
structure TreeNode.Keyed (n : TreeNode) : Prop where
  vars : (n.vars.map (·.1)).Nodup
  caches : (n.caches.map (·.name)).Nodup
  artifacts : (n.artifacts.map (·.name)).Nodup

namespace EffectiveStep

/-- A chain with one more node resolves to what it did without, extended by the node. -/
lemma ofChain_extends {n own : TreeNode} {chain : List TreeNode} (defaults : StepDefaults)
    (hn : n.Keyed) (hpath : n.path.text = own.path.text ++ "/" ++ n.name) :
    (ofChain defaults n (n :: chain)).Extends (ofChain defaults own chain) n where
  name := rfl
  path := hpath
  bash := Inherit.texts_cons n chain _
  pwsh := Inherit.texts_cons n chain _
  conditions := Inherit.texts_cons n chain _
  exports := Inherit.united_union n chain _
  secrets := Inherit.united_union n chain _
  configs := Inherit.united_union n chain _
  timeout := Inherit.closest_getD_cons n chain _ _
  retry := Inherit.closest_getD_cons n chain _ _
  caches := Inherit.shadowed_byKey n chain hn.caches
  artifacts := Inherit.shadowed_byKey n chain hn.artifacts
  vars := Inherit.shadowed_byKey n chain hn.vars
  agents := by
    refine (Inherit.closest_getD_cons n chain _ _).trans ?_
    rw [TreeNode.ownAgents?]
    by_cases hempty : n.agents = [] <;> simp [hempty, ofChain]
  docker := Inherit.closest_cons n chain _
  plugin := rfl
  allowFailure := rfl
  post := rfl

end EffectiveStep

/-! ### The nodes of a tree -/

namespace Tree

variable {f : Flow} {t : Tree} {i : Nat} {n : TreeNode}

lemma build_keyed (hf : f.Checked) (h : build f = .ok t) (hn : t.node? i = some n) : n.Keyed := by
  obtain ⟨path, rfl⟩ | ⟨d, hd, path, parent, rfl, -⟩ := build_node_cases h hn
  · exact ⟨hf.keyed.vars, List.nodup_nil, List.nodup_nil⟩
  · have hkeyed := Step.allOf_iff_declared.mp hf.keyed.steps d hd
    have hrules := Step.allOf_iff_declared.mp (Flow.check_rulesNamed hf.check) d hd
    exact ⟨hkeyed.vars, hrules.caches, hrules.artifacts⟩

/-- The text of a path goes on behind a slash. -/
lemma build_path_text (h : build f = .ok t) (hn : t.node? i = some n) {q : Nat}
    (hq : n.parent = some q) :
    ∃ m, t.node? q = some m ∧ n.path.text = m.path.text ++ "/" ++ n.name := by
  obtain ⟨m, hm, hsegments⟩ := build_segments h hn hq
  refine ⟨m, hm, ?_⟩
  rw [Path.text, Path.text, hsegments]
  exact Text.join_concat "/" (build_formed h hm).some_segment n.name

/-- **A node resolves to what its parent resolves to**, extended by its own fields. The defaults are
only what the root has for a time limit and for tries. -/
theorem resolve_extends (hf : f.Checked) (h : build f = .ok t) :
    (∃ root : EffectiveStep, ∀ defaults : StepDefaults, t.resolve? 0 defaults =
      some { root with timeout := defaults.timeout, retry := defaults.retry }) ∧
    ∀ i n q, t.node? i = some n → n.parent = some q → ∀ defaults, ∃ above e,
      t.resolve? q defaults = some above ∧ t.resolve? i defaults = some e ∧ e.Extends above n := by
  constructor
  · obtain ⟨path, -, hroot⟩ := build_root h
    refine ⟨.ofChain {} (.ofFlow f path) [.ofFlow f path], fun defaults => ?_⟩
    rw [resolve?_eq hroot, chain_of_root hroot rfl]
    rfl
  · intro i n q hn hq defaults
    obtain ⟨m, hm, htext⟩ := build_path_text h hn hq
    have hparent : t.parent? i = some q := by rw [parent?, hn, Option.bind_some, hq]
    refine ⟨_, _, resolve?_eq hm defaults, resolve?_eq hn defaults, ?_⟩
    rw [chain_of_parent hn hq (build_parent_lt h hparent).1]
    exact EffectiveStep.ofChain_extends defaults (build_keyed hf h hn) htext

/-- A step inside two others. The one around it has a blank script and sets a variable of the flow
otherwise; the step itself has a cache of the same name as the outer one. -/
def layered : Flow where
  vars := [("STAGE", "flow"), ("LANG", "rust")]
  agents := ["linux"]
  steps := [("top", {
    spec := { bash := some "make", timeout := some 10, exports := ["REPORT"],
              caches := [⟨"report", ["out/a"]⟩, ⟨"jar", ["java"]⟩] }
    steps := [("middle", {
      spec := { bash := some " ", vars := [("STAGE", "middle")], agents := ["large"] }
      steps := [("leaf", {
        spec := { bash := some "make leaf", exports := ["COVERAGE"],
                  caches := [⟨"report", ["out/b"]⟩] } })] })] })]

/-- The innermost step: its properties are those of the step around it, extended. -/
theorem resolve_extends_layered : layered.Checked ∧ ∃ t n above e, build layered = .ok t ∧
    t.node? 3 = some n ∧ n.parent = some 2 ∧ t.resolve? 2 {} = some above ∧
    t.resolve? 3 {} = some e ∧ e.Extends above n ∧
    above.bash = ["make"] ∧ e.bash = ["make", "make leaf"] ∧ e.exports = ["COVERAGE", "REPORT"] ∧
    e.vars = [("STAGE", "middle"), ("LANG", "rust")] ∧
    e.caches = [⟨"report", ["out/b"]⟩, ⟨"jar", ["java"]⟩] := by
  have hchecked : layered.Checked :=
    { distinct := by simp [Flow.Distinct, layered, Step.AllDistinct, Step.Distinct]
      keyed := ⟨by simp [layered], by simp [layered], by
        simp [layered, Step.AllOf, Step.All, StepSpec.keyed_iff]⟩
      check := by decide }
  obtain ⟨t, ht, hnode, habove, hbash, hexports, hvars, hcaches⟩ : ∃ t, build layered = .ok t ∧
      (t.node? 3).map (·.parent) = some (some 2) ∧
      (t.resolve? 2 {}).map (·.bash) = some ["make"] ∧
      (t.resolve? 3 {}).map (·.bash) = some ["make", "make leaf"] ∧
      (t.resolve? 3 {}).map (·.exports) = some ["COVERAGE", "REPORT"] ∧
      (t.resolve? 3 {}).map (·.vars) = some [("STAGE", "middle"), ("LANG", "rust")] ∧
      (t.resolve? 3 {}).map (·.caches) = some [⟨"report", ["out/b"]⟩, ⟨"jar", ["java"]⟩] :=
    exists_of_any_toOption (by cbv)
  obtain ⟨n, hn, hq⟩ := Option.map_eq_some_iff.1 hnode
  obtain ⟨above, e, habove', he, hextends⟩ := (resolve_extends hchecked ht).2 3 n 2 hn hq {}
  rw [habove', Option.map_some, Option.some.injEq] at habove
  simp only [he, Option.map_some, Option.some.injEq] at hbash hexports hvars hcaches
  exact ⟨hchecked, t, n, above, e, ht, hn, hq, habove', he, hextends, habove, hbash, hexports, hvars,
    hcaches⟩

end Tree

end StepFlow

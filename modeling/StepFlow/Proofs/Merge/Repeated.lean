import Mathlib
import StepFlow.Graph
import StepFlow.Proofs.Flow.Keyed
import StepFlow.Proofs.Merge.Documents

/-!
A document that is laid over twice. What a merge has entered does not clash with what it was entered
from, and is not entered again, so the second merge succeeds and changes no field (`spec_again`). Only
a step that the first merge took as it was, with its script under the older spelling, is merged for the
first time by the second one: then its script stands under `bash` alone (`StepSpec.Respelled`). The
tree does not tell the two spellings apart.
-/

namespace StepFlow

/-! ### Steps that differ in what they say -/

mutual

/-- What the two steps say about themselves is related by `R`, and they have the same names inside, in
one order, with steps that are again alike. -/
def Step.Alike (R : StepSpec → StepSpec → Prop) : Step → Step → Prop
  | ⟨spec, inner⟩, ⟨spec', inner'⟩ => R spec spec' ∧ Step.AllAlike R inner inner'

/-- The lists have the same names in one order, and steps that are alike under each. -/
def Step.AllAlike (R : StepSpec → StepSpec → Prop) :
    List (String × Step) → List (String × Step) → Prop
  | [], [] => True
  | (name, s) :: rest, (name', s') :: rest' =>
    name = name' ∧ s.Alike R s' ∧ Step.AllAlike R rest rest'
  | _, _ => False

end

/-- Two flows are the same but for what their steps, which are alike, say about themselves. -/
def Flow.Alike (R : StepSpec → StepSpec → Prop) (f f' : Flow) : Prop :=
  f' = { f with steps := f'.steps } ∧ Step.AllAlike R f.steps f'.steps

/-- The step with its script under `bash` alone. Of two scripts it is that of `bash`. -/
def StepSpec.respelled (s : StepSpec) : StepSpec := { s with bash := s.effectiveBash, script := none }

/-- The same, or with the script under `bash` alone. -/
def StepSpec.Respelled (s s' : StepSpec) : Prop := s' = s ∨ s' = s.respelled

section Alike

variable {R : StepSpec → StepSpec → Prop}

lemma Step.alike_iff {s s' : Step} :
    s.Alike R s' ↔ R s.spec s'.spec ∧ Step.AllAlike R s.steps s'.steps := by
  obtain ⟨spec, inner⟩ := s
  obtain ⟨spec', inner'⟩ := s'
  rw [Step.Alike]

lemma Step.allAlike_nil_iff {l : List (String × Step)} : Step.AllAlike R [] l ↔ l = [] := by
  cases l <;> simp [Step.AllAlike]

lemma Step.allAlike_cons_iff {name : String} {s : Step} {rest l : List (String × Step)} :
    Step.AllAlike R ((name, s) :: rest) l ↔
      ∃ s' rest', l = (name, s') :: rest' ∧ s.Alike R s' ∧ Step.AllAlike R rest rest' := by
  cases l with
  | nil => simp [Step.AllAlike]
  | cons p l =>
    rw [Step.AllAlike]
    constructor
    · rintro ⟨rfl, hs, hrest⟩
      exact ⟨p.2, l, rfl, hs, hrest⟩
    · rintro ⟨_, _, h, hs, hrest⟩
      cases h
      exact ⟨rfl, hs, hrest⟩

mutual

theorem Step.alike_refl (hR : ∀ s, R s s) : (s : Step) → s.Alike R s
  | ⟨spec, inner⟩ => by
    rw [Step.Alike]
    exact ⟨hR spec, Step.allAlike_refl hR inner⟩

theorem Step.allAlike_refl (hR : ∀ s, R s s) : (l : List (String × Step)) → Step.AllAlike R l l
  | [] => Step.allAlike_nil_iff.mpr rfl
  | (_, s) :: rest => Step.allAlike_cons_iff.mpr
    ⟨s, rest, rfl, Step.alike_refl hR s, Step.allAlike_refl hR rest⟩

end

/-- Two tables with the same names are alike when they are so under each name. -/
lemma Step.allAlike_of_get? {t t' : Table Step} (hnodup : (Table.names t).Nodup)
    (hnames : Table.names t' = Table.names t)
    (hget : ∀ n s, t.get? n = some s → ∃ s', t'.get? n = some s' ∧ s.Alike R s') :
    Step.AllAlike R t t' := by
  induction t generalizing t' with
  | nil =>
    exact Step.allAlike_nil_iff.mpr (List.map_eq_nil_iff.mp hnames)
  | cons p t ih =>
    obtain ⟨name, s⟩ := p
    cases t' with
    | nil => cases hnames
    | cons p' t' =>
      obtain ⟨name', s'⟩ := p'
      simp only [Table.names_cons, List.cons.injEq] at hnames
      obtain ⟨rfl, hnames⟩ := hnames
      rw [Table.names_cons, List.nodup_cons] at hnodup
      refine Step.allAlike_cons_iff.mpr ⟨s', t', rfl, ?_, ih hnodup.2 hnames ?_⟩
      · obtain ⟨s'', hs'', halike⟩ := hget name' s (by rw [Table.get?_cons, if_pos rfl])
        rw [Table.get?_cons, if_pos rfl] at hs''
        cases hs''
        exact halike
      · intro n u hu
        -- the first name does not come again
        have hne : name' ≠ n := by
          rintro rfl
          rw [Table.get?_eq_none_iff.mpr hnodup.1] at hu
          cases hu
        simpa only [Table.get?_cons, if_neg hne] using
          hget n u (by rw [Table.get?_cons, if_neg hne, hu])

lemma Step.isEmpty_of_allAlike {l l' : List (String × Step)} (h : Step.AllAlike R l l') :
    l'.isEmpty = l.isEmpty := by
  cases l with
  | nil => rw [Step.allAlike_nil_iff.mp h]
  | cons p l =>
    obtain ⟨s', rest', rfl, -⟩ := Step.allAlike_cons_iff.mp h
    rfl

end Alike

namespace Merge

/-! ### Fields -/

lemma scalar_self {α : Type} (v : Option α) : scalar v v = v := by
  cases v <;> rfl

lemma scalar_again {α : Type} (b o : Option α) : scalar (scalar b o) o = scalar b o := by
  rw [scalar_assoc, scalar_self]

section Union

variable {κ β : Type} [DecidableEq κ] {key : β → κ}

/-- A list whose keys are all there adds nothing. -/
lemma union_eq_self {base o : List β} (h : ∀ x ∈ o, key x ∈ base.map key) :
    union key base o = base := by
  induction o with
  | nil => rfl
  | cons x o ih =>
    rw [List.forall_mem_cons] at h
    rw [union, if_pos h.1]
    exact ih h.2

/-- A list is united with one whose entries are all there. -/
lemma unite_eq_self_iff [DecidableEq β] {clash : β → β → Conflict} {m o : List β} :
    unite key clash m o = .ok m ↔ ∀ x ∈ o, first key (key x) m = some x := by
  rw [unite_eq_ok_iff]
  constructor
  · exact And.right
  · intro h
    refine ⟨(union_eq_self fun x hx => ?_).symm, h⟩
    by_contra hnew
    rw [← first_eq_none_iff, h x hx] at hnew
    cases hnew

lemma unite_again [DecidableEq β] {clash : β → β → Conflict} {b o m : List β}
    (h : unite key clash b o = .ok m) : unite key clash m o = .ok m :=
  unite_eq_self_iff.mpr ((unite_eq_ok_iff key clash).mp h).2

lemma unite_self [DecidableEq β] {clash : β → β → Conflict} {o : List β}
    (h : (o.map key).Nodup) : unite key clash o o = .ok o := by
  rw [unite_eq_self_iff]
  intro x hx
  obtain ⟨y, hy, hkey, hfirst⟩ := exists_first key (List.mem_map_of_mem hx)
  rw [hfirst, List.inj_on_of_nodup_map h hy hx hkey]

end Union

lemma list_self (o : List String) : list o o = o := by
  rw [list_eq_union]
  exact union_eq_self fun x hx => List.mem_map_of_mem hx

lemma list_again (b o : List String) : list (list b o) o = list b o := by
  rw [list_assoc, list_self]

section Fields

variable {address : List String}

lemma vars_again {b o m : Table String} (h : vars address b o = .ok m) :
    vars address m o = .ok m := by
  rw [vars_eq_unite] at h ⊢
  exact unite_again h

lemma vars_self {o : Table String} (h : (Table.names o).Nodup) : vars address o o = .ok o := by
  rw [vars_eq_unite]
  exact unite_self h

lemma rules_again {b o m : List FileRule} (h : rules address b o = .ok m) :
    rules address m o = .ok m := by
  rw [rules_eq_unite] at h ⊢
  exact unite_again h

lemma rules_self {o : List FileRule} (h : (o.map (·.name)).Nodup) :
    rules address o o = .ok o := by
  rw [rules_eq_unite]
  exact unite_self h

/-- A value that may be absent can be merged again when it can be where it is there, with another one
or with itself. -/
lemma optional_again {ε α : Type} {f : α → α → Except ε α} {b o m : Option α}
    (hagain : ∀ x y z, f x y = .ok z → f z y = .ok z) (hself : ∀ y ∈ o, f y y = .ok y)
    (h : optional f b o = .ok m) : optional f m o = .ok m := by
  cases o with
  | none => exact optional_none_right m
  | some y =>
    cases b with
    | none =>
      cases h
      exact optional_some_eq_ok_iff.mpr ⟨y, hself y rfl, rfl⟩
    | some x =>
      obtain ⟨z, hz, rfl⟩ := optional_some_eq_ok_iff.mp h
      exact optional_some_eq_ok_iff.mpr ⟨z, hagain x y z hz, rfl⟩

lemma container_again {b o m : Container} (h : container address b o = .ok m) :
    container address m o = .ok m := by
  obtain ⟨e, he, rfl⟩ := container_eq_ok_iff.mp h
  refine container_eq_ok_iff.mpr ⟨e, vars_again he, ?_⟩
  simp only [scalar_again]

lemma container_self {o : Container} (h : o.Keyed) : container address o o = .ok o := by
  refine container_eq_ok_iff.mpr ⟨o.environment, vars_self h, ?_⟩
  simp only [scalar_self]

lemma docker_again {b o m : Option Container} (ho : ∀ c ∈ o, c.Keyed)
    (h : docker address b o = .ok m) : docker address m o = .ok m := by
  rw [docker_eq_optional] at h ⊢
  exact optional_again (fun _ _ _ => container_again) (fun c hc => container_self (ho c hc)) h

lemma docker_self {o : Option Container} (ho : ∀ c ∈ o, c.Keyed) : docker address o o = .ok o :=
  docker_again ho (by rw [docker_eq_optional, optional_none_left])

lemma scripts_again (b o : StepSpec) : scripts (plain b o) o = scripts b o := by
  simp only [scripts, plain]
  cases o.effectiveBash <;> rfl

lemma plain_again (b o : StepSpec) : plain (plain b o) o = plain b o := by
  rw [plain, scripts_again]
  simp only [plain, scalar_again, list_again]

lemma spec_again {b o m : StepSpec} (ho : o.Keyed) (h : spec address b o = .ok m) :
    spec address m o = .ok m := by
  obtain ⟨v, hv, d, hd, k, hk, a, ha, rfl⟩ := spec_eq_ok_iff.mp h
  exact spec_eq_ok_iff.mpr ⟨v, vars_again hv, d, docker_again ho.docker hd, k, rules_again hk, a,
    rules_again ha, congrArg (fun s : StepSpec =>
      { s with vars := v, docker := d, caches := k, artifacts := a }) (plain_again b o)⟩

/-- Over itself a specification changes in how its script is spelled. -/
lemma spec_self {o : StepSpec} (ho : o.Keyed) (hrules : o.RulesNamed) :
    spec address o o = .ok o.respelled := by
  refine spec_eq_ok_iff.mpr ⟨o.vars, vars_self ho.vars, o.docker, docker_self ho.docker, o.caches,
    rules_self hrules.caches, o.artifacts, rules_self hrules.artifacts, ?_⟩
  have hscripts : scripts o o = (o.effectiveBash, none) := by
    rw [scripts]
    cases hbash : o.effectiveBash with
    | some s => rfl
    | none =>
      have hnone : o.bash = none ∧ o.script = none := by
        rw [StepSpec.effectiveBash] at hbash
        cases h : o.bash with
        | some s => simp [h] at hbash
        | none => simpa [h] using hbash
      rw [hnone.1, hnone.2]
  simp only [plain, hscripts, scalar_self, list_self, StepSpec.respelled]

end Fields

/-! ### Steps -/

lemma names_again {b o m : Table Step} (h : Table.names m = list (Table.names b) (Table.names o)) :
    list (Table.names m) (Table.names o) = Table.names m := by
  rw [h, list_again]

/-- Steps can be merged again when those of the overlay can, each under its name. -/
lemma steps_again {address : List String} {b o m : Table Step} (ho : (Table.names o).Nodup)
    (hm : (Table.names m).Nodup) (h : steps address b o = .ok m)
    (hinner : ∀ n x s, m.get? n = some x → o.get? n = some s →
      optional (step (address ++ [n])) (b.get? n) (some s) = .ok (some x) →
      ∃ x', step (address ++ [n]) x s = .ok x' ∧ x.Alike StepSpec.Respelled x') :
    ∃ m', steps address m o = .ok m' ∧ Step.AllAlike StepSpec.Respelled m m' := by
  obtain ⟨hnames, hget⟩ := steps_eq_ok ho h
  have hat : ∀ n, ∃ v, optional (step (address ++ [n])) (m.get? n) (o.get? n) = .ok v ∧
      ∀ x, m.get? n = some x → ∃ x', v = some x' ∧ x.Alike StepSpec.Respelled x' := by
    intro n
    cases hs : o.get? n with
    | none =>
      exact ⟨m.get? n, optional_none_right _, fun x hx =>
        ⟨x, hx, Step.alike_refl (fun _ => Or.inl rfl) x⟩⟩
    | some s =>
      have hn := hget n
      rw [hs] at hn
      obtain ⟨x, hx⟩ := Option.isSome_iff_exists.mp ((isSome_of_optional hn).mpr (Or.inr rfl))
      rw [hx] at hn ⊢
      obtain ⟨x', hx', halike⟩ := hinner n x s hx hs hn
      refine ⟨some x', optional_some_eq_ok_iff.mpr ⟨x', hx', rfl⟩, ?_⟩
      rintro _ ⟨⟩
      exact ⟨x', rfl, halike⟩
  obtain ⟨m', hm', -, hnames', hget'⟩ := steps_of_forall hm ho hat
  exact ⟨m', hm', Step.allAlike_of_get? hm (hnames'.trans (names_again hnames)) hget'⟩

mutual

/-- A step that was laid over another one, or taken as it is, can be laid over what came of it. -/
theorem step_again : (o : Step) → o.Distinct → o.All StepSpec.Keyed → o.All StepSpec.RulesNamed →
    ∀ {address b m}, m.Distinct → optional (step address) b (some o) = .ok (some m) →
      ∃ m', step address m o = .ok m' ∧ m.Alike StepSpec.Respelled m'
  | ⟨ospec, inner⟩, hdistinct, hkeyed, hrules, address, b, m, hm, h => by
    rw [Step.Distinct] at hdistinct
    rw [Step.All] at hkeyed hrules
    obtain ⟨hmnames, hminner⟩ := Step.distinct_iff.mp hm
    -- a step that was taken as it is has its inner steps from none
    obtain ⟨base, hspec, hsteps⟩ : ∃ base,
        (∃ r, spec address m.spec ospec = .ok r ∧ m.spec.Respelled r) ∧
          steps (address ++ ["steps"]) base inner = .ok m.steps := by
      cases b with
      | none =>
        cases h
        exact ⟨[], ⟨_, spec_self hkeyed.1 hrules.1, Or.inr rfl⟩,
          steps_of_new hdistinct.1 (by simp)⟩
      | some b =>
        obtain ⟨_, h, hr⟩ := optional_some_eq_ok_iff.mp h
        cases hr
        obtain ⟨hspec, hsteps⟩ := step_eq_ok_iff.mp h
        exact ⟨b.steps, ⟨_, spec_again hkeyed.1 hspec, Or.inl rfl⟩, hsteps⟩
    obtain ⟨r, hr, hrespelled⟩ := hspec
    obtain ⟨t, ht, halike⟩ := steps_again hdistinct.1 hmnames hsteps fun n x s hx hs hxs =>
      inner_again inner hdistinct.2 hkeyed.2 hrules.2 hs (hminner _ (Table.mem_of_get? hx)) hxs
    exact ⟨⟨r, t⟩, step_eq_ok_iff.mpr ⟨hr, ht⟩, Step.alike_iff.mpr ⟨hrespelled, halike⟩⟩

theorem inner_again : (l : List (String × Step)) → Step.AllDistinct l →
    Step.AllOf StepSpec.Keyed l → Step.AllOf StepSpec.RulesNamed l →
    ∀ {address n b o m}, Table.get? n l = some o → m.Distinct →
      optional (step address) b (some o) = .ok (some m) →
      ∃ m', step address m o = .ok m' ∧ m.Alike StepSpec.Respelled m'
  | [], _, _, _, _, _, _, _, _, ho, _, _ => by cases ho
  | (name, s) :: rest, hdistinct, hkeyed, hrules, address, n, b, o, m, ho, hm, h => by
    rw [Step.AllDistinct] at hdistinct
    rw [Step.AllOf] at hkeyed hrules
    rw [Table.get?_cons] at ho
    split at ho
    · cases ho
      exact step_again s hdistinct.1 hkeyed.1 hrules.1 hm h
    · exact inner_again rest hdistinct.2 hkeyed.2 hrules.2 ho hm h

end

end Merge

/-! ### The tree -/

namespace Tree

lemma effectiveBash_respelled (s : StepSpec) : s.respelled.effectiveBash = s.effectiveBash := by
  rw [StepSpec.respelled, StepSpec.effectiveBash]
  simp only
  cases s.effectiveBash <;> rfl

/-- A node does not show how the script was spelled. -/
lemma stepNode_respelled {s s' : StepSpec} (h : s.Respelled s') (nodes : List TreeNode)
    (parent : Nat) (above : Path) (name : String) (stage : Bool) :
    stepNode nodes parent above name s' stage = stepNode nodes parent above name s stage := by
  rcases h with rfl | rfl
  · rfl
  · simp only [stepNode, TreeNode.ofSpec, StepSpec.hasBody, effectiveBash_respelled]
    rfl

/-- **The nodes of steps** that differ in how scripts are spelled are the same, and so is the reason
why there are none. -/
theorem addSteps_respelled (parent : Nat) (above : Path) {l l' : List (String × Step)}
    (h : Step.AllAlike StepSpec.Respelled l l') (nodes : List TreeNode) :
    addSteps parent above l' nodes = addSteps parent above l nodes := by
  induction l using Step.declared.induct generalizing parent above l' nodes with
  | case1 => rw [Step.allAlike_nil_iff.mp h]
  | case2 key spec inner rest ih_inner ih_rest =>
    obtain ⟨⟨spec', inner'⟩, rest', rfl, hs, hrest⟩ := Step.allAlike_cons_iff.mp h
    obtain ⟨hspec, hinner⟩ := Step.alike_iff.mp hs
    rw [addSteps, addSteps, Step.isEmpty_of_allAlike hinner, stepNode_respelled hspec]
    simp only [ih_inner _ _ hinner, ih_rest _ _ hrest]

lemma build_respelled {f f' : Flow} (h : f.Alike StepSpec.Respelled f') : build f' = build f := by
  obtain ⟨htop, hsteps⟩ := h
  rw [htop, build_eq, build_eq]
  simp only [Flow.effectiveName, TreeNode.ofFlow, addSteps_respelled 0 _ hsteps]

end Tree

/-! ### Documents -/

namespace Flow

lemma merge_again_of_distinct {a b m : Flow} (ha : a.Distinct) (hb : b.Checked)
    (h : a.merge b = .ok m) :
    ∃ m', m.merge b = .ok m' ∧ m.Alike StepSpec.Respelled m' := by
  have hm := merge_distinct ha hb.distinct h
  obtain ⟨v, hv, t, ht, d, hd, s, hs, rfl⟩ := merge_eq_ok_iff.mp h
  have hversion : Merge.optional Merge.version v b.version = .ok v :=
    Merge.optional_again (fun x y z hz => by
      obtain ⟨rfl, rfl⟩ := Merge.version_eq_ok_iff.mp hz
      exact hz) (fun y _ => Merge.version_eq_ok_iff.mpr ⟨rfl, rfl⟩) hv
  obtain ⟨s', hs', halike⟩ := Merge.steps_again hb.distinct.1 hm.1 hs fun n x y hx hy hxy =>
    Merge.inner_again b.steps hb.distinct.2 hb.keyed.steps (check_rulesNamed hb.check) hy
      (hm.2.get hx) hxy
  refine ⟨_, merge_eq_ok_iff.mpr ⟨v, hversion, t, Merge.vars_again ht, d,
    Merge.docker_again hb.keyed.docker hd, s', hs', rfl⟩, ?_, halike⟩
  simp only [Merge.scalar_again, Merge.list_again]

lemma loadOnto_append (f : Flow) (texts texts' : List String) :
    f.loadOnto (texts ++ texts') = (f.loadOnto texts).bind fun g => g.loadOnto texts' := by
  induction texts generalizing f with
  | nil => rfl
  | cons text texts ih =>
    rw [List.cons_append, loadOnto, loadOnto]
    cases Flow.parse text with
    | error e => rfl
    | ok next =>
      simp only
      cases f.merge next with
      | error c => rfl
      | ok merged => exact ih merged

lemma compile_congr {f f' : Flow} (h : Tree.build f' = Tree.build f) : f'.compile = f.compile := by
  rw [compile, compile, h]

/-- What is made of a flow by way of its tree is the same when the last text comes once more. -/
lemma loadOnto_again {f : Flow} (hf : f.Distinct) {α : Type} {make : Flow → α}
    (hmake : ∀ {m m'}, Tree.build m' = Tree.build m → make m' = make m) (text : String) :
    (f.loadOnto [text, text]).map make = (f.loadOnto [text]).map make := by
  rw [loadOnto, loadOnto]
  cases hparse : Flow.parse text with
  | error e => rfl
  | ok next =>
    simp only
    cases hmerge : f.merge next with
    | error c => rfl
    | ok merged =>
      obtain ⟨m', hm', halike⟩ := merge_again_of_distinct hf (parse_checked hparse) hmerge
      simp only [loadOnto, hparse, hm', Except.map, hmake (Tree.build_respelled halike)]

lemma load_again {α : Type} {make : Flow → α}
    (hmake : ∀ {m m'}, Tree.build m' = Tree.build m → make m' = make m) (texts : List String)
    (text : String) :
    (load (texts ++ [text, text])).map make = (load (texts ++ [text])).map make := by
  rw [load, load, loadOnto_append, loadOnto_append]
  cases hf : loadOnto {} texts with
  | error e => rfl
  | ok f => exact loadOnto_again (load_distinct hf) hmake text

/-- **A document that is laid over twice** changes nothing the second time, but for the spelling of
scripts: the tree is the same, or there is none for the same reason. So the last of the texts that a
flow is loaded from may come twice. -/
theorem merge_again :
    (∀ a b m : Flow, a.Checked → b.Checked → a.merge b = .ok m →
      ∃ m', m.merge b = .ok m' ∧ Tree.build m' = Tree.build m ∧ m.Alike StepSpec.Respelled m') ∧
    ∀ (texts : List String) (text : String),
      (load (texts ++ [text, text])).map Tree.build = (load (texts ++ [text])).map Tree.build ∧
      (load (texts ++ [text, text])).map compile = (load (texts ++ [text])).map compile := by
  constructor
  · intro a b m ha hb h
    obtain ⟨m', hm', halike⟩ := merge_again_of_distinct ha.distinct hb h
    exact ⟨m', hm', Tree.build_respelled halike, halike⟩
  · intro texts text
    exact ⟨load_again id texts text, load_again compile_congr texts text⟩

/-- What is laid over the flow that builds and tests: a new step, and one inside the step that is
there, have their scripts under the older spelling. -/
def shipping : Flow where
  vars := [("LANG", "rust")]
  steps := [
    ("build", { spec := { script := some "cargo build --release" },
                steps := [("compile", { spec := { bash := some "make" } }),
                          ("sign", { spec := { script := some "sign target" } })] }),
    ("ship", { spec := { script := some "ship target",
                         docker := some { environment := [("HOME", "/ci")] },
                         caches := [⟨"deps", ["vendor"]⟩] } })]

/-- The two new steps are spelled otherwise after the second time, and the tree is the same. -/
theorem merge_again_shipping : building.Checked ∧ shipping.Checked ∧
    ∃ m m' t, building.merge shipping = .ok m ∧ m.merge shipping = .ok m' ∧ m' ≠ m ∧
      m.Alike StepSpec.Respelled m' ∧ Tree.build m = .ok t ∧ Tree.build m' = .ok t := by
  have ha : building.Checked :=
    { distinct := by simp [Distinct, building, Step.AllDistinct, Step.Distinct]
      keyed := ⟨by simp [building], by simp [building], by
        simp [building, Step.AllOf, Step.All, StepSpec.keyed_iff]⟩
      check := by decide }
  have hb : shipping.Checked :=
    { distinct := by simp [Distinct, shipping, Step.AllDistinct, Step.Distinct]
      keyed := ⟨by simp [shipping], by simp [shipping], by
        simp [shipping, Step.AllOf, Step.All, StepSpec.keyed_iff]⟩
      check := by decide }
  obtain ⟨m, hm, htree, hother⟩ : ∃ m, building.merge shipping = .ok m ∧
      ((Tree.build m).toOption.any fun t => t.size = 6) = true ∧
      (m.merge shipping).toOption ≠ some m := exists_of_any_toOption (by cbv)
  obtain ⟨t, ht, -⟩ : ∃ t, Tree.build m = .ok t ∧ t.size = 6 := exists_of_any_toOption htree
  obtain ⟨m', hm', hbuild, halike⟩ := merge_again.1 _ _ m ha hb hm
  refine ⟨ha, hb, m, m', t, hm, hm', ?_, halike, ht, hbuild.trans ht⟩
  rintro rfl
  exact hother (toOption_eq_some_iff.mpr hm')

end Flow

/-- The script that the step has under the older spelling has become its `bash`. -/
def StepSpec.Renamed (s s' : StepSpec) : Prop :=
  s' = s ∨ ∃ x, s.script = some x ∧ s' = { s with bash := some x, script := none }

/-- A flow with a step that has two scripts. -/
def Flow.twoScripts : Flow where
  steps := [("build", { spec := { bash := some "make", script := some "make old" } })]

/-- Of the two scripts one is left when the document is laid over a second time, and it is not that
under the older spelling. -/
theorem Flow.merge_again_twoScripts : Flow.Checked { name := some "ci" } ∧ twoScripts.Checked ∧
    ∃ m m', Flow.merge { name := some "ci" } twoScripts = .ok m ∧ m.merge twoScripts = .ok m' ∧
      ¬ m.Alike StepSpec.Renamed m' := by
  have hname : Flow.Checked { name := some "ci" } :=
    { distinct := by simp [Distinct, Step.AllDistinct]
      keyed := ⟨by simp, by simp, by simp [Step.AllOf]⟩
      check := by decide }
  have htwo : twoScripts.Checked :=
    { distinct := by simp [Distinct, twoScripts, Step.AllDistinct, Step.Distinct]
      keyed := ⟨by simp [twoScripts], by simp [twoScripts], by
        simp [twoScripts, Step.AllOf, Step.All, StepSpec.keyed_iff]⟩
      check := by decide }
  refine ⟨hname, htwo, _, _, rfl, rfl, ?_⟩
  rintro ⟨-, hsteps⟩
  obtain ⟨s', _, h, hs, -⟩ := Step.allAlike_cons_iff.mp hsteps
  cases h
  obtain ⟨hspec, -⟩ := Step.alike_iff.mp hs
  rcases hspec with hsame | ⟨x, hx, hrenamed⟩
  · simp at hsame
  · cases hx
    simp at hrenamed

end StepFlow

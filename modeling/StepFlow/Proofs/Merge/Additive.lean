import StepFlow.Proofs.Flow.Paths
import StepFlow.Proofs.Merge.Documents

/-!
What a merged document holds. Every list of it starts with the base's entries as they are, and ends
with those that only the overlay has, each once (`Appends`); a single value is the overlay's if it has
one. A step that only one of the documents has is there unchanged, with all that is inside it, and a
step of both is laid together field by field, at every path (`merge_additive`).
-/

namespace StepFlow

namespace Merge

/-! ### Lists -/

/-- The entries of the base come first, in their order; the entries of the overlay whose key the base
does not have follow in theirs, each once. -/
def Appends {κ β : Type} [DecidableEq κ] [DecidableEq β] (key : β → κ) (base overlay merged : List β) :
    Prop :=
  merged = base ++ (overlay.filter fun x => key x ∉ base.map key).eraseDups

section Appends

variable {κ β : Type} [DecidableEq κ] [DecidableEq β] {key : β → κ} {base overlay merged : List β}

/-- A union appends what is new, if the overlay does not have two entries of one key. -/
lemma appends_union (h : ∀ x ∈ overlay, ∀ y ∈ overlay, key x = key y → x = y) :
    Appends key base overlay (union key base overlay) := by
  induction overlay generalizing base with
  | nil => simp [Appends, union]
  | cons x o ih =>
    have ho : ∀ y ∈ o, ∀ z ∈ o, key y = key z → y = z := fun y hy z hz =>
      h y (List.mem_cons_of_mem x hy) z (List.mem_cons_of_mem x hz)
    rw [union]
    split
    case isTrue hx =>
      rw [Appends, List.filter_cons_of_neg (by simpa using hx)]
      exact ih ho
    case isFalse hx =>
      -- of the entries after `x`, those with another key are those that differ from it
      have hfilter : (o.filter fun y => key y ∉ (base ++ [x]).map key) =
          (o.filter fun y => key y ∉ base.map key).filter fun y => !y == x := by
        rw [List.filter_filter]
        apply List.filter_congr
        intro y hy
        have hyx : key y = key x ↔ y = x :=
          ⟨h y (List.mem_cons_of_mem x hy) x List.mem_cons_self, congrArg key⟩
        by_cases hsame : y = x
        · simp [hsame]
        · have : key y ≠ key x := fun hkey => hsame (hyx.mp hkey)
          simp [hsame, this]
      have htail := @ih (base ++ [x]) ho
      rw [Appends, hfilter] at htail
      rw [Appends, htail, List.filter_cons_of_pos (by simpa using hx), List.eraseDups_cons,
        List.append_assoc, List.singleton_append]

/-- Entries that were united without a clash are appended. -/
lemma appends_of_unite {clash : β → β → Conflict} (h : unite key clash base overlay = .ok merged) :
    Appends key base overlay merged := by
  obtain ⟨rfl, hfirst⟩ := (unite_eq_ok_iff key clash).mp h
  apply appends_union
  intro x hx y hy hxy
  have hfx := hfirst x hx
  rw [hxy, hfirst y hy] at hfx
  exact (Option.some.inj hfx).symm

lemma appends_list (base overlay : List String) : Appends id base overlay (list base overlay) := by
  rw [list_eq_union]
  exact appends_union fun x _ y _ h => h

lemma appends_vars {address : List String} {base overlay merged : Table String}
    (h : vars address base overlay = .ok merged) : Appends (·.1) base overlay merged := by
  rw [vars_eq_unite] at h
  exact appends_of_unite h

lemma appends_rules {address : List String} {base overlay merged : List FileRule}
    (h : rules address base overlay = .ok merged) : Appends (·.name) base overlay merged := by
  rw [rules_eq_unite] at h
  exact appends_of_unite h

end Appends

/-! ### Values that may be absent -/

/-- A value that only one side has is taken as it is, and two values are laid together by `R`. -/
def Laid {α : Type} (R : α → α → α → Prop) : (base overlay merged : Option α) → Prop
  | base, none, merged => merged = base
  | none, some o, merged => merged = some o
  | some b, some o, merged => ∃ m, merged = some m ∧ R b o m

section Laid

variable {ε α : Type} {m : α → α → Except ε α} {R : α → α → α → Prop}
  {base overlay merged : Option α}

lemma laid_none_right : Laid R base none base := by
  cases base <;> rfl

lemma laid_none_left : Laid R none overlay overlay := by
  cases overlay <;> rfl

lemma laid_of_optional (h : optional m base overlay = .ok merged)
    (hm : ∀ b o r, base = some b → overlay = some o → m b o = .ok r → R b o r) :
    Laid R base overlay merged := by
  cases overlay with
  | none =>
    rw [optional_none_right] at h
    cases h
    exact laid_none_right
  | some o =>
    cases base with
    | none =>
      cases h
      exact laid_none_left
    | some b =>
      obtain ⟨r, hr, rfl⟩ := optional_some_eq_ok_iff.mp h
      exact ⟨r, rfl, hm b o r rfl rfl hr⟩

/-- What is laid together is there when one of the two is. -/
lemma Laid.isSome_iff (h : Laid R base overlay merged) :
    merged.isSome ↔ base.isSome ∨ overlay.isSome := by
  cases overlay with
  | none =>
    rw [Laid] at h
    simp [h]
  | some o =>
    cases base with
    | none =>
      rw [Laid] at h
      simp [h]
    | some b =>
      obtain ⟨r, rfl, -⟩ := h
      simp

/-- What is at the end of a way that both sides go on. -/
lemma Laid.bind {β : Type} {S : β → β → β → Prop} {f : α → Option β}
    (h : Laid R base overlay merged)
    (hf : ∀ b o r, base = some b → overlay = some o → R b o r → Laid S (f b) (f o) (f r)) :
    Laid S (base.bind f) (overlay.bind f) (merged.bind f) := by
  cases overlay with
  | none =>
    rw [Laid] at h
    rw [h]
    exact laid_none_right
  | some o =>
    cases base with
    | none =>
      rw [Laid] at h
      rw [h]
      exact laid_none_left
    | some b =>
      obtain ⟨r, rfl, hr⟩ := h
      exact hf b o r rfl rfl hr

end Laid

lemma scalar_eq_or {α : Type} (b o : Option α) : scalar b o = o.or b := by
  cases o <;> rfl

end Merge

open Merge

/-! ### Fields -/

/-- Container settings of both sides laid together. -/
structure Container.Overlaid (b o m : Container) : Prop where
  image : m.image = o.image.or b.image
  entrypoint : m.entrypoint = o.entrypoint.or b.entrypoint
  command : m.command = o.command.or b.command
  environment : Appends (·.1) b.environment o.environment m.environment
  user : m.user = o.user.or b.user
  network : m.network = o.network.or b.network

/-- What two steps say about themselves laid together. The script counts as one value, under whichever
spelling it stands. -/
structure StepSpec.Overlaid (b o m : StepSpec) : Prop where
  vars : Appends (·.1) b.vars o.vars m.vars
  condition : m.condition = o.condition.or b.condition
  docker : Laid Container.Overlaid b.docker o.docker m.docker
  agents : Appends id b.agents o.agents m.agents
  script : m.effectiveBash = o.effectiveBash.or b.effectiveBash
  pwsh : m.pwsh = o.pwsh.or b.pwsh
  post : m.post = o.post.or b.post
  plugin : m.plugin = o.plugin.or b.plugin
  retry : m.retry = o.retry.or b.retry
  timeout : m.timeout = o.timeout.or b.timeout
  allowFailure : m.allowFailure = o.allowFailure.or b.allowFailure
  dependencies : Appends id b.dependencies o.dependencies m.dependencies
  exports : Appends id b.exports o.exports m.exports
  secrets : Appends id b.secrets o.secrets m.secrets
  configs : Appends id b.configs o.configs m.configs
  caches : Appends (·.name) b.caches o.caches m.caches
  artifacts : Appends (·.name) b.artifacts o.artifacts m.artifacts

/-- Two steps laid together, apart from what is inside the steps inside them. -/
structure Step.Overlaid (b o m : Step) : Prop where
  spec : b.spec.Overlaid o.spec m.spec
  steps : Appends id (Table.names b.steps) (Table.names o.steps) (Table.names m.steps)

/-- Two flows laid together, apart from what is inside their steps. -/
structure Flow.Overlaid (b o m : Flow) : Prop where
  version : m.version = o.version.or b.version
  name : m.name = o.name.or b.name
  vars : Appends (·.1) b.vars o.vars m.vars
  condition : m.condition = o.condition.or b.condition
  docker : Laid Container.Overlaid b.docker o.docker m.docker
  agents : Appends id b.agents o.agents m.agents
  steps : Appends id (Table.names b.steps) (Table.names o.steps) (Table.names m.steps)

section Fields

variable {address : List String}

lemma container_overlaid {b o m : Container} (h : container address b o = .ok m) :
    b.Overlaid o m := by
  obtain ⟨e, he, rfl⟩ := container_eq_ok_iff.mp h
  exact {
    image := scalar_eq_or _ _
    entrypoint := scalar_eq_or _ _
    command := scalar_eq_or _ _
    environment := appends_vars he
    user := scalar_eq_or _ _
    network := scalar_eq_or _ _ }

lemma docker_laid {b o m : Option Container} (h : docker address b o = .ok m) :
    Laid Container.Overlaid b o m := by
  rw [docker_eq_optional] at h
  apply laid_of_optional h
  intro x y z _ _ hz
  exact container_overlaid hz

lemma spec_overlaid {b o m : StepSpec} (h : spec address b o = .ok m) : b.Overlaid o m := by
  obtain ⟨v, hv, d, hd, k, hk, a, ha, rfl⟩ := spec_eq_ok_iff.mp h
  exact {
    vars := appends_vars hv
    condition := scalar_eq_or _ _
    docker := docker_laid hd
    agents := appends_list _ _
    script := (effectiveBash_plain b o).trans (scalar_eq_or _ _)
    pwsh := scalar_eq_or _ _
    post := scalar_eq_or _ _
    plugin := scalar_eq_or _ _
    retry := scalar_eq_or _ _
    timeout := scalar_eq_or _ _
    allowFailure := scalar_eq_or _ _
    dependencies := appends_list _ _
    exports := appends_list _ _
    secrets := appends_list _ _
    configs := appends_list _ _
    caches := appends_rules hk
    artifacts := appends_rules ha }

/-! ### Steps -/

lemma step_overlaid {b o m : Step} (ho : o.Distinct) (h : step address b o = .ok m) :
    b.Overlaid o m := by
  obtain ⟨hspec, hsteps⟩ := step_eq_ok_iff.mp h
  obtain ⟨hnames, -⟩ := steps_eq_ok (Step.distinct_iff.mp ho).1 hsteps
  refine ⟨spec_overlaid hspec, ?_⟩
  rw [hnames]
  exact appends_list _ _

/-- Under each name the steps of the two sides are merged. -/
lemma steps_laid {b o m : Table Step} (hnames : (Table.names o).Nodup)
    (hinner : ∀ p ∈ o, p.2.Distinct) (h : steps address b o = .ok m) (n : String) :
    Laid (fun x y z => y.Distinct ∧ step (address ++ [n]) x y = .ok z)
      (b.get? n) (o.get? n) (m.get? n) := by
  apply laid_of_optional ((steps_eq_ok hnames h).2 n)
  intro x y z _ hy hz
  exact ⟨hinner _ (Table.mem_of_get? hy), hz⟩

/-- **At every path** inside a merged step the steps of the two sides are laid together. -/
lemma step_laid (path : List String) {b o m : Step} (ho : o.Distinct)
    (h : step address b o = .ok m) :
    Laid Step.Overlaid (b.inside? path) (o.inside? path) (m.inside? path) := by
  induction path generalizing address b o m with
  | nil => exact ⟨m, rfl, step_overlaid ho h⟩
  | cons n path ih =>
    obtain ⟨hnames, hinner⟩ := Step.distinct_iff.mp ho
    apply (steps_laid hnames hinner (step_eq_ok_iff.mp h).2 n).bind
    rintro x y z - - ⟨hy, hz⟩
    exact ih hy hz

end Fields

namespace Flow

lemma merge_overlaid {b o m : Flow} (ho : o.Distinct) (h : b.merge o = .ok m) : b.Overlaid o m := by
  obtain ⟨v, hv, t, ht, d, hd, s, hs, rfl⟩ := merge_eq_ok_iff.mp h
  have hversion : v = o.version.or b.version := by
    have hlaid := laid_of_optional (R := fun _ y z => z = y) hv fun x y z _ _ hz => by
      obtain ⟨rfl, rfl⟩ := version_eq_ok_iff.mp hz
      rfl
    revert hlaid
    cases o.version <;> cases b.version <;> simp [Laid]
  have hnames := (steps_eq_ok ho.1 hs).1
  exact {
    version := hversion
    name := scalar_eq_or _ _
    vars := appends_vars ht
    condition := scalar_eq_or _ _
    docker := docker_laid hd
    agents := appends_list _ _
    steps := hnames ▸ appends_list _ _ }

lemma merge_laid {b o m : Flow} (ho : o.Distinct) (h : b.merge o = .ok m) (path : List String) :
    Laid Step.Overlaid (b.at? path) (o.at? path) (m.at? path) := by
  cases path with
  | nil => rfl
  | cons n path =>
    obtain ⟨_, -, _, -, _, -, s, hs, rfl⟩ := merge_eq_ok_iff.mp h
    apply (steps_laid ho.1 (Step.allDistinct_iff.mp ho.2) hs n).bind
    rintro x y z - - ⟨hy, hz⟩
    exact step_laid path hy hz

/-- **Merging adds and loses nothing.** The top level of the merged flow is that of the two laid
together. There is a step at a path just when one of the two has one there; a step that only one of
them has is there unchanged, with all that is inside it, and a step of both is laid together. -/
theorem merge_additive {b o m : Flow} (ho : o.Distinct) (h : b.merge o = .ok m) :
    b.Overlaid o m ∧ ∀ path,
      ((m.at? path).isSome ↔ (b.at? path).isSome ∨ (o.at? path).isSome) ∧
      (∀ s, b.at? path = some s → o.at? path = none → m.at? path = some s) ∧
      (∀ s, b.at? path = none → o.at? path = some s → m.at? path = some s) ∧
      ∀ x y, b.at? path = some x → o.at? path = some y →
        ∃ z, m.at? path = some z ∧ x.Overlaid y z := by
  refine ⟨merge_overlaid ho h, fun path => ?_⟩
  have hlaid := merge_laid ho h path
  refine ⟨hlaid.isSome_iff, ?_, ?_, ?_⟩
  · intro s hb ho
    rw [hb, ho] at hlaid
    exact hlaid
  · intro s hb ho
    rw [hb, ho] at hlaid
    exact hlaid
  · intro x y hx hy
    rw [hx, hy] at hlaid
    exact hlaid

/-- A step that both documents have inside a step that both have. -/
theorem merge_additive_building : nightly.Distinct ∧ ∃ m, building.merge nightly = .ok m ∧
    building.Overlaid nightly m ∧ m.at? ["test"] = building.at? ["test"] ∧
    ∃ x y z, building.at? ["build", "compile"] = some x ∧
      nightly.at? ["build", "compile"] = some y ∧ m.at? ["build", "compile"] = some z ∧
      x.Overlaid y z := by
  have ho : nightly.Distinct := by simp [Distinct, nightly, Step.AllDistinct, Step.Distinct]
  obtain ⟨m, hm⟩ : ∃ m, building.merge nightly = .ok m := ⟨_, rfl⟩
  obtain ⟨htop, hpaths⟩ := merge_additive ho hm
  obtain ⟨-, hbase, -, -⟩ := hpaths ["test"]
  obtain ⟨-, -, -, hboth⟩ := hpaths ["build", "compile"]
  obtain ⟨z, hz, hlaid⟩ := hboth _ _ rfl rfl
  exact ⟨ho, m, hm, htop, hbase _ rfl rfl, _, _, z, rfl, rfl, hz, hlaid⟩

end Flow

end StepFlow

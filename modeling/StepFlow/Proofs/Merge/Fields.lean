import StepFlow.Proofs.Merge.Union
import StepFlow.Proofs.Outcome

/-!
What a step says about itself, merged field by field. Single values, lists and scripts always come
out (`plain`); values, file rules and the environment of a container are strict. A field that only
one side has is taken as it is (`optional`), which is how container settings and, name by name,
nested steps are merged.
-/

namespace StepFlow.Merge

lemma scalar_assoc {α : Type} (a b c : Option α) :
    scalar (scalar a b) c = scalar a (scalar b c) := by
  cases c <;> rfl

/-! ### Values that may be absent -/

section Optional

variable {ε α : Type} {m : α → α → Except ε α}

/-- Merges two values that may be absent; one that is there alone is taken as it is. -/
def optional (m : α → α → Except ε α) : Option α → Option α → Except ε (Option α)
  | b, none => .ok b
  | none, some o => .ok (some o)
  | some b, some o => some <$> m b o

lemma optional_none_right (b : Option α) : optional m b none = .ok b := by
  cases b <;> rfl

lemma optional_none_left (o : Option α) : optional m none o = .ok o := by
  cases o <;> rfl

lemma optional_some_eq_ok_iff {b o : α} {r : Option α} :
    optional m (some b) (some o) = .ok r ↔ ∃ v, m b o = .ok v ∧ some v = r := by
  rw [optional]
  cases m b o with
  | error e => simp [Functor.map, Except.map]
  | ok v => simp [Functor.map, Except.map]

/-- A value is there when one of the two is. -/
lemma isSome_of_optional {b o r : Option α} (h : optional m b o = .ok r) :
    r.isSome ↔ b.isSome ∨ o.isSome := by
  cases o with
  | none =>
    rw [optional_none_right] at h
    cases h
    simp
  | some o =>
    cases b with
    | none =>
      cases h
      simp
    | some b =>
      obtain ⟨v, -, rfl⟩ := optional_some_eq_ok_iff.mp h
      simp

/-- An absent value takes part in no merge, so only three values that are all there have to
associate. -/
theorem optional_associates {a b c : Option α}
    (h : ∀ x y z, a = some x → b = some y → c = some z → Associates m x y z) :
    Associates (optional m) a b c := by
  intro r
  cases c with
  | none => simp [optional_none_right]
  | some z =>
    cases a with
    | none => simp [optional_none_left]
    | some x =>
      cases b with
      | none => simp [optional_none_left, optional_none_right]
      | some y =>
        have hxyz := h x y z rfl rfl rfl
        simp only [optional_some_eq_ok_iff]
        constructor
        · rintro ⟨_, ⟨xy, hxy, rfl⟩, hr⟩
          obtain ⟨v, hv, rfl⟩ := optional_some_eq_ok_iff.mp hr
          obtain ⟨yz, hyz, hv'⟩ := (hxyz v).mp ⟨xy, hxy, hv⟩
          exact ⟨some yz, ⟨yz, hyz, rfl⟩, optional_some_eq_ok_iff.mpr ⟨v, hv', rfl⟩⟩
        · rintro ⟨_, ⟨yz, hyz, rfl⟩, hr⟩
          obtain ⟨v, hv, rfl⟩ := optional_some_eq_ok_iff.mp hr
          obtain ⟨xy, hxy, hv'⟩ := (hxyz v).mpr ⟨yz, hyz, hv⟩
          exact ⟨some xy, ⟨xy, hxy, rfl⟩, optional_some_eq_ok_iff.mpr ⟨v, hv', rfl⟩⟩

end Optional

/-! ### Container settings -/

/-- Container settings that both sides have. -/
def container (address : List String) (b o : Container) : Except Conflict Container := do
  let environment ← vars (address ++ ["environment"]) b.environment o.environment
  return {
    image := scalar b.image o.image
    entrypoint := scalar b.entrypoint o.entrypoint
    command := scalar b.command o.command
    environment
    user := scalar b.user o.user
    network := scalar b.network o.network }

lemma docker_eq_optional (address : List String) :
    docker address = optional (container address) := by
  funext b o
  cases o with
  | none => rw [optional_none_right, docker]
  | some o =>
    cases b with
    | none => rfl
    | some b =>
      rw [docker, optional, container]
      cases vars (address ++ ["environment"]) b.environment o.environment <;> rfl

lemma container_eq_ok_iff {address : List String} {b o r : Container} :
    container address b o = .ok r ↔
      ∃ e, vars (address ++ ["environment"]) b.environment o.environment = .ok e ∧
        { image := scalar b.image o.image, entrypoint := scalar b.entrypoint o.entrypoint,
          command := scalar b.command o.command, environment := e,
          user := scalar b.user o.user, network := scalar b.network o.network } = r := by
  rw [container, bind_eq_ok_iff]
  simp [pure, Except.pure]

theorem container_associates (address : List String) (a b c : Container) :
    Associates (container address) a b c := by
  have h := vars_associates (address ++ ["environment"]) a.environment b.environment c.environment
  intro r
  simp only [container_eq_ok_iff]
  constructor
  · rintro ⟨_, ⟨e, he, rfl⟩, e', he', rfl⟩
    obtain ⟨f, hf, hf'⟩ := (h e').mp ⟨e, he, he'⟩
    refine ⟨_, ⟨f, hf, rfl⟩, e', hf', ?_⟩
    simp only [scalar_assoc]
  · rintro ⟨_, ⟨e, he, rfl⟩, e', he', rfl⟩
    obtain ⟨f, hf, hf'⟩ := (h e').mpr ⟨e, he, he'⟩
    refine ⟨_, ⟨f, hf, rfl⟩, e', hf', ?_⟩
    simp only [scalar_assoc]

theorem docker_associates (address : List String) (a b c : Option Container) :
    Associates (docker address) a b c := by
  rw [docker_eq_optional]
  apply optional_associates
  intro x y z _ _ _
  exact container_associates address x y z

/-! ### Specifications -/

/-- The fields of a merged specification that cannot clash. -/
def plain (b o : StepSpec) : StepSpec where
  bash := (scripts b o).1
  script := (scripts b o).2
  condition := scalar b.condition o.condition
  agents := list b.agents o.agents
  pwsh := scalar b.pwsh o.pwsh
  post := scalar b.post o.post
  plugin := scalar b.plugin o.plugin
  retry := scalar b.retry o.retry
  timeout := scalar b.timeout o.timeout
  allowFailure := scalar b.allowFailure o.allowFailure
  dependencies := list b.dependencies o.dependencies
  exports := list b.exports o.exports
  secrets := list b.secrets o.secrets
  configs := list b.configs o.configs

/-- Under whichever spelling, the script of a merged step is that of the overlay if it has one. -/
lemma effectiveBash_plain (b o : StepSpec) :
    (plain b o).effectiveBash = scalar b.effectiveBash o.effectiveBash := by
  rw [StepSpec.effectiveBash]
  simp only [plain, scripts]
  cases o.effectiveBash with
  | none => rfl
  | some s => rfl

lemma scripts_assoc (a b c : StepSpec) : scripts (plain a b) c = scripts a (plain b c) := by
  rw [scripts, scripts, effectiveBash_plain]
  cases c.effectiveBash with
  | some s => rfl
  | none =>
    simp only [scalar, Option.orElse_none, plain, scripts]

lemma plain_assoc (a b c : StepSpec) : plain (plain a b) c = plain a (plain b c) := by
  have h := scripts_assoc a b c
  rw [plain, h]
  simp only [plain, scalar_assoc, list_assoc]

lemma spec_eq_ok_iff {address : List String} {b o r : StepSpec} :
    spec address b o = .ok r ↔
      ∃ v, vars (address ++ ["vars"]) b.vars o.vars = .ok v ∧
      ∃ d, docker (address ++ ["docker"]) b.docker o.docker = .ok d ∧
      ∃ k, rules (address ++ ["caches"]) b.caches o.caches = .ok k ∧
      ∃ f, rules (address ++ ["artifacts"]) b.artifacts o.artifacts = .ok f ∧
        { plain b o with vars := v, docker := d, caches := k, artifacts := f } = r := by
  simp only [spec, bind_eq_ok_iff]
  simp [pure, Except.pure, plain]

theorem spec_associates (address : List String) (a b c : StepSpec) :
    Associates (spec address) a b c := by
  intro r
  simp only [spec_eq_ok_iff]
  constructor
  · rintro ⟨_, ⟨v, hv, d, hd, k, hk, f, hf, rfl⟩, v', hv', d', hd', k', hk', f', hf', rfl⟩
    obtain ⟨v, hv, hv'⟩ := (vars_associates _ _ _ _ v').mp ⟨v, hv, hv'⟩
    obtain ⟨d, hd, hd'⟩ := (docker_associates _ _ _ _ d').mp ⟨d, hd, hd'⟩
    obtain ⟨k, hk, hk'⟩ := (rules_associates _ _ _ _ k').mp ⟨k, hk, hk'⟩
    obtain ⟨f, hf, hf'⟩ := (rules_associates _ _ _ _ f').mp ⟨f, hf, hf'⟩
    exact ⟨_, ⟨v, hv, d, hd, k, hk, f, hf, rfl⟩, v', hv', d', hd', k', hk', f', hf',
      congrArg (fun s : StepSpec => { s with vars := v', docker := d', caches := k', artifacts := f' })
        (plain_assoc a b c).symm⟩
  · rintro ⟨_, ⟨v, hv, d, hd, k, hk, f, hf, rfl⟩, v', hv', d', hd', k', hk', f', hf', rfl⟩
    obtain ⟨v, hv, hv'⟩ := (vars_associates _ _ _ _ v').mpr ⟨v, hv, hv'⟩
    obtain ⟨d, hd, hd'⟩ := (docker_associates _ _ _ _ d').mpr ⟨d, hd, hd'⟩
    obtain ⟨k, hk, hk'⟩ := (rules_associates _ _ _ _ k').mpr ⟨k, hk, hk'⟩
    obtain ⟨f, hf, hf'⟩ := (rules_associates _ _ _ _ f').mpr ⟨f, hf, hf'⟩
    exact ⟨_, ⟨v, hv, d, hd, k, hk, f, hf, rfl⟩, v', hv', d', hd', k', hk', f', hf',
      congrArg (fun s : StepSpec => { s with vars := v', docker := d', caches := k', artifacts := f' })
        (plain_assoc a b c)⟩

end StepFlow.Merge

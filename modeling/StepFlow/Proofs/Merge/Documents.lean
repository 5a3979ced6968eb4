import StepFlow.Proofs.Flow.Keyed
import StepFlow.Proofs.Merge.Steps

/-!
Whole documents laid over each other: in which order three of them are put together makes no
difference, neither to the result nor to whether there is one.
-/

namespace StepFlow

namespace Merge

/-- Versions that both sides have must be the same. -/
def version (a b : UInt32) : Except Conflict UInt32 :=
  if a = b then .ok a else .error (.version a b)

lemma version_eq_ok_iff {a b r : UInt32} : version a b = .ok r ↔ a = r ∧ b = r := by
  rw [version]
  split
  case isTrue h => simp [h]
  case isFalse h =>
    constructor
    · intro hr
      cases hr
    · rintro ⟨rfl, rfl⟩
      exact absurd rfl h

theorem version_associates (a b c : UInt32) : Associates version a b c := by
  intro r
  simp only [version_eq_ok_iff]
  constructor
  · rintro ⟨_, ⟨rfl, rfl⟩, rfl, rfl⟩
    exact ⟨_, ⟨rfl, rfl⟩, rfl, rfl⟩
  · rintro ⟨_, ⟨rfl, rfl⟩, rfl, rfl⟩
    exact ⟨_, ⟨rfl, rfl⟩, rfl, rfl⟩

end Merge

namespace Flow

open Merge

lemma merge_eq (b o : Flow) :
    b.merge o = (do
      let v ← Merge.optional Merge.version b.version o.version
      let t ← Merge.vars ["vars"] b.vars o.vars
      let d ← Merge.docker ["docker"] b.docker o.docker
      let s ← Merge.steps ["steps"] b.steps o.steps
      return {
        version := v, vars := t, docker := d, steps := s
        name := scalar b.name o.name
        condition := scalar b.condition o.condition
        agents := list b.agents o.agents }) := by
  rw [merge]
  cases b.version with
  | none => cases o.version <;> rfl
  | some x =>
    cases o.version with
    | none => rfl
    | some y =>
      by_cases h : x = y
      · simp only [if_pos h, Merge.optional, Merge.version]
        rfl
      · simp only [if_neg h, Merge.optional, Merge.version]
        rfl

/-- The parts of a merged flow. -/
theorem merge_eq_ok_iff {b o r : Flow} :
    b.merge o = .ok r ↔
      ∃ v, Merge.optional Merge.version b.version o.version = .ok v ∧
      ∃ t, Merge.vars ["vars"] b.vars o.vars = .ok t ∧
      ∃ d, Merge.docker ["docker"] b.docker o.docker = .ok d ∧
      ∃ s, Merge.steps ["steps"] b.steps o.steps = .ok s ∧
        { version := v, vars := t, docker := d, steps := s, name := scalar b.name o.name,
          condition := scalar b.condition o.condition, agents := list b.agents o.agents } = r := by
  rw [merge_eq]
  simp only [bind_eq_ok_iff]
  simp [pure, Except.pure]

/-- A document that sets nothing but steps with new names puts them behind those of the base. -/
theorem merge_of_new {b : Flow} {added : Table Step} (hnames : (Table.names added).Nodup)
    (hnew : ∀ n ∈ Table.names added, n ∉ Table.names b.steps) :
    b.merge { steps := added } = .ok { b with steps := b.steps ++ added } :=
  merge_eq_ok_iff.mpr ⟨b.version, optional_none_right _, b.vars, rfl, b.docker,
    by rw [docker_eq_optional, optional_none_right], _, steps_of_new hnames hnew, rfl⟩

lemma merge_associates {a b c : Flow} (ha : a.Distinct) (hb : b.Distinct) (hc : c.Distinct) :
    Associates merge a b c := by
  have hversion : Associates (Merge.optional Merge.version) a.version b.version c.version := by
    apply optional_associates
    intro x y z _ _ _
    exact version_associates x y z
  have hsteps : Associates (Merge.steps ["steps"]) a.steps b.steps c.steps := by
    apply steps_associates ha.1 hb.1 hc.1
    intro n x y z hx hy hz
    exact step_associates _ (ha.2.get hx) (hb.2.get hy) z (hc.2.get hz)
  intro r
  simp only [merge_eq_ok_iff]
  constructor
  · rintro ⟨_, ⟨v, hv, t, ht, d, hd, s, hs, rfl⟩, v', hv', t', ht', d', hd', s', hs', rfl⟩
    obtain ⟨v, hv, hv'⟩ := (hversion v').mp ⟨v, hv, hv'⟩
    obtain ⟨t, ht, ht'⟩ := (vars_associates _ _ _ _ t').mp ⟨t, ht, ht'⟩
    obtain ⟨d, hd, hd'⟩ := (docker_associates _ _ _ _ d').mp ⟨d, hd, hd'⟩
    obtain ⟨s, hs, hs'⟩ := (hsteps s').mp ⟨s, hs, hs'⟩
    refine ⟨_, ⟨v, hv, t, ht, d, hd, s, hs, rfl⟩, v', hv', t', ht', d', hd', s', hs', ?_⟩
    simp only [scalar_assoc, list_assoc]
  · rintro ⟨_, ⟨v, hv, t, ht, d, hd, s, hs, rfl⟩, v', hv', t', ht', d', hd', s', hs', rfl⟩
    obtain ⟨v, hv, hv'⟩ := (hversion v').mpr ⟨v, hv, hv'⟩
    obtain ⟨t, ht, ht'⟩ := (vars_associates _ _ _ _ t').mpr ⟨t, ht, ht'⟩
    obtain ⟨d, hd, hd'⟩ := (docker_associates _ _ _ _ d').mpr ⟨d, hd, hd'⟩
    obtain ⟨s, hs, hs'⟩ := (hsteps s').mpr ⟨s, hs, hs'⟩
    refine ⟨_, ⟨v, hv, t, ht, d, hd, s, hs, rfl⟩, v', hv', t', ht', d', hd', s', hs', ?_⟩
    simp only [scalar_assoc, list_assoc]

/-- Flow documents can be put together from the left or from the right: the same three can be
merged, and they give the same document. -/
theorem merge_assoc {a b c : Flow} (ha : a.Distinct) (hb : b.Distinct) (hc : c.Distinct)
    (r : Flow) :
    (do let ab ← a.merge b; ab.merge c) = .ok r ↔ (do let bc ← b.merge c; a.merge bc) = .ok r := by
  rw [bind_eq_ok_iff, bind_eq_ok_iff]
  exact merge_associates ha hb hc r

/-- A flow that builds and tests. -/
def building : Flow where
  name := some "ci"
  vars := [("LANG", "rust")]
  agents := ["linux"]
  steps := [
    ("build", { spec := { script := some "cargo build", exports := ["ARTIFACT"] },
                steps := [("compile", { spec := { caches := [⟨"deps", ["vendor"]⟩] } })] }),
    ("test", { spec := { bash := some "cargo test" } })]

/-- What is laid over it at night. -/
def nightly : Flow where
  vars := [("NIGHTLY", "1"), ("LANG", "rust")]
  docker := some { image := some "rust:1.80" }
  agents := ["linux", "large"]
  steps := [
    ("publish", { spec := { plugin := some "publish-crate", dependencies := ["test"] } }),
    ("build", { spec := { timeout := some 900, exports := ["VERSION"] },
                steps := [("lint", {}), ("compile", { spec := { bash := some "make" } })] })]

/-- What is laid over both of them. -/
def tuned : Flow where
  docker := some { user := some "builder" }
  steps := [
    ("build", { spec := { bash := some "cargo build --release" },
                steps := [("compile", { spec := { caches := [⟨"deps", ["vendor"]⟩] } })] })]

/-- Three documents that all have the step `build`, with steps inside it. -/
theorem merge_assoc_building :
    building.Distinct ∧ nightly.Distinct ∧ tuned.Distinct ∧
    ∃ r, (do let ab ← building.merge nightly; ab.merge tuned) = .ok r ∧
      (do let bc ← nightly.merge tuned; building.merge bc) = .ok r ∧
      Table.names r.steps = ["build", "test", "publish"] := by
  have ha : building.Distinct := by simp [Distinct, building, Step.AllDistinct, Step.Distinct]
  have hb : nightly.Distinct := by simp [Distinct, nightly, Step.AllDistinct, Step.Distinct]
  have hc : tuned.Distinct := by simp [Distinct, tuned, Step.AllDistinct, Step.Distinct]
  obtain ⟨r, hr, hn⟩ : ∃ r, (do let ab ← building.merge nightly; ab.merge tuned) = .ok r ∧
      Table.names r.steps = ["build", "test", "publish"] := ⟨_, rfl, rfl⟩
  exact ⟨ha, hb, hc, r, hr, (merge_assoc ha hb hc r).mp hr, hn⟩

theorem merge_distinct {b o r : Flow} (hb : b.Distinct) (ho : o.Distinct) (h : b.merge o = .ok r) :
    r.Distinct := by
  obtain ⟨_, -, _, -, _, -, s, hs, rfl⟩ := merge_eq_ok_iff.mp h
  have hsteps := steps_distinct ⟨hb.1, Step.allDistinct_iff.mp hb.2⟩ o.steps ho.2 hs
  exact ⟨hsteps.1, Step.allDistinct_iff.mpr hsteps.2⟩

/-- What a merge with a document that was read keeps is kept when texts are loaded. -/
lemma loadOnto_keeps {P : Flow → Prop}
    (hmerge : ∀ {f next r : Flow}, P f → next.Checked → f.merge next = .ok r → P r)
    {f r : Flow} (hf : P f) {texts : List String} (h : f.loadOnto texts = .ok r) : P r := by
  induction texts generalizing f with
  | nil =>
    cases h
    exact hf
  | cons text texts ih =>
    rw [loadOnto] at h
    split at h
    · cases h
    · next next hparse =>
      split at h
      · cases h
      · next merged hmerged => exact ih (hmerge hf (parse_checked hparse) hmerged) h

/-- Whatever texts a flow is loaded from, it is a document like those it was put together from. -/
theorem load_distinct {texts : List String} {r : Flow} (h : load texts = .ok r) : r.Distinct :=
  loadOnto_keeps (fun hf hnext => merge_distinct hf hnext.distinct) distinct_empty h

end Flow

end StepFlow

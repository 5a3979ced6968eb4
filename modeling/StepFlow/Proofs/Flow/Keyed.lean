import StepFlow.Proofs.Flow.Distinct
import StepFlow.Proofs.Flow.Paths
import StepFlow.Proofs.Flow.Sound
import StepFlow.Proofs.Tree.Declaration

/-!
In a flow document no key stands twice in a table, whether of variables or of a container's
environment: that is so for every document that was read. In a document that passes the check, no two
rules of one kind have one name in a step, at any depth.
-/

namespace StepFlow

/-! ### What all steps have in common -/

mutual

/-- What the step and the steps inside it say about themselves has a property. -/
def Step.All (P : StepSpec → Prop) : Step → Prop
  | ⟨spec, inner⟩ => P spec ∧ Step.AllOf P inner

/-- What the steps of a list and those inside them say about themselves has a property. -/
def Step.AllOf (P : StepSpec → Prop) : List (String × Step) → Prop
  | [] => True
  | (_, s) :: rest => s.All P ∧ Step.AllOf P rest

end

section All

variable {P Q : StepSpec → Prop}

lemma Step.allOf_iff {t : Table Step} : Step.AllOf P t ↔ ∀ p ∈ t, p.2.All P := by
  induction t with
  | nil => simp [Step.AllOf]
  | cons p t ih => rw [Step.AllOf, ih, List.forall_mem_cons]

lemma Step.all_iff {s : Step} : s.All P ↔ P s.spec ∧ ∀ p ∈ s.steps, p.2.All P := by
  obtain ⟨spec, steps⟩ := s
  rw [Step.All, Step.allOf_iff]

lemma Step.AllOf.get {t : Table Step} (h : Step.AllOf P t) {n : String} {s : Step}
    (hs : Table.get? n t = some s) : s.All P :=
  Step.allOf_iff.mp h _ (Table.mem_of_get? hs)

/-- What all steps say about themselves is what those in order of declaration say. -/
lemma Step.allOf_iff_declared {steps : List (String × Step)} :
    Step.AllOf P steps ↔ ∀ d ∈ Step.declared steps, P d.spec := by
  induction steps using Step.declared.induct with
  | case1 => simp [Step.AllOf, Step.declared_nil]
  | case2 key spec inner rest ih_inner ih_rest =>
    rw [Step.AllOf, Step.All, Step.declared_cons, List.forall_mem_cons, List.forall_mem_append,
      ih_inner, ih_rest, and_assoc]

/-- A step deeper inside has what all have. -/
lemma Step.All.inside {s t : Step} {path : List String} (h : s.All P)
    (ht : s.inside? path = some t) : P t.spec := by
  induction path generalizing s with
  | nil =>
    cases ht
    exact (Step.all_iff.mp h).1
  | cons n path ih =>
    obtain ⟨u, hu, hut⟩ := Option.bind_eq_some_iff.mp ht
    exact ih ((Step.all_iff.mp h).2 _ (Table.mem_of_get? hu)) hut

lemma Step.AllOf.at? {f : Flow} (h : Step.AllOf P f.steps) {path : List String} {s : Step}
    (hs : f.at? path = some s) : P s.spec := by
  cases path with
  | nil => cases hs
  | cons n path =>
    obtain ⟨u, hu, hus⟩ := Option.bind_eq_some_iff.mp hs
    exact (h.get hu).inside hus

end All

/-! ### Tables -/

/-- No key stands twice in the environment. -/
def Container.Keyed (c : Container) : Prop := (Table.names c.environment).Nodup

/-- No key stands twice in the tables of a step. -/
structure StepSpec.Keyed (s : StepSpec) : Prop where
  vars : (Table.names s.vars).Nodup
  docker : ∀ c ∈ s.docker, c.Keyed

lemma StepSpec.keyed_iff {s : StepSpec} :
    s.Keyed ↔ (Table.names s.vars).Nodup ∧ ∀ c ∈ s.docker, (Table.names c.environment).Nodup :=
  ⟨fun h => ⟨h.vars, h.docker⟩, fun h => ⟨h.1, h.2⟩⟩

/-- No key stands twice in the tables of a flow and its steps, at any depth. -/
structure Flow.Keyed (f : Flow) : Prop where
  vars : (Table.names f.vars).Nodup
  docker : ∀ c ∈ f.docker, c.Keyed
  steps : Step.AllOf StepSpec.Keyed f.steps

/-- No two rules of one kind have one name. -/
structure StepSpec.RulesNamed (s : StepSpec) : Prop where
  caches : (s.caches.map (·.name)).Nodup
  artifacts : (s.artifacts.map (·.name)).Nodup

/-! ### Reading -/

open Yaml (Document Node Fault)

namespace Yaml.Decode

variable {d : Document} {depth : Nat} {n : Node}

/-- A value that is there was read. -/
lemma mem_of_optional {α : Type} {read : Node → Except Fault α} {v : Option α}
    (h : optional read d n = .ok v) : ∀ a ∈ v, read n = .ok a := by
  have hmap : (read n).map some = .ok v → ∀ a ∈ v, read n = .ok a := by
    intro h a ha
    cases ha
    revert h
    cases read n <;> simp [Except.map]
  rw [optional] at h
  split at h
  · cases h
  · split at h
    · cases h
      simp
    · exact hmap h
  · split at h
    · split at h
      · cases h
        simp
      · cases h
    · exact hmap h
  · exact hmap h

lemma namedTexts_nodup {t : Table String} (h : namedTexts d depth n = .ok t) :
    (Table.names t).Nodup := by
  rw [namedTexts, bind_eq_ok_iff] at h
  obtain ⟨v, hv, h⟩ := h
  have hkeys : (Table.names (v.getD [])).Nodup := by
    cases v with
    | none => exact List.nodup_nil
    | some values =>
      exact (table_spec (P := fun _ => True) (fun _ _ _ => trivial) (mem_of_optional hv _ rfl)).1
  -- every value is written under the name that it has
  have hnames : Table.names (v.getD []) = Table.names t := by
    have hall := mapM_eq_ok_iff.mp h
    clear h hkeys
    generalize v.getD [] = values at hall ⊢
    induction hall with
    | nil => rfl
    | @cons p q _ _ hpq _ ih =>
      have hname : p.1 = q.1 := by
        obtain ⟨name, value⟩ := p
        simp only at hpq
        split at hpq
        · cases hpq
          rfl
        · cases hpq
      rw [Table.names_cons, Table.names_cons, hname, ih]
  rwa [← hnames]

end Yaml.Decode

section Read

variable {d : Document} {depth : Nat} {n : Node}

lemma Container.read_keyed {c : Container} (h : Container.read d depth n = .ok c) : c.Keyed := by
  have hunset : Container.Keyed {} := List.nodup_nil
  refine Yaml.Decode.record_keeps ?_ hunset h
  intro f hf n c c' hc h
  simp only [Container.fields, List.mem_cons, List.not_mem_nil, or_false] at hf
  rcases hf with rfl | rfl | rfl | rfl | rfl | rfl
  case inr.inr.inr.inl =>
    obtain ⟨t, ht, h⟩ := bind_eq_ok_iff.mp h
    cases h
    exact Yaml.Decode.namedTexts_nodup ht
  all_goals
    -- the other fields leave the environment alone
    obtain ⟨v, -, h⟩ := bind_eq_ok_iff.mp h
    cases h
    exact hc

lemma StepSpec.fields_keep : ∀ f ∈ StepSpec.fields d depth, ∀ n s s', StepSpec.Keyed s →
    f.set n s = .ok s' → s'.Keyed := by
  intro f hf n s s' hs h
  simp only [StepSpec.fields, List.mem_cons, List.not_mem_nil, or_false] at hf
  rcases hf with rfl | rfl | rfl | rfl | rfl | rfl | rfl | rfl | rfl | rfl | rfl | rfl | rfl | rfl |
    rfl | rfl | rfl | rfl
  case inl =>
    obtain ⟨t, ht, h⟩ := bind_eq_ok_iff.mp h
    cases h
    exact ⟨Yaml.Decode.namedTexts_nodup ht, hs.docker⟩
  case inr.inr.inl =>
    obtain ⟨v, hv, h⟩ := bind_eq_ok_iff.mp h
    cases h
    exact ⟨hs.vars, fun c hc => Container.read_keyed (Yaml.Decode.mem_of_optional hv c hc)⟩
  all_goals
    -- the other fields leave the tables alone
    obtain ⟨v, -, h⟩ := bind_eq_ok_iff.mp h
    cases h
    exact ⟨hs.vars, hs.docker⟩

lemma Step.fields_all {nested : Node → Except Fault (Table Step)}
    (hnested : ∀ n t, nested n = .ok t → ∀ p ∈ t, p.2.All StepSpec.Keyed) :
    ∀ f ∈ Step.fields nested d depth, ∀ n s s', s.All StepSpec.Keyed → f.set n s = .ok s' →
      s'.All StepSpec.Keyed := by
  intro f hf n s s' hs h
  rw [Step.all_iff] at hs ⊢
  rw [Step.fields, List.mem_cons] at hf
  rcases hf with rfl | hf
  · obtain ⟨t, ht, h⟩ := bind_eq_ok_iff.mp h
    cases h
    exact ⟨hs.1, hnested n t ht⟩
  · obtain ⟨g, hg, rfl⟩ := List.mem_map.mp hf
    obtain ⟨spec, hspec, h⟩ := bind_eq_ok_iff.mp h
    cases h
    exact ⟨StepSpec.fields_keep g hg n _ _ hs.1 hspec, hs.2⟩

theorem Step.read_keyed {s : Step} (h : Step.read d depth n = .ok s) : s.All StepSpec.Keyed := by
  have hunset : Step.All StepSpec.Keyed {} :=
    Step.all_iff.mpr ⟨⟨List.nodup_nil, (fun _ hc => nomatch hc)⟩, by simp⟩
  induction depth using Nat.strongRecOn generalizing n s with
  | ind depth ih =>
    match depth with
    | 0 =>
      rw [Step.read] at h
      refine Yaml.Decode.record_keeps (Step.fields_all ?_) hunset h
      rintro n t ⟨⟩
    | 1 =>
      rw [Step.read] at h
      refine Yaml.Decode.record_keeps (Step.fields_all ?_) hunset h
      intro n t ht
      refine (Yaml.Decode.table_spec ?_ ht).2
      rintro n s ⟨⟩
    | depth + 2 =>
      rw [Step.read] at h
      refine Yaml.Decode.record_keeps (Step.fields_all ?_) hunset h
      intro n t ht
      exact (Yaml.Decode.table_spec (fun n s => ih depth (by omega)) ht).2

lemma Flow.fields_keyed : ∀ f ∈ Flow.fields d depth, ∀ n s s', Flow.Keyed s → f.set n s = .ok s' →
    s'.Keyed := by
  intro f hf n s s' hs h
  simp only [Flow.fields, List.mem_cons, List.not_mem_nil, or_false] at hf
  rcases hf with rfl | rfl | rfl | rfl | rfl | rfl | rfl
  case inr.inr.inl =>
    obtain ⟨t, ht, h⟩ := bind_eq_ok_iff.mp h
    cases h
    exact ⟨Yaml.Decode.namedTexts_nodup ht, hs.docker, hs.steps⟩
  case inr.inr.inr.inr.inl =>
    obtain ⟨v, hv, h⟩ := bind_eq_ok_iff.mp h
    cases h
    exact ⟨hs.vars, fun c hc => Container.read_keyed (Yaml.Decode.mem_of_optional hv c hc), hs.steps⟩
  case inr.inr.inr.inr.inr.inr =>
    obtain ⟨t, ht, h⟩ := bind_eq_ok_iff.mp h
    cases h
    exact ⟨hs.vars, hs.docker,
      Step.allOf_iff.mpr (Yaml.Decode.table_spec (fun n s => Step.read_keyed) ht).2⟩
  all_goals
    -- the other fields leave the tables alone
    obtain ⟨v, -, h⟩ := bind_eq_ok_iff.mp h
    cases h
    exact ⟨hs.vars, hs.docker, hs.steps⟩

lemma Flow.read_keyed {f : Flow} (h : Flow.read d depth n = .ok f) : f.Keyed := by
  have hunset : Flow.Keyed {} :=
    ⟨List.nodup_nil, (fun _ hc => nomatch hc), Step.allOf_iff.mpr (by simp)⟩
  exact Yaml.Decode.record_keeps Flow.fields_keyed hunset h

end Read

/-! ### The check -/

lemma StepSpec.Sound.rulesNamed {s : StepSpec} (h : s.Sound) : s.RulesNamed :=
  ⟨h.caches.names, h.artifacts.names⟩

/-- What the steps of a sound document say about themselves is sound. -/
lemma Step.AllSound.allOf {steps : List (String × Step)} (h : Step.AllSound steps) :
    Step.AllOf StepSpec.Sound steps := by
  rw [Step.allOf_iff_declared]
  induction steps using Step.declared.induct with
  | case1 => simp [Step.declared_nil]
  | case2 key spec inner rest ih_inner ih_rest =>
    rw [Step.AllSound, Step.Sound] at h
    rw [Step.declared_cons, List.forall_mem_cons, List.forall_mem_append]
    exact ⟨h.2.1.1, ih_inner h.2.1.2, ih_rest h.2.2⟩

lemma Flow.check_rulesNamed {f : Flow} (h : f.check = .ok ()) :
    Step.AllOf StepSpec.RulesNamed f.steps := by
  have hsound := (Flow.check_eq_ok_iff.mp h).steps.allOf
  rw [Step.allOf_iff_declared] at hsound ⊢
  exact fun d hd => (hsound d hd).rulesNamed

/-! ### Documents -/

/-- A flow document as it is when it was read: no name stands twice in one of its tables, and it passes
the check. -/
structure Flow.Checked (f : Flow) : Prop where
  distinct : f.Distinct
  keyed : f.Keyed
  check : f.check = .ok ()

/-- **Every document that was read** is checked. -/
theorem Flow.parse_checked {text : String} {f : Flow} (h : Flow.parse text = .ok f) :
    f.Checked := by
  have hdistinct := Flow.parse_distinct h
  rw [Flow.parse] at h
  split at h
  · cases h
  · split at h
    · cases h
    · next flow hread =>
      split at h
      · cases h
      · next hcheck =>
        cases h
        refine ⟨hdistinct, ?_, hcheck⟩
        rw [Yaml.Decode.only] at hread
        obtain ⟨g, hg, hread⟩ := bind_eq_ok_iff.mp hread
        split at hread
        · cases hread
          exact Flow.read_keyed hg
        · cases hread
        · cases hread

end StepFlow

import StepFlow.Proofs.Merge.Documents

/-!
Merging keeps what the check asks for. The check is made on every document alone and never on what
comes out of a merge, and it need not be: a name, a time limit or a rule of the result stands in one
of the two documents, and rules are united by name (`Flow.merge_sound`). So whatever texts a flow is
loaded from, it passes the check (`Flow.load_sound`).
-/

namespace StepFlow

namespace Merge

variable {address : List String}

/-- A single value of the result is one of the overlay or of the base. -/
lemma eq_some_of_scalar {α : Type} {b o : Option α} {v : α} (h : scalar b o = some v) :
    b = some v ∨ o = some v := by
  cases o with
  | none => exact Or.inl h
  | some w => exact Or.inr h

lemma rules_sound {b o r : List FileRule} (hb : FileRule.AllSound b) (ho : FileRule.AllSound o)
    (h : rules address b o = .ok r) : FileRule.AllSound r := by
  rw [rules_eq_unite] at h
  obtain ⟨rfl, -⟩ := (unite_eq_ok_iff _ _).mp h
  refine ⟨?_, nodup_union _ hb.names o⟩
  intro x hx
  rcases mem_or_mem_of_mem_union _ hx with hx | hx
  · exact hb.sound x hx
  · exact ho.sound x hx

lemma spec_sound {b o r : StepSpec} (hb : b.Sound) (ho : o.Sound)
    (h : spec address b o = .ok r) : r.Sound := by
  obtain ⟨_, -, _, -, caches, hcaches, artifacts, hartifacts, rfl⟩ := spec_eq_ok_iff.mp h
  refine ⟨?_, rules_sound hb.caches ho.caches hcaches,
    rules_sound hb.artifacts ho.artifacts hartifacts⟩
  intro hzero
  rcases eq_some_of_scalar hzero with hzero | hzero
  · exact hb.timeout hzero
  · exact ho.timeout hzero

/-- A step that is entered under a valid name keeps the steps of a list sound. -/
lemma allSound_insert {b : Table Step} (hb : Step.AllSound b) {name : String} {s : Step}
    (hname : Name.valid name = true) (hs : s.Sound) : Step.AllSound (b.insert name s) := by
  induction b with
  | nil => exact ⟨hname, hs, trivial⟩
  | cons p b ih =>
    obtain ⟨n, t⟩ := p
    rw [Step.AllSound] at hb
    rw [Table.insert]
    split
    · exact ⟨hb.1, hs, hb.2.2⟩
    · exact ⟨hb.1, hb.2.1, ih hb.2.2⟩

mutual

/-- A merged step is sound when both sides are. -/
theorem step_sound {address : List String} {b : Step} (hb : b.Sound) :
    (o : Step) → o.Sound → ∀ {r}, step address b o = .ok r → r.Sound
  | ⟨spec, inner⟩, ho, ⟨rspec, rinner⟩, h => by
    obtain ⟨bspec, binner⟩ := b
    rw [Step.Sound] at hb ho ⊢
    obtain ⟨hspec, hinner⟩ := step_eq_ok_iff.mp h
    exact ⟨spec_sound hb.1 ho.1 hspec, steps_sound hb.2 inner ho.2 hinner⟩

theorem steps_sound {address : List String} {b : Table Step} (hb : Step.AllSound b) :
    (o : List (String × Step)) → Step.AllSound o → ∀ {r}, steps address b o = .ok r →
      Step.AllSound r
  | [], _, r, h => by
    rw [steps] at h
    cases h
    exact hb
  | (name, s) :: o, ho, r, h => by
    rw [Step.AllSound] at ho
    obtain ⟨hname, hs, ho⟩ := ho
    obtain ⟨m, hm, hr⟩ := steps_cons_eq_ok_iff.mp h
    have hmerged : m.Sound := by
      cases hbase : b.get? name with
      | none =>
        rw [hbase, optional_none_left] at hm
        cases hm
        exact hs
      | some x =>
        rw [hbase, optional_some_eq_ok_iff] at hm
        obtain ⟨_, hm, h⟩ := hm
        cases h
        exact step_sound (Step.allSound_iff.mp hb _ (Table.mem_of_get? hbase)).2 s hs hm
    exact steps_sound (allSound_insert hb hname hmerged) o ho hr

end

end Merge

namespace Flow

lemma sound_empty : Flow.Sound {} := ⟨by simp, trivial⟩

/-- **A merged document** is sound when both sides are. -/
theorem merge_sound {b o r : Flow} (hb : b.Sound) (ho : o.Sound) (h : b.merge o = .ok r) :
    r.Sound := by
  obtain ⟨_, -, _, -, _, -, s, hs, rfl⟩ := merge_eq_ok_iff.mp h
  refine ⟨?_, Merge.steps_sound hb.steps o.steps ho.steps hs⟩
  intro n hn
  rcases Merge.eq_some_of_scalar hn with hn | hn
  · exact hb.name n hn
  · exact ho.name n hn

/-- **Whatever texts a flow is loaded from**, it is sound. -/
theorem load_sound {texts : List String} {r : Flow} (h : load texts = .ok r) : r.Sound :=
  loadOnto_keeps (fun hf hnext => merge_sound hf (check_eq_ok_iff.mp hnext.check)) sound_empty h

end Flow

end StepFlow

import StepFlow.Flow.Load
import StepFlow.Proofs.Outcome
import StepFlow.Proofs.Table

/-!
In a flow document no two steps beside each other have one name. That is so for every document
that was read (`Flow.parse_distinct`): a repeated name keeps its place and gets the last step.
-/

namespace StepFlow

mutual

/-- No name stands twice beside another one, inside the step or deeper. -/
def Step.Distinct : Step → Prop
  | ⟨_, inner⟩ => (Table.names inner).Nodup ∧ Step.AllDistinct inner

/-- The steps of a list are distinct inside. -/
def Step.AllDistinct : List (String × Step) → Prop
  | [] => True
  | (_, s) :: rest => s.Distinct ∧ Step.AllDistinct rest

end

/-- No step name of the flow stands twice beside another one, at any depth. -/
def Flow.Distinct (f : Flow) : Prop := (Table.names f.steps).Nodup ∧ Step.AllDistinct f.steps

lemma Step.AllDistinct.get {t : Table Step} (h : Step.AllDistinct t) {n : String} {s : Step}
    (hs : Table.get? n t = some s) : s.Distinct := by
  induction t with
  | nil => cases hs
  | cons p t ih =>
    rw [Step.AllDistinct] at h
    rw [Table.get?_cons] at hs
    split at hs
    · cases hs
      exact h.1
    · exact ih h.2 hs

/-! ### Reading -/

namespace Table

variable {α : Type} {P : α → Prop}

lemma forall_insert {t : Table α} (h : ∀ p ∈ t, P p.2) {name : String} {v : α} (hv : P v) :
    ∀ p ∈ insert name v t, P p.2 := by
  induction t with
  | nil => simpa [insert] using hv
  | cons q t ih =>
    rw [List.forall_mem_cons] at h
    rw [insert]
    split
    · exact List.forall_mem_cons.mpr ⟨hv, h.2⟩
    · exact List.forall_mem_cons.mpr ⟨h.1, ih h.2⟩

/-- What pairs have in common holds of their table, in which no name stands twice. -/
lemma forall_ofPairs {pairs : List (String × α)} (h : ∀ p ∈ pairs, P p.2) :
    (names (ofPairs pairs)).Nodup ∧ ∀ p ∈ ofPairs pairs, P p.2 := by
  have hfold : ∀ t : Table α, (names t).Nodup → (∀ p ∈ t, P p.2) →
      (names (pairs.foldl (fun t p => insert p.1 p.2 t) t)).Nodup ∧
        ∀ p ∈ pairs.foldl (fun t p => insert p.1 p.2 t) t, P p.2 := by
    induction pairs with
    | nil => exact fun t hn ht => ⟨hn, ht⟩
    | cons p pairs ih =>
      rw [List.forall_mem_cons] at h
      intro t hn ht
      exact ih h.2 _ (nodup_insert hn p.1 p.2) (forall_insert ht h.1)
  exact hfold [] List.nodup_nil (by simp)

end Table

namespace Yaml.Decode

/-- A table holds what its reader gives, under names that stand there once. -/
lemma table_spec {α : Type} {P : α → Prop} {read : Node → Except Fault α} {d : Document}
    {depth : Nat} {n : Node} {t : Table α} (hread : ∀ n v, read n = .ok v → P v)
    (h : table read d depth n = .ok t) : (Table.names t).Nodup ∧ ∀ p ∈ t, P p.2 := by
  simp only [table, bind_eq_ok_iff, pure_eq_ok_iff] at h
  obtain ⟨es, -, pairs, hpairs, rfl⟩ := h
  apply Table.forall_ofPairs
  intro p hp
  obtain ⟨e, -, he⟩ := exists_of_mem_mapM hpairs hp
  simp only [bind_eq_ok_iff, pure_eq_ok_iff] at he
  obtain ⟨name, -, v, hv, rfl⟩ := he
  exact hread e.2 v hv

/-- What every field keeps, the record keeps. -/
lemma fill_keeps {σ : Type} {P : σ → Prop} {d : Document} {fields : List (RecordField σ)}
    (hfields : ∀ f ∈ fields, ∀ n r r', P r → f.set n r = .ok r' → P r') {seen : List String}
    {r r' : σ} {es : List (Node × Node)} (hr : P r) (h : fill d fields seen r es = .ok r') :
    P r' := by
  induction es generalizing seen r with
  | nil =>
    rw [fill] at h
    cases h
    exact hr
  | cons e es ih =>
    obtain ⟨k, v⟩ := e
    simp only [fill, bind_eq_ok_iff] at h
    obtain ⟨key, -, h⟩ := h
    split at h
    · cases h
    · next f hf =>
      split at h
      · cases h
      · obtain ⟨r₁, hr₁, h⟩ := bind_eq_ok_iff.mp h
        exact ih (hfields f (List.mem_of_find?_eq_some hf) v r r₁ hr hr₁) h

lemma record_keeps {σ : Type} {P : σ → Prop} {d : Document} {fields : List (RecordField σ)}
    (hfields : ∀ f ∈ fields, ∀ n r r', P r → f.set n r = .ok r' → P r') {unset r : σ}
    {depth : Nat} {n : Node} (hunset : P unset) (h : record d fields unset depth n = .ok r) :
    P r := by
  rw [record, bind_eq_ok_iff] at h
  obtain ⟨es, -, h⟩ := h
  exact fill_keeps hfields hunset h

end Yaml.Decode

open Yaml (Document Node Fault)
open Yaml.Decode (RecordField)

lemma Step.allDistinct_iff {t : Table Step} : Step.AllDistinct t ↔ ∀ p ∈ t, p.2.Distinct := by
  induction t with
  | nil => simp [Step.AllDistinct]
  | cons p t ih => rw [Step.AllDistinct, ih, List.forall_mem_cons]

lemma Step.distinct_iff {s : Step} :
    s.Distinct ↔ (Table.names s.steps).Nodup ∧ ∀ p ∈ s.steps, p.2.Distinct := by
  obtain ⟨spec, steps⟩ := s
  rw [Step.Distinct, Step.allDistinct_iff]

lemma Step.fields_keep {nested : Node → Except Fault (Table Step)} {d : Document} {depth : Nat}
    (hnested : ∀ n t, nested n = .ok t → (Table.names t).Nodup ∧ ∀ p ∈ t, p.2.Distinct) :
    ∀ f ∈ Step.fields nested d depth, ∀ n s s', s.Distinct → f.set n s = .ok s' → s'.Distinct := by
  intro f hf n s s' hs h
  rw [Step.fields, List.mem_cons] at hf
  rcases hf with rfl | hf
  · obtain ⟨t, ht, h⟩ := bind_eq_ok_iff.mp h
    cases h
    exact Step.distinct_iff.mpr (hnested n t ht)
  · -- the other fields leave the nested steps alone
    obtain ⟨g, -, rfl⟩ := List.mem_map.mp hf
    obtain ⟨spec, -, h⟩ := bind_eq_ok_iff.mp h
    cases h
    rw [Step.distinct_iff] at hs ⊢
    exact hs

theorem Step.read_distinct {d : Document} {depth : Nat} {n : Node} {s : Step}
    (h : Step.read d depth n = .ok s) : s.Distinct := by
  have hunset : Step.Distinct {} := Step.distinct_iff.mpr ⟨List.nodup_nil, by simp⟩
  induction depth using Nat.strongRecOn generalizing n s with
  | ind depth ih =>
    match depth with
    | 0 =>
      rw [Step.read] at h
      refine Yaml.Decode.record_keeps (Step.fields_keep ?_) hunset h
      rintro n t ⟨⟩
    | 1 =>
      rw [Step.read] at h
      refine Yaml.Decode.record_keeps (Step.fields_keep ?_) hunset h
      intro n t ht
      refine Yaml.Decode.table_spec ?_ ht
      rintro n s ⟨⟩
    | depth + 2 =>
      rw [Step.read] at h
      refine Yaml.Decode.record_keeps (Step.fields_keep ?_) hunset h
      intro n t ht
      exact Yaml.Decode.table_spec (fun n s => ih depth (by omega)) ht

lemma Flow.distinct_empty : Flow.Distinct {} :=
  ⟨List.nodup_nil, Step.allDistinct_iff.mpr (by simp)⟩

lemma Flow.fields_keep {d : Document} {depth : Nat} :
    ∀ f ∈ Flow.fields d depth, ∀ n s s', Flow.Distinct s → f.set n s = .ok s' → s'.Distinct := by
  intro f hf n s s' hs h
  simp only [Flow.fields, List.mem_cons, List.not_mem_nil, or_false] at hf
  rcases hf with rfl | rfl | rfl | rfl | rfl | rfl | rfl
  case inr.inr.inr.inr.inr.inr =>
    obtain ⟨t, ht, h⟩ := bind_eq_ok_iff.mp h
    cases h
    have := Yaml.Decode.table_spec (fun n s => Step.read_distinct) ht
    exact ⟨this.1, Step.allDistinct_iff.mpr this.2⟩
  all_goals
    -- the other fields leave the steps alone
    obtain ⟨v, -, h⟩ := bind_eq_ok_iff.mp h
    cases h
    exact hs

/-- No step name stands twice beside another one in a document that was read. -/
theorem Flow.parse_distinct {text : String} {f : Flow} (h : Flow.parse text = .ok f) :
    f.Distinct := by
  rw [Flow.parse] at h
  split at h
  · cases h
  · split at h
    · cases h
    · next flow hread =>
      split at h
      · cases h
      · cases h
        rw [Yaml.Decode.only] at hread
        obtain ⟨g, hg, hread⟩ := bind_eq_ok_iff.mp hread
        have hgf : g = f := by
          split at hread
          · cases hread
            rfl
          · cases hread
          · cases hread
        rw [← hgf]
        exact Yaml.Decode.record_keeps Flow.fields_keep Flow.distinct_empty hg

end StepFlow

import StepFlow.Proofs.Flow.Distinct
import StepFlow.Proofs.Merge.Fields

/-!
Nested steps are merged name by name: the names of the result are united as the items of a list
are, and under each name stands what the two sides have there, merged if both have it
(`steps_eq_ok_iff`). With that, steps associate when the steps inside them do, and the induction
goes down the three documents at once: where all three have a step, they have it at the same
address.
-/

namespace StepFlow

namespace Merge

/-! ### Steps by their names -/

section Names

variable {address : List String}

/-- One step of the walk: what stands under the name is merged, or entered as it is. -/
lemma steps_cons_eq_ok_iff {b : Table Step} {name : String} {s : Step} {o : List (String × Step)}
    {r : Table Step} :
    steps address b ((name, s) :: o) = .ok r ↔
      ∃ m, optional (step (address ++ [name])) (b.get? name) (some s) = .ok (some m) ∧
        steps address (b.insert name m) o = .ok r := by
  rw [steps]
  cases hb : b.get? name with
  | none =>
    rw [optional_none_left, ← Table.insert_of_not_mem (Table.get?_eq_none_iff.mp hb)]
    simp
  | some x =>
    simp only [bind_eq_ok_iff, optional_some_eq_ok_iff, Option.some.injEq, exists_eq_right]

lemma names_insert (b : Table Step) (name : String) (m : Step) (o : List String) :
    list (Table.names (b.insert name m)) o = list (Table.names b) (name :: o) := by
  rw [Table.names_insert, list]
  split <;> rfl

/-- A name that was entered is not met again, so what is merged under each name stays the same. -/
lemma optional_insert {b o : Table Step} {name : String} {s m : Step} (ho : name ∉ Table.names o)
    (hm : optional (step (address ++ [name])) (b.get? name) (some s) = .ok (some m)) (n : String) :
    optional (step (address ++ [n])) ((b.insert name m).get? n) (o.get? n) =
      optional (step (address ++ [n])) (b.get? n) (Table.get? n ((name, s) :: o)) := by
  rw [Table.get?_insert, Table.get?_cons]
  by_cases hn : name = n
  · subst hn
    rw [if_pos rfl, if_pos rfl, Table.get?_eq_none_iff.mpr ho, hm, optional_none_right]
  · rw [if_neg hn, if_neg hn]

lemma steps_eq_ok {b o r : Table Step} (ho : (Table.names o).Nodup)
    (h : steps address b o = .ok r) :
    Table.names r = list (Table.names b) (Table.names o) ∧
      ∀ n, optional (step (address ++ [n])) (b.get? n) (o.get? n) = .ok (r.get? n) := by
  induction o generalizing b with
  | nil =>
    rw [steps] at h
    cases h
    exact ⟨rfl, fun n => optional_none_right _⟩
  | cons p o ih =>
    obtain ⟨name, s⟩ := p
    rw [Table.names_cons, List.nodup_cons] at ho
    obtain ⟨m, hm, hr⟩ := steps_cons_eq_ok_iff.mp h
    obtain ⟨hnames, hget⟩ := ih ho.2 hr
    refine ⟨hnames.trans (names_insert b name m _), ?_⟩
    intro n
    rw [← optional_insert ho.1 hm n]
    exact hget n

/-- Steps can be merged when those under one name can. -/
lemma exists_steps {b o : Table Step} (ho : (Table.names o).Nodup)
    (h : ∀ n, ∃ v, optional (step (address ++ [n])) (b.get? n) (o.get? n) = .ok v) :
    ∃ r, steps address b o = .ok r := by
  induction o generalizing b with
  | nil => exact ⟨b, by rw [steps]⟩
  | cons p o ih =>
    obtain ⟨name, s⟩ := p
    rw [Table.names_cons, List.nodup_cons] at ho
    obtain ⟨v, hv⟩ := h name
    rw [Table.get?_cons, if_pos rfl] at hv
    obtain ⟨m, rfl⟩ : ∃ m, v = some m :=
      Option.isSome_iff_exists.mp ((isSome_of_optional hv).mpr (Or.inr rfl))
    have hrest : ∀ n, ∃ v, optional (step (address ++ [n])) ((b.insert name m).get? n)
        (Table.get? n o) = .ok v := by
      intro n
      rw [optional_insert ho.1 hv n]
      exact h n
    obtain ⟨r, hr⟩ := ih ho.2 hrest
    exact ⟨r, steps_cons_eq_ok_iff.mpr ⟨m, hv, hr⟩⟩

/-- Steps whose names are all new are put behind those of the base. -/
lemma steps_of_new {b o : Table Step} (ho : (Table.names o).Nodup)
    (hnew : ∀ n ∈ Table.names o, n ∉ Table.names b) : steps address b o = .ok (b ++ o) := by
  induction o generalizing b with
  | nil => rw [steps, List.append_nil]
  | cons p o ih =>
    obtain ⟨name, s⟩ := p
    rw [Table.names_cons, List.nodup_cons] at ho
    rw [Table.names_cons, List.forall_mem_cons] at hnew
    rw [steps, Table.get?_eq_none_iff.mpr hnew.1]
    have hrest : ∀ n ∈ Table.names o, n ∉ Table.names (b ++ [(name, s)]) := by
      intro n hn hmem
      rw [Table.names, List.map_append, List.mem_append] at hmem
      rcases hmem with hmem | hmem
      · exact hnew.2 n hn hmem
      · rw [List.map_singleton, List.mem_singleton] at hmem
        exact ho.1 (hmem ▸ hn)
    simp only [ih ho.2 hrest, List.append_assoc, List.singleton_append]

lemma nodup_list {b : List String} (hb : b.Nodup) (o : List String) : (list b o).Nodup := by
  rw [list_eq_union]
  simpa using nodup_union id (by simpa using hb) o

/-- Merged steps, name by name. -/
theorem steps_eq_ok_iff {b o r : Table Step} (hb : (Table.names b).Nodup)
    (ho : (Table.names o).Nodup) :
    steps address b o = .ok r ↔
      Table.names r = list (Table.names b) (Table.names o) ∧
        ∀ n, optional (step (address ++ [n])) (b.get? n) (o.get? n) = .ok (r.get? n) := by
  constructor
  · exact steps_eq_ok ho
  · rintro ⟨hnames, hget⟩
    obtain ⟨r', hr'⟩ := exists_steps ho fun n => ⟨r.get? n, hget n⟩
    obtain ⟨hnames', hget'⟩ := steps_eq_ok ho hr'
    have hsame : r' = r := by
      apply Table.ext (hnames' ▸ nodup_list hb _) (hnames'.trans hnames.symm)
      intro n
      exact Except.ok.inj ((hget' n).symm.trans (hget n))
    rw [hr', hsame]

/-- A merge that is known name by name, with what is known of each result. -/
lemma steps_of_forall {b o : Table Step} (hb : (Table.names b).Nodup) (ho : (Table.names o).Nodup)
    {P : String → Option Step → Prop}
    (h : ∀ n, ∃ v, optional (step (address ++ [n])) (b.get? n) (o.get? n) = .ok v ∧ P n v) :
    ∃ r, steps address b o = .ok r ∧ (Table.names r).Nodup ∧
      Table.names r = list (Table.names b) (Table.names o) ∧ ∀ n, P n (r.get? n) := by
  obtain ⟨r, hr⟩ := exists_steps ho fun n => (h n).imp fun _ => And.left
  obtain ⟨hnames, hget⟩ := steps_eq_ok ho hr
  refine ⟨r, hr, hnames ▸ nodup_list hb _, hnames, ?_⟩
  intro n
  obtain ⟨v, hv, hP⟩ := h n
  rw [hget n] at hv
  cases hv
  exact hP

/-- Steps associate when those under one name do. -/
theorem steps_associates {a b c : Table Step} (ha : (Table.names a).Nodup)
    (hb : (Table.names b).Nodup) (hc : (Table.names c).Nodup)
    (h : ∀ n x y z, a.get? n = some x → b.get? n = some y → c.get? n = some z →
      Associates (step (address ++ [n])) x y z) :
    Associates (steps address) a b c := by
  have hat : ∀ n, Associates (optional (step (address ++ [n]))) (a.get? n) (b.get? n) (c.get? n) :=
    fun n => optional_associates (h n)
  intro r
  constructor
  · rintro ⟨ab, hab, hr⟩
    obtain ⟨hab_names, hab_get⟩ := steps_eq_ok hb hab
    obtain ⟨hr_names, hr_get⟩ := steps_eq_ok hc hr
    obtain ⟨bc, hbc, hnodup, hbc_names, hbc_get⟩ := steps_of_forall hb hc
      fun n => (hat n (r.get? n)).mp ⟨ab.get? n, hab_get n, hr_get n⟩
    refine ⟨bc, hbc, (steps_eq_ok_iff ha hnodup).mpr ⟨?_, hbc_get⟩⟩
    rw [hr_names, hab_names, hbc_names, list_assoc]
  · rintro ⟨bc, hbc, hr⟩
    obtain ⟨hbc_names, hbc_get⟩ := steps_eq_ok hc hbc
    obtain ⟨hr_names, hr_get⟩ := steps_eq_ok (hbc_names ▸ nodup_list hb _) hr
    obtain ⟨ab, hab, hnodup, hab_names, hab_get⟩ := steps_of_forall ha hb
      fun n => (hat n (r.get? n)).mpr ⟨bc.get? n, hbc_get n, hr_get n⟩
    refine ⟨ab, hab, (steps_eq_ok_iff hnodup hc).mpr ⟨?_, hab_get⟩⟩
    rw [hr_names, hab_names, hbc_names, list_assoc]

end Names

/-! ### Steps inside steps -/

lemma step_eq_ok_iff {address : List String} {b o r : Step} :
    step address b o = .ok r ↔
      spec address b.spec o.spec = .ok r.spec ∧
        steps (address ++ ["steps"]) b.steps o.steps = .ok r.steps := by
  obtain ⟨o, inner⟩ := o
  obtain ⟨r, rinner⟩ := r
  rw [step]
  simp only [bind_eq_ok_iff]
  constructor
  · rintro ⟨s, hs, t, ht, h⟩
    cases h
    exact ⟨hs, ht⟩
  · rintro ⟨hs, ht⟩
    exact ⟨r, hs, rinner, ht, rfl⟩

/-- A step associates when what is inside it does. -/
lemma step_associates_of {address : List String} {a b c : Step}
    (h : Associates (steps (address ++ ["steps"])) a.steps b.steps c.steps) :
    Associates (step address) a b c := by
  intro r
  have hs := spec_associates address a.spec b.spec c.spec r.spec
  have ht := h r.steps
  simp only [step_eq_ok_iff]
  constructor
  · rintro ⟨ab, ⟨hab, hab'⟩, hr, hr'⟩
    obtain ⟨s, hs₁, hs₂⟩ := hs.mp ⟨ab.spec, hab, hr⟩
    obtain ⟨t, ht₁, ht₂⟩ := ht.mp ⟨ab.steps, hab', hr'⟩
    exact ⟨⟨s, t⟩, ⟨hs₁, ht₁⟩, hs₂, ht₂⟩
  · rintro ⟨bc, ⟨hbc, hbc'⟩, hr, hr'⟩
    obtain ⟨s, hs₁, hs₂⟩ := hs.mpr ⟨bc.spec, hbc, hr⟩
    obtain ⟨t, ht₁, ht₂⟩ := ht.mpr ⟨bc.steps, hbc', hr'⟩
    exact ⟨⟨s, t⟩, ⟨hs₁, ht₁⟩, hs₂, ht₂⟩

mutual

/-- Steps associate, with all that is inside them. -/
theorem step_associates (address : List String) {a b : Step} (ha : a.Distinct) (hb : b.Distinct) :
    (c : Step) → c.Distinct → Associates (step address) a b c
  | ⟨spec, inner⟩, hc => by
    obtain ⟨sa, ia⟩ := a
    obtain ⟨sb, ib⟩ := b
    rw [Step.Distinct] at ha hb hc
    apply step_associates_of
    apply steps_associates ha.1 hb.1 hc.1
    intro n x y z hx hy hz
    exact inner_associates _ (ha.2.get hx) (hb.2.get hy) inner hc.2 hz

theorem inner_associates (address : List String) {a b : Step} (ha : a.Distinct) (hb : b.Distinct) :
    (l : List (String × Step)) → Step.AllDistinct l → ∀ {n c}, Table.get? n l = some c →
      Associates (step address) a b c
  | [], _, _, _, h => by cases h
  | (name, s) :: rest, hl, n, c, h => by
    rw [Step.AllDistinct] at hl
    rw [Table.get?_cons] at h
    split at h
    · cases h
      exact step_associates address ha hb s hl.1
    · exact inner_associates address ha hb rest hl.2 h

end

mutual

/-- A merged step is distinct when both sides are. -/
theorem step_distinct {address : List String} {b : Step} (hb : b.Distinct) :
    (o : Step) → o.Distinct → ∀ {r}, step address b o = .ok r → r.Distinct
  | ⟨spec, inner⟩, ho, r, h => by
    rw [Step.distinct_iff] at hb
    rw [Step.Distinct] at ho
    have hinner := steps_distinct hb inner ho.2 (step_eq_ok_iff.mp h).2
    exact Step.distinct_iff.mpr hinner

theorem steps_distinct {address : List String} {b : Table Step}
    (hb : (Table.names b).Nodup ∧ ∀ p ∈ b, p.2.Distinct) :
    (o : List (String × Step)) → Step.AllDistinct o → ∀ {r}, steps address b o = .ok r →
      (Table.names r).Nodup ∧ ∀ p ∈ r, p.2.Distinct
  | [], _, r, h => by
    rw [steps] at h
    cases h
    exact hb
  | (name, s) :: o, ho, r, h => by
    rw [Step.AllDistinct] at ho
    obtain ⟨m, hm, hr⟩ := steps_cons_eq_ok_iff.mp h
    have hmerged : m.Distinct := by
      cases hname : b.get? name with
      | none =>
        rw [hname, optional_none_left] at hm
        cases hm
        exact ho.1
      | some x =>
        rw [hname, optional_some_eq_ok_iff] at hm
        obtain ⟨_, hm, h⟩ := hm
        cases h
        exact step_distinct (hb.2 _ (Table.mem_of_get? hname)) s ho.1 hm
    exact steps_distinct ⟨Table.nodup_insert hb.1 name m, Table.forall_insert hb.2 hmerged⟩
      o ho.2 hr

end

end Merge

end StepFlow

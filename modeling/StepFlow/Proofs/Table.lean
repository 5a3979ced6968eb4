import Mathlib.Data.List.Basic
import Mathlib.Data.List.Nodup
import Mathlib.Tactic.Lemma
import StepFlow.Table

/-!
Tables by their names and values: a table in which no name stands twice is given by the order of
its names and the value of each (`ext`), and entering a value changes the one and keeps the other.
-/

namespace StepFlow.Table

variable {α : Type}

@[simp] lemma get?_nil (n : String) : get? n ([] : Table α) = none := rfl

lemma get?_cons (n name : String) (v : α) (t : Table α) :
    get? n ((name, v) :: t) = if name = n then some v else get? n t := rfl

@[simp] lemma names_nil : names ([] : Table α) = [] := rfl

@[simp] lemma names_cons (p : String × α) (t : Table α) : names (p :: t) = p.1 :: names t := rfl

lemma get?_eq_none_iff {n : String} {t : Table α} : get? n t = none ↔ n ∉ names t := by
  induction t with
  | nil => simp
  | cons p t ih =>
    rw [get?_cons, names_cons, List.mem_cons]
    by_cases h : p.1 = n
    · simp [h]
    · simp [h, ih, Ne.symm h]

lemma mem_of_get? {n : String} {v : α} {t : Table α} (h : get? n t = some v) : (n, v) ∈ t := by
  induction t with
  | nil => cases h
  | cons p t ih =>
    rw [get?_cons] at h
    split at h
    case isTrue hp =>
      cases h
      exact List.mem_cons.mpr (Or.inl (Prod.ext hp.symm rfl))
    case isFalse => exact List.mem_cons_of_mem p (ih h)

lemma get?_of_mem {n : String} {v : α} {t : Table α} (h : (names t).Nodup) (hmem : (n, v) ∈ t) :
    get? n t = some v := by
  induction t with
  | nil => cases hmem
  | cons p t ih =>
    rw [names_cons, List.nodup_cons] at h
    rw [get?_cons]
    rcases List.mem_cons.mp hmem with rfl | hmem
    · rw [if_pos rfl]
    · rw [if_neg, ih h.2 hmem]
      rintro rfl
      exact h.1 (List.mem_map.mpr ⟨_, hmem, rfl⟩)

lemma get?_insert (name n : String) (v : α) (t : Table α) :
    get? n (insert name v t) = if name = n then some v else get? n t := by
  induction t with
  | nil => rfl
  | cons p t ih =>
    rw [insert]
    by_cases hp : p.1 = name
    · rw [if_pos hp, get?_cons, get?_cons, hp]
      split <;> rfl
    · rw [if_neg hp, get?_cons, get?_cons, ih]
      by_cases hn : p.1 = n
      · have : name ≠ n := fun h => hp (hn.trans h.symm)
        simp [hn, this]
      · simp [hn]

lemma names_insert (name : String) (v : α) (t : Table α) :
    names (insert name v t) = if name ∈ names t then names t else names t ++ [name] := by
  induction t with
  | nil => rfl
  | cons p t ih =>
    rw [insert]
    by_cases hp : p.1 = name
    · simp [hp]
    · rw [if_neg hp, names_cons, names_cons, ih]
      by_cases ht : name ∈ names t
      · simp [ht]
      · simp [ht, Ne.symm hp]

lemma insert_of_not_mem {name : String} {t : Table α} (h : name ∉ names t) (v : α) :
    insert name v t = t ++ [(name, v)] := by
  induction t with
  | nil => rfl
  | cons p t ih =>
    rw [names_cons, List.mem_cons, not_or] at h
    rw [insert, if_neg (Ne.symm h.1), ih h.2, List.cons_append]

lemma nodup_insert {t : Table α} (h : (names t).Nodup) (name : String) (v : α) :
    (names (insert name v t)).Nodup := by
  rw [names_insert]
  split
  · exact h
  case isFalse hname =>
    rw [List.nodup_append]
    refine ⟨h, by simp, ?_⟩
    rintro n hn _ hn' rfl
    rw [List.mem_singleton] at hn'
    exact hname (hn' ▸ hn)

/-- Pairs in which no name stands twice are the table that they make. -/
lemma ofPairs_of_nodup {t : Table α} (h : (names t).Nodup) : ofPairs t = t := by
  have hfold : ∀ l t' : Table α, (names (t' ++ l)).Nodup →
      l.foldl (fun t p => insert p.1 p.2 t) t' = t' ++ l := by
    intro l
    induction l with
    | nil => exact fun t' _ => (List.append_nil t').symm
    | cons p l ih =>
      intro t' h
      have hnew : p.1 ∉ names t' := by
        rw [names, List.map_append, List.nodup_append] at h
        exact fun hmem => h.2.2 _ hmem _ List.mem_cons_self rfl
      rw [List.foldl_cons, insert_of_not_mem hnew, ih _ (by rwa [List.append_assoc]),
        List.append_assoc]
      rfl
  exact hfold t [] h

/-- A table is given by its names in their order and by the values they have. -/
theorem ext {t t' : Table α} (h : (names t).Nodup) (hn : names t = names t')
    (hv : ∀ n, get? n t = get? n t') : t = t' := by
  induction t generalizing t' with
  | nil =>
    cases t' with
    | nil => rfl
    | cons p t' => cases hn
  | cons p t ih =>
    cases t' with
    | nil => cases hn
    | cons q t' =>
      obtain ⟨name, v⟩ := p
      obtain ⟨name', v'⟩ := q
      simp only [names_cons, List.cons.injEq] at hn
      obtain ⟨rfl, hn⟩ := hn
      rw [names_cons, List.nodup_cons] at h
      have hvv : v = v' := by simpa [get?_cons] using hv name
      have htt : t = t' := by
        apply ih h.2 hn
        intro n
        by_cases hname : name = n
        · subst hname
          rw [get?_eq_none_iff.mpr h.1, get?_eq_none_iff.mpr (hn ▸ h.1)]
        · simpa [get?_cons, hname] using hv n
      rw [hvv, htt]

end StepFlow.Table

import Mathlib.Data.List.Basic
import Mathlib.Tactic.Lemma
import StepFlow.Flow.Merge

/-!
Lists that are united entry by entry. Every list of a document is united under a key: the items of
a plain list under themselves, values under their name, file rules under theirs. `union` is what
comes out, `unite` is the walk that stops at an entry which differs from the first one of its key.
That walk gives the union, and it succeeds just when every entry of the overlay is the first one of
its key in the union (`unite_eq_ok_iff`); from this it associates, failures included.
-/

namespace StepFlow.Merge

/-- Two ways to lay `a`, `b` and `c` over each other with a merge that may fail, `b` first over `a`
or `c` first over `b`: they succeed together and give the same. -/
def Associates {ε α : Type} (m : α → α → Except ε α) (a b c : α) : Prop :=
  ∀ r, (∃ ab, m a b = .ok ab ∧ m ab c = .ok r) ↔ ∃ bc, m b c = .ok bc ∧ m a bc = .ok r

section Union

variable {κ β : Type} [DecidableEq κ] (key : β → κ)

/-- The entries of the base, and those of the overlay whose key is not there yet. -/
def union (base : List β) : List β → List β
  | [] => base
  | x :: r => if key x ∈ base.map key then union base r else union (base ++ [x]) r

lemma union_append (base o o' : List β) :
    union key base (o ++ o') = union key (union key base o) o' := by
  induction o generalizing base with
  | nil => rfl
  | cons x o ih =>
    simp only [List.cons_append, union]
    split <;> exact ih _

lemma mem_keys_union {k : κ} {base o : List β} :
    k ∈ (union key base o).map key ↔ k ∈ base.map key ∨ k ∈ o.map key := by
  induction o generalizing base with
  | nil => simp [union]
  | cons x o ih =>
    simp only [union, List.map_cons, List.mem_cons]
    split
    case isTrue h =>
      rw [ih]
      constructor
      · rintro (hk | hk)
        · exact Or.inl hk
        · exact Or.inr (Or.inr hk)
      · rintro (hk | rfl | hk)
        · exact Or.inl hk
        · exact Or.inl h
        · exact Or.inr hk
    case isFalse h =>
      rw [ih, List.map_append, List.mem_append, List.map_singleton, List.mem_singleton, or_assoc]

/-- Laying a union over a list is laying its parts over it one after the other. -/
theorem union_assoc (a b c : List β) :
    union key (union key a b) c = union key a (union key b c) := by
  induction c generalizing b with
  | nil => rfl
  | cons x c ih =>
    by_cases hx : key x ∈ b.map key
    · have hab : key x ∈ (union key a b).map key := (mem_keys_union key).mpr (Or.inr hx)
      rw [union, if_pos hab, union, if_pos hx]
      exact ih b
    · -- the new entry may go to the end of `b` before `b` is laid over `a`
      have hb : union key b (x :: c) = union key (b ++ [x]) c := by rw [union, if_neg hx]
      calc union key (union key a b) (x :: c)
          = union key (union key (union key a b) [x]) c := union_append key _ [x] c
        _ = union key (union key a (b ++ [x])) c := by rw [union_append key a b [x]]
        _ = union key a (union key b (x :: c)) := by rw [ih, hb]

lemma nodup_union {base : List β} (h : (base.map key).Nodup) (o : List β) :
    ((union key base o).map key).Nodup := by
  induction o generalizing base with
  | nil => exact h
  | cons x o ih =>
    rw [union]
    split
    case isTrue => exact ih h
    case isFalse hx =>
      apply ih
      rw [List.map_append, List.nodup_append]
      refine ⟨h, by simp, ?_⟩
      rintro k hk _ hk' rfl
      rw [List.map_singleton, List.mem_singleton] at hk'
      exact hx (hk' ▸ hk)

lemma mem_union_left {x : β} {base : List β} (h : x ∈ base) (o : List β) :
    x ∈ union key base o := by
  induction o generalizing base with
  | nil => exact h
  | cons y o ih =>
    rw [union]
    split
    · exact ih h
    · exact ih (List.mem_append_left _ h)

lemma mem_or_mem_of_mem_union {x : β} {base o : List β} (h : x ∈ union key base o) :
    x ∈ base ∨ x ∈ o := by
  induction o generalizing base with
  | nil => exact Or.inl h
  | cons y o ih =>
    rw [union] at h
    split at h
    · rcases ih h with hx | hx
      · exact Or.inl hx
      · exact Or.inr (List.mem_cons_of_mem y hx)
    · rcases ih h with hx | hx
      · rcases List.mem_append.mp hx with hx | hx
        · exact Or.inl hx
        · exact Or.inr (List.mem_cons.mpr (Or.inl (List.mem_singleton.mp hx)))
      · exact Or.inr (List.mem_cons_of_mem y hx)

/-- The first entry with a key. -/
def first (k : κ) (l : List β) : Option β := l.find? fun y => key y = k

lemma first_append (k : κ) (l l' : List β) :
    first key k (l ++ l') = (first key k l).or (first key k l') := by
  simp [first, List.find?_append]

lemma first_eq_none_iff {k : κ} {l : List β} : first key k l = none ↔ k ∉ l.map key := by
  simp [first]

lemma mem_of_first {k : κ} {l : List β} {x : β} (h : first key k l = some x) : x ∈ l :=
  List.mem_of_find?_eq_some h

lemma key_of_first {k : κ} {l : List β} {x : β} (h : first key k l = some x) : key x = k := by
  simpa using List.find?_some h

/-- A key that is there has a first entry. -/
lemma exists_first {k : κ} {l : List β} (h : k ∈ l.map key) :
    ∃ x ∈ l, key x = k ∧ first key k l = some x := by
  cases hx : first key k l with
  | none => exact absurd h ((first_eq_none_iff key).mp hx)
  | some x => exact ⟨x, mem_of_first key hx, key_of_first key hx, rfl⟩

/-- An entry of the base stays the first one of its key. -/
lemma first_union (k : κ) (base o : List β) :
    first key k (union key base o) = (first key k base).or (first key k o) := by
  induction o generalizing base with
  | nil => simp [union, first]
  | cons x o ih =>
    rw [← List.singleton_append, first_append, union_append, ih, ← Option.or_assoc]
    congr 1
    by_cases hx : key x ∈ base.map key
    · rw [union, if_pos hx, union]
      by_cases hk : key x = k
      · subst hk
        obtain ⟨y, -, -, hy⟩ := exists_first key hx
        simp [hy]
      · simp [first, hk]
    · rw [union, if_neg hx, union, first_append]

variable [DecidableEq β] (clash : β → β → Conflict)

/-- Unites the lists as `union` does, as long as entries of one key are the same. -/
def unite (base : List β) : List β → Except Conflict (List β)
  | [] => .ok base
  | x :: r =>
    match first key (key x) base with
    | some y => if y = x then unite base r else .error (clash y x)
    | none => unite (base ++ [x]) r

/-- The walk gives the union, if every entry of the overlay is the first one of its key there. -/
theorem unite_eq_ok_iff {base o r : List β} :
    unite key clash base o = .ok r ↔
      r = union key base o ∧ ∀ x ∈ o, first key (key x) r = some x := by
  induction o generalizing base with
  | nil => simp [unite, union, eq_comm]
  | cons x o ih =>
    rw [List.forall_mem_cons, unite]
    cases hx : first key (key x) base with
    | none =>
      have hnew : key x ∉ base.map key := (first_eq_none_iff key).mp hx
      rw [union, if_neg hnew]
      simp only [ih]
      constructor
      · rintro ⟨hr, ho⟩
        refine ⟨hr, ?_, ho⟩
        rw [hr, first_union, first_append, hx]
        simp [first]
      · rintro ⟨hr, -, ho⟩
        exact ⟨hr, ho⟩
    | some y =>
      have hold : key x ∈ base.map key :=
        List.mem_map.mpr ⟨y, mem_of_first key hx, key_of_first key hx⟩
      have hfirst : ∀ l, first key (key x) (union key base l) = some y := by
        intro l
        rw [first_union, hx]
        rfl
      rw [union, if_pos hold]
      by_cases hyx : y = x
      · subst hyx
        simp only [if_true, ih]
        constructor
        · rintro ⟨hr, ho⟩
          exact ⟨hr, hr ▸ hfirst o, ho⟩
        · rintro ⟨hr, -, ho⟩
          exact ⟨hr, ho⟩
      · simp only [if_neg hyx]
        constructor
        · intro h
          cases h
        · rintro ⟨rfl, hxr, -⟩
          rw [hfirst o] at hxr
          exact absurd (Option.some.inj hxr) hyx

/-- The entries of `b` and of `c` are first in the union of all three on both ways, so both ways
fail for the same lists. -/
theorem unite_associates (a b c : List β) : Associates (unite key clash) a b c := by
  intro r
  simp only [unite_eq_ok_iff]
  constructor
  · rintro ⟨_, ⟨rfl, hb⟩, rfl, hc⟩
    simp only [first_union] at hb hc
    have hbc : ∀ x ∈ c, (first key (key x) b).or (first key (key x) c) = some x := by
      intro x hx
      have hax := hc x hx
      cases hfb : first key (key x) b with
      | some y =>
        have hay := hb y (mem_of_first key hfb)
        rw [key_of_first key hfb] at hay
        rw [hay] at hax
        exact hax
      | none =>
        obtain ⟨z, hz, hk, hfc⟩ := exists_first key (List.mem_map_of_mem hx)
        have haz := hc z hz
        rw [hk, hax] at haz
        rw [hfc]
        exact haz.symm
    refine ⟨union key b c, ⟨rfl, by simpa only [first_union] using hbc⟩, union_assoc key a b c, ?_⟩
    intro x hx
    simp only [first_union]
    rcases mem_or_mem_of_mem_union key hx with hx | hx
    · rw [hb x hx]
      rfl
    · exact hc x hx
  · rintro ⟨_, ⟨rfl, hc⟩, rfl, hbc⟩
    rw [← union_assoc] at hbc ⊢
    refine ⟨union key a b, ⟨rfl, ?_⟩, rfl, ?_⟩
    · intro x hx
      have hax := hbc x (mem_union_left key hx c)
      obtain ⟨y, -, -, hab⟩ :=
        exists_first key ((mem_keys_union key).mpr (Or.inr (List.mem_map_of_mem hx)))
      rw [first_union, hab] at hax
      rw [hab]
      exact hax
    · intro x hx
      exact hbc x (mem_of_first key (hc x hx))

end Union

/-! ### The lists of a document -/

lemma list_eq_union (base o : List String) : list base o = union id base o := by
  induction o generalizing base with
  | nil => rfl
  | cons x o ih =>
    rw [list, union, List.map_id, ih, ih]
    rfl

theorem list_assoc (a b c : List String) : list (list a b) c = list a (list b c) := by
  simp only [list_eq_union]
  exact union_assoc id a b c

lemma get?_eq_first {α : Type} (name : String) (t : Table α) :
    t.get? name = (first (·.1) name t).map (·.2) := by
  induction t with
  | nil => rfl
  | cons p t ih =>
    obtain ⟨n, v⟩ := p
    rw [Table.get?, first, List.find?_cons]
    by_cases h : n = name
    · simp [h]
    · simpa [h, first] using ih

/-- Values of one name clash under that name. -/
def valueClash (address : List String) (p q : String × String) : Conflict :=
  .values (address ++ [q.1]) p.2 q.2

lemma vars_eq_unite (address : List String) (base o : Table String) :
    vars address base o = unite (·.1) (valueClash address) base o := by
  induction o generalizing base with
  | nil => rfl
  | cons p o ih =>
    obtain ⟨n, v⟩ := p
    rw [vars, unite, get?_eq_first]
    cases h : first (fun p : String × String => p.1) n base with
    | none => exact ih _
    | some q =>
      have hn : q.1 = n := key_of_first _ h
      have hq : q = (n, v) ↔ q.2 = v := by rw [Prod.ext_iff, and_iff_right hn]
      simp only [Option.map_some, hq, ih, valueClash]

theorem vars_associates (address : List String) (a b c : Table String) :
    Associates (vars address) a b c := by
  have h : vars address = unite (·.1) (valueClash address) := by
    funext base o
    exact vars_eq_unite address base o
  rw [h]
  exact unite_associates (·.1) (valueClash address) a b c

/-- Rules of one name clash under that name. -/
def ruleClash (address : List String) (_ x : FileRule) : Conflict := .rules (address ++ [x.name])

lemma rules_eq_unite (address : List String) (base o : List FileRule) :
    rules address base o = unite (·.name) (ruleClash address) base o := by
  induction o generalizing base with
  | nil => rfl
  | cons x o ih =>
    rw [rules, unite, first]
    cases base.find? fun y => y.name = x.name with
    | none => exact ih _
    | some y => simp only [ih, ruleClash]

theorem rules_associates (address : List String) (a b c : List FileRule) :
    Associates (rules address) a b c := by
  have h : rules address = unite (·.name) (ruleClash address) := by
    funext base o
    exact rules_eq_unite address base o
  rw [h]
  exact unite_associates (·.name) (ruleClash address) a b c

end StepFlow.Merge

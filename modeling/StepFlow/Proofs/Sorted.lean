import Mathlib.Order.RelClasses
import Mathlib.Tactic.Lemma
import StepFlow.Table

/-!
Sets kept as strictly increasing lists: what is in them, and that they stay increasing.
-/

namespace StepFlow.Sorted

variable {α : Type} [LT α] [DecidableLT α] [DecidableEq α] {l : List α} {x y : α}

theorem mem_insert : y ∈ insert x l ↔ y = x ∨ y ∈ l := by
  induction l with
  | nil => simp [insert]
  | cons z l ih =>
    rw [insert]
    split
    · simp
    · split
      · rename_i hxz
        subst hxz
        simp
      · simp [ih, or_left_comm]

/-- The elements of a set are those of the list it is made of. -/
lemma mem_ofList : x ∈ ofList l ↔ x ∈ l := by
  have hfold : ∀ l acc : List α, x ∈ l.foldl (fun acc y => insert y acc) acc ↔ x ∈ acc ∨ x ∈ l := by
    intro l
    induction l with
    | nil => simp
    | cons y l ih =>
      intro acc
      rw [List.foldl_cons, ih, mem_insert, List.mem_cons, or_assoc, or_left_comm]
  rw [ofList, hfold]
  simp

section Increasing

variable [IsStrictTotalOrder α (· < ·)]

/-- An element that is there is not put in again. -/
theorem insert_of_mem (h : l.Pairwise (· < ·)) (hx : x ∈ l) : insert x l = l := by
  induction l with
  | nil => cases hx
  | cons z l ih =>
    obtain ⟨hz, hl⟩ := List.pairwise_cons.1 h
    rw [insert]
    rcases List.mem_cons.1 hx with rfl | hx
    · rw [if_neg (irrefl x), if_pos rfl]
    · have hzx := hz x hx
      rw [if_neg (asymm hzx), if_neg (ne_of_irrefl' hzx), ih hl hx]

theorem insert_pairwise (h : l.Pairwise (· < ·)) : (insert x l).Pairwise (· < ·) := by
  induction l with
  | nil => exact List.pairwise_singleton _ _
  | cons z l ih =>
    obtain ⟨hz, hl⟩ := List.pairwise_cons.1 h
    rw [insert]
    split
    case isTrue hxz =>
      refine List.pairwise_cons.2 ⟨?_, h⟩
      intro y hy
      rcases List.mem_cons.1 hy with rfl | hy
      · exact hxz
      · exact IsTrans.trans _ _ _ hxz (hz y hy)
    case isFalse hxz =>
      split
      case isTrue => exact h
      case isFalse hne =>
        refine List.pairwise_cons.2 ⟨?_, ih hl⟩
        intro y hy
        rcases mem_insert.1 hy with rfl | hy
        · by_contra hzy
          exact hne (Std.Trichotomous.trichotomous y z hxz hzy)
        · exact hz y hy

lemma ofList_pairwise (l : List α) : (ofList l).Pairwise (· < ·) := by
  have hfold : ∀ l acc : List α, acc.Pairwise (· < ·) →
      (l.foldl (fun acc y => insert y acc) acc).Pairwise (· < ·) := by
    intro l
    induction l with
    | nil => exact fun _ h => h
    | cons y l ih => exact fun acc h => ih _ (insert_pairwise h)
  exact hfold l [] List.Pairwise.nil

end Increasing

end StepFlow.Sorted

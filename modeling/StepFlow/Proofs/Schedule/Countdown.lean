import StepFlow.Proofs.Graph.Acyclic
import StepFlow.Proofs.Sorted
import StepFlow.Schedule

/-!
The countdown of a schedule. The count of a node is the number of its parents that are not settled,
so a node has been offered, that is, it is ready or was taken, just when all its parents are
settled. Taking a node and settling one keep this, whatever their order.
-/

namespace StepFlow

namespace Schedule

/-! ### Counting down -/

/-- The count of a node. -/
def left (s : Schedule) (i : Nat) : Nat := s.remaining[i]?.getD 0

section CountDown

variable (s : Schedule) (child : Nat)

theorem countDown_eq : s.countDown child =
    if s.left child ≤ 1 ∧ child ∉ s.ready then
      ({ s with
        remaining := s.remaining.set child (s.left child - 1)
        ready := Sorted.insert child s.ready }, true)
    else ({ s with remaining := s.remaining.set child (s.left child - 1) }, false) := by
  simp only [countDown, left, Bool.and_eq_true, decide_eq_true_eq, Nat.sub_eq_zero_iff_le,
    Bool.not_eq_true', List.contains_eq_mem, decide_eq_false_iff_not]
  congr

theorem countDown_left (i : Nat) :
    (s.countDown child).1.left i = if i = child then s.left i - 1 else s.left i := by
  have hset : (s.countDown child).1.remaining = s.remaining.set child (s.left child - 1) := by
    rw [countDown_eq]
    split <;> rfl
  unfold left at hset ⊢
  rw [hset, List.getElem?_set]
  by_cases h : child = i
  · subst h
    rw [if_pos rfl, if_pos rfl]
    split
    · rfl
    · rename_i hlt
      rw [List.getElem?_eq_none (Nat.le_of_not_lt hlt)]
      rfl
  · rw [if_neg h, if_neg (Ne.symm h)]

theorem mem_countDown_ready (i : Nat) :
    i ∈ (s.countDown child).1.ready ↔ i ∈ s.ready ∨ i = child ∧ s.left child ≤ 1 := by
  rw [countDown_eq]
  split
  · rename_i h
    simp only [Sorted.mem_insert, h.1, and_true]
    exact or_comm
  · rename_i h
    refine ⟨.inl, ?_⟩
    intro hi
    rcases hi with hi | ⟨rfl, hle⟩
    · exact hi
    · by_contra hmem
      exact h ⟨hle, hmem⟩

theorem countDown_ready_pairwise (h : s.ready.Pairwise (· < ·)) :
    (s.countDown child).1.ready.Pairwise (· < ·) := by
  rw [countDown_eq]
  split
  · exact Sorted.insert_pairwise h
  · exact h

end CountDown

section CountDownAll

variable {s : Schedule} {children : List Nat}

theorem countDownAll_cons (child : Nat) : s.countDownAll (child :: children) =
    (((s.countDown child).1.countDownAll children).1,
      if (s.countDown child).2 then child :: ((s.countDown child).1.countDownAll children).2
      else ((s.countDown child).1.countDownAll children).2) := rfl

theorem countDownAll_left (h : children.Nodup) (i : Nat) :
    (s.countDownAll children).1.left i = if i ∈ children then s.left i - 1 else s.left i := by
  induction children generalizing s with
  | nil => rfl
  | cons child rest ih =>
    obtain ⟨hchild, hrest⟩ := List.nodup_cons.1 h
    rw [countDownAll_cons, ih hrest, countDown_left]
    by_cases hi : i = child
    · subst hi
      simp [hchild]
    · simp [hi]

theorem mem_countDownAll_ready (h : children.Nodup) (i : Nat) :
    i ∈ (s.countDownAll children).1.ready ↔ i ∈ s.ready ∨ i ∈ children ∧ s.left i ≤ 1 := by
  induction children generalizing s with
  | nil => simp [countDownAll]
  | cons child rest ih =>
    obtain ⟨hchild, hrest⟩ := List.nodup_cons.1 h
    rw [countDownAll_cons, ih hrest, mem_countDown_ready, countDown_left]
    by_cases hi : i = child
    · subst hi
      simp [hchild]
    · simp [hi]

theorem countDownAll_ready_pairwise (h : s.ready.Pairwise (· < ·)) :
    (s.countDownAll children).1.ready.Pairwise (· < ·) := by
  induction children generalizing s with
  | nil => exact h
  | cons child rest ih => exact ih (countDown_ready_pairwise s child h)

end CountDownAll

/-! ### The countdown -/

/-- What holds of a schedule from which the nodes `taken` were taken: the counts are right, the
ready nodes are in order, and just the nodes whose parents are all settled are ready or taken,
not both. -/
structure Counts (g : Graph) (taken : List Nat) (s : Schedule) : Prop where
  left : ∀ i < g.size, s.left i = (g.parents i).countP fun p => p ∉ s.settled
  sorted : s.ready.Pairwise (· < ·)
  offered : ∀ i, i ∈ s.ready ∨ i ∈ taken ↔ i < g.size ∧ g.isReady i s.settled = true
  fresh : ∀ i ∈ s.ready, i ∉ taken
  nodup : taken.Nodup

section Counts

variable {g : Graph} {taken : List Nat} {s : Schedule}

lemma isReady_iff {settled : List Nat} {i : Nat} :
    g.isReady i settled = true ↔ ∀ p ∈ g.parents i, p ∈ settled := by
  simp [Graph.isReady]

/-- A node may start when there is nothing to count down. -/
lemma isReady_iff_countP {settled : List Nat} {i : Nat} :
    g.isReady i settled = true ↔ (g.parents i).countP (fun p => p ∉ settled) = 0 := by
  simp [isReady_iff, List.countP_eq_zero]

/-- Settling a node counts it down, once, in a list that has it. -/
lemma countP_settle {settled ps : List Nat} {i : Nat} (hi : i ∉ settled) (hps : ps.Nodup) :
    (ps.countP fun p => p ∉ i :: settled) + (if i ∈ ps then 1 else 0) =
      ps.countP fun p => p ∉ settled := by
  induction hps with
  | nil => rfl
  | @cons p ps hp _ ih =>
    rw [List.countP_cons, List.countP_cons, ← ih]
    by_cases hpi : p = i
    · subst hpi
      have hmem : p ∉ ps := fun hmem => hp p hmem rfl
      simp [hi, hmem]
    · simp [hpi, Ne.symm hpi]
      omega

/-- **At the start** just the nodes without parents are offered. -/
theorem counts_start (g : Graph) : Counts g [] (start g) where
  left := fun i hi => by
    have hnode : g.nodes[i]? = some g.nodes[i] := List.getElem?_eq_getElem hi
    simp [Schedule.left, start, Graph.parents, Graph.node, hnode]
  sorted := List.pairwise_lt_range.filter _
  offered := fun i => by
    simp [start, isReady_iff, List.eq_nil_iff_forall_not_mem]
  fresh := fun i hi hmem => nomatch hmem
  nodup := List.nodup_nil

theorem Counts.perm {taken' : List Nat} (h : Counts g taken s) (hp : taken.Perm taken') :
    Counts g taken' s where
  left := h.left
  sorted := h.sorted
  offered := fun i => by
    rw [← hp.mem_iff]
    exact h.offered i
  fresh := fun i hi hmem => h.fresh i hi (hp.mem_iff.2 hmem)
  nodup := hp.nodup_iff.1 h.nodup

theorem pop_eq_none (h : s.pop = none) : s.ready = [] := by
  unfold pop at h
  split at h
  · assumption
  · cases h

theorem pop_eq_some {i : Nat} {s' : Schedule} (h : s.pop = some (i, s')) :
    s.ready = i :: s'.ready ∧ s'.settled = s.settled ∧ s'.remaining = s.remaining := by
  unfold pop at h
  split at h
  · cases h
  · rename_i hready
    cases h
    exact ⟨hready, rfl, rfl⟩

/-- **Taking a node** keeps the counts. -/
theorem Counts.pop (h : Counts g taken s) {i : Nat} {s' : Schedule}
    (hpop : s.pop = some (i, s')) : Counts g (i :: taken) s' := by
  obtain ⟨hready, hsettled, hremaining⟩ := pop_eq_some hpop
  obtain ⟨hi, hsorted⟩ := List.pairwise_cons.1 (hready ▸ h.sorted)
  refine ⟨?_, hsorted, ?_, ?_, ?_⟩
  · intro j hj
    rw [Schedule.left, hremaining, hsettled]
    exact h.left j hj
  · intro j
    rw [hsettled, ← h.offered j, hready]
    simp only [List.mem_cons]
    tauto
  · intro j hj hmem
    rcases List.mem_cons.1 hmem with rfl | hmem
    · exact Nat.lt_irrefl _ (hi _ hj)
    · exact h.fresh j (hready ▸ List.mem_cons_of_mem _ hj) hmem
  · exact List.nodup_cons.2 ⟨h.fresh i (hready ▸ List.mem_cons_self), h.nodup⟩

theorem settle_settled (i : Nat) :
    (s.settle g i).1.settled = if i ∈ s.settled then s.settled else i :: s.settled := by
  unfold settle
  split
  · rfl
  · exact countDownAll_settled _ _

lemma children_nodup (hg : g.Sound) (i : Nat) : (g.children i).Nodup :=
  (hg.children_sorted i).imp fun hlt => Nat.ne_of_lt hlt

lemma lt_size_of_mem_children (hg : g.Sound) {i j : Nat} (h : j ∈ g.children i) : j < g.size :=
  (hg.lt_size i j ((hg.mem_children i j).1 h)).2

/-- A child whose last parent was settled may start. -/
lemma Counts.left_le_one_iff (hg : g.Sound) (h : Counts g taken s) {i j : Nat}
    (hi : i ∉ s.settled) (hj : j ∈ g.children i) :
    s.left j ≤ 1 ↔ g.isReady j (i :: s.settled) = true := by
  have hcount := countP_settle hi (hg.parents_nodup j)
  rw [if_pos ((hg.mem_children i j).1 hj)] at hcount
  rw [h.left j (lt_size_of_mem_children hg hj), isReady_iff_countP]
  omega

/-- A child of a node that is not settled was not offered before. -/
lemma Counts.not_offered (hg : g.Sound) (h : Counts g taken s) {i j : Nat} (hi : i ∉ s.settled)
    (hj : j ∈ g.children i) : ¬ (j ∈ s.ready ∨ j ∈ taken) := by
  rw [h.offered j, isReady_iff]
  rintro ⟨-, hall⟩
  exact hi (hall i ((hg.mem_children i j).1 hj))

/-- **Settling a node** keeps the counts. -/
theorem Counts.settle (hg : g.Sound) (h : Counts g taken s) (i : Nat) :
    Counts g taken (s.settle g i).1 := by
  by_cases hi : i ∈ s.settled
  · rw [Schedule.settle, if_pos hi]
    exact h
  have hnodup := children_nodup hg i
  have hsettled : (s.settle g i).1.settled = i :: s.settled := by
    rw [settle_settled, if_neg hi]
  have hready : ∀ j, j ∈ (s.settle g i).1.ready ↔
      j ∈ s.ready ∨ j ∈ g.children i ∧ g.isReady j (i :: s.settled) = true := fun j => by
    rw [Schedule.settle, if_neg hi, mem_countDownAll_ready hnodup]
    refine or_congr_right (and_congr_right ?_)
    intro hj
    exact h.left_le_one_iff hg hi hj
  refine ⟨?_, ?_, ?_, ?_, h.nodup⟩
  · intro j hj
    have hcount := countP_settle hi (hg.parents_nodup j)
    have hleft := h.left j hj
    rw [hsettled, Schedule.settle, if_neg hi, countDownAll_left hnodup]
    show (if j ∈ g.children i then s.left j - 1 else s.left j) = _
    rw [hleft, ← hcount]
    by_cases hchild : j ∈ g.children i
    · rw [if_pos hchild, if_pos ((hg.mem_children i j).1 hchild)]
      omega
    · rw [if_neg hchild, if_neg fun hparent => hchild ((hg.mem_children i j).2 hparent)]
      omega
  · rw [Schedule.settle, if_neg hi]
    exact countDownAll_ready_pairwise h.sorted
  · intro j
    rw [hsettled, hready, isReady_iff]
    by_cases hchild : j ∈ g.children i
    · have hno := h.not_offered hg hi hchild
      have hlt := lt_size_of_mem_children hg hchild
      tauto
    · -- the parents of all other nodes are settled as before
      have hne : ∀ p ∈ g.parents j, p ≠ i := fun p hp heq =>
        hchild ((hg.mem_children i j).2 (heq ▸ hp))
      have hsame : (∀ p ∈ g.parents j, p ∈ i :: s.settled) ↔ ∀ p ∈ g.parents j, p ∈ s.settled :=
        forall₂_congr fun p hp => by simp [hne p hp]
      rw [hsame, ← isReady_iff, ← h.offered j]
      tauto
  · intro j hj hmem
    rcases (hready j).1 hj with hj | ⟨hchild, -⟩
    · exact h.fresh j hj hmem
    · exact h.not_offered hg hi hchild (.inr hmem)

/-- All that is before a node that was offered is settled, if only what was taken is settled. -/
theorem Counts.settled_of_before (h : Counts g taken s) (hsub : s.settled ⊆ taken) {i j : Nat}
    (hi : i ∈ s.ready ∨ i ∈ taken) (hj : g.Before j i) : j ∈ s.settled := by
  induction hj using Relation.TransGen.head_induction_on with
  | single hji => exact isReady_iff.1 ((h.offered i).1 hi).2 _ hji
  | head hjk _ ih => exact isReady_iff.1 ((h.offered _).1 (.inr (hsub ih))).2 _ hjk

/-- When nothing is ready and all that was taken is settled, then all is settled. -/
theorem Counts.all_settled (hg : g.Sound) (h : Counts g taken s) (hready : s.ready = [])
    (htaken : taken ⊆ s.settled) : ∀ i < g.size, i ∈ s.settled := by
  refine hg.induction ?_
  intro i hi hparents
  rcases (h.offered i).2 ⟨hi, isReady_iff.2 hparents⟩ with hmem | hmem
  · rw [hready] at hmem
    cases hmem
  · exact htaken hmem

/-- **A schedule is complete** when all nodes are settled. -/
theorem isComplete_iff (hnodup : s.settled.Nodup) (hlt : ∀ i ∈ s.settled, i < g.size) :
    s.isComplete g = true ↔ ∀ i < g.size, i ∈ s.settled := by
  have hsub : s.settled.Subperm (List.range g.size) :=
    hnodup.subperm fun i hi => List.mem_range.2 (hlt i hi)
  rw [isComplete, decide_eq_true_eq]
  constructor
  · intro hlen i hi
    have hperm := hsub.perm_of_length_le (by simp [hlen])
    exact hperm.mem_iff.2 (List.mem_range.2 hi)
  · intro hall
    have hperm := hsub.antisymm (List.nodup_range.subperm fun i hi => hall i (List.mem_range.1 hi))
    simpa using hperm.length_eq

end Counts

end Schedule

end StepFlow

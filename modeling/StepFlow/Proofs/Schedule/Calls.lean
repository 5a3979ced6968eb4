import StepFlow.Proofs.Schedule.Countdown

/-!
A schedule that nodes are taken from and settled in, in any order: a node may be settled before it
was taken, before it was ready, and more than once. The counts stay right whatever the order, so
what a schedule answers to the next call can be read off the nodes that are settled.
-/

namespace StepFlow.Schedule

/-- A schedule after any calls; `taken` are the nodes that were taken from it, the latest first. -/
inductive Worked (g : Graph) : (taken : List Nat) → Schedule → Prop
  | start : Worked g [] (start g)
  | pop {taken : List Nat} {s s' : Schedule} {i : Nat} (h : Worked g taken s)
      (hpop : s.pop = some (i, s')) : Worked g (i :: taken) s'
  | settle {taken : List Nat} {s : Schedule} {i : Nat} (h : Worked g taken s) (hi : i < g.size) :
      Worked g taken (s.settle g i).1

section Calls

variable {f : Flow} {g : Graph} {taken : List Nat} {s s' : Schedule} {i j : Nat}

/-! ### What every call keeps -/

theorem Worked.counts (hg : g.Sound) (h : Worked g taken s) : Counts g taken s := by
  induction h with
  | start => exact counts_start g
  | pop _ hpop ih => exact ih.pop hpop
  | settle _ _ ih => exact ih.settle hg _

/-- Nodes are settled once, and nothing else is settled. -/
theorem Worked.settled (h : Worked g taken s) :
    s.settled.Nodup ∧ ∀ i ∈ s.settled, i < g.size := by
  induction h with
  | start => exact ⟨List.nodup_nil, fun i hi => nomatch hi⟩
  | pop _ hpop ih =>
    rw [(pop_eq_some hpop).2.1]
    exact ih
  | @settle taken s i _ hi ih =>
    rw [settle_settled]
    split
    · exact ih
    · rename_i hnew
      refine ⟨List.nodup_cons.2 ⟨hnew, ih.1⟩, ?_⟩
      intro j hj
      rcases List.mem_cons.1 hj with rfl | hj
      · exact hi
      · exact ih.2 j hj

lemma countDownAll_length (s : Schedule) (children : List Nat) :
    (s.countDownAll children).1.remaining.length = s.remaining.length := by
  induction children generalizing s with
  | nil => rfl
  | cons child rest ih =>
    rw [countDownAll_cons, ih, countDown_eq]
    split <;> simp

theorem Worked.length (h : Worked g taken s) : s.remaining.length = g.size := by
  induction h with
  | start => simp [Schedule.start, Graph.size]
  | pop _ hpop ih => rw [(pop_eq_some hpop).2.2, ih]
  | settle _ _ ih =>
    rw [Schedule.settle]
    split
    · exact ih
    · rw [countDownAll_length, ih]

/-! ### What the calls answer -/

end Calls

/-! ### Settling before its turn -/

end StepFlow.Schedule

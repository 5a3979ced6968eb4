import StepFlow.Graph.Order
import StepFlow.Proofs.Schedule.Countdown

/-!
Schedules that are worked through: nodes are taken and settled in any order, but only a node that
was taken is settled. Such a schedule never gets stuck, whatever the order was so far, and when each
node is settled right after it was taken the nodes come out in the order of the graph.
-/

namespace StepFlow.Schedule

/-! ### Working through a schedule -/

/-- A schedule with the nodes that were taken from it, the latest first. -/
structure Work where
  taken : List Nat := []
  schedule : Schedule

/-- Nothing was taken yet. -/
def Work.new (g : Graph) : Work := { schedule := start g }

/-- What may be done next: the earliest ready node is taken, or one that was taken is settled. -/
inductive Turn (g : Graph) : Work → Work → Prop
  | take {x : Work} {i : Nat} {schedule : Schedule} (hpop : x.schedule.pop = some (i, schedule)) :
      Turn g x ⟨i :: x.taken, schedule⟩
  | settle {x : Work} {i : Nat} (hi : i ∈ x.taken) :
      Turn g x ⟨x.taken, (x.schedule.settle g i).1⟩

/-- Any number of turns. -/
abbrev Turns (g : Graph) : Work → Work → Prop := Relation.ReflTransGen (Turn g)

/-- What holds at any time while a schedule is worked through. -/
structure InTurn (g : Graph) (x : Work) : Prop where
  counts : Counts g x.taken x.schedule
  settled_subset : x.schedule.settled ⊆ x.taken
  settled_nodup : x.schedule.settled.Nodup

/-- How often a node has still to be taken or settled. -/
def Work.left (g : Graph) (x : Work) : Nat :=
  (g.size - x.taken.length) + (g.size - x.schedule.settled.length)

section Turns

variable {f : Flow} {g : Graph} {x y : Work} {i : Nat} {s s' : Schedule} {taken out : List Nat}

theorem inTurn_new (g : Graph) : InTurn g (.new g) where
  counts := counts_start g
  settled_subset := List.nil_subset _
  settled_nodup := List.nodup_nil

/-- **Every turn** keeps the counts, and settles only what was taken. -/
theorem InTurn.turn (hg : g.Sound) (h : InTurn g x) (hturn : Turn g x y) : InTurn g y := by
  cases hturn with
  | take hpop =>
    have hsettled := (pop_eq_some hpop).2.1
    refine ⟨h.counts.pop hpop, ?_, ?_⟩
    · rw [hsettled]
      exact fun j hj => List.mem_cons_of_mem _ (h.settled_subset hj)
    · rw [hsettled]
      exact h.settled_nodup
  | @settle i hi =>
    refine ⟨h.counts.settle hg i, ?_, ?_⟩
    · rw [settle_settled]
      split
      · exact h.settled_subset
      · exact List.cons_subset.2 ⟨hi, h.settled_subset⟩
    · rw [settle_settled]
      split
      · exact h.settled_nodup
      · rename_i hnew
        exact List.nodup_cons.2 ⟨hnew, h.settled_nodup⟩

theorem InTurn.turns (hg : g.Sound) (h : InTurn g x) (hturns : Turns g x y) : InTurn g y := by
  induction hturns with
  | refl => exact h
  | tail _ hturn ih => exact ih.turn hg hturn

lemma InTurn.lt_size (h : InTurn g x) (hi : i ∈ x.taken) : i < g.size :=
  ((h.counts.offered i).1 (.inr hi)).1

lemma InTurn.taken_subperm (h : InTurn g x) : x.taken.Subperm (List.range g.size) :=
  h.counts.nodup.subperm fun _ hi => List.mem_range.2 (h.lt_size hi)

lemma InTurn.settled_subperm (h : InTurn g x) : x.schedule.settled.Subperm x.taken :=
  h.settled_nodup.subperm h.settled_subset

lemma InTurn.isComplete_iff (h : InTurn g x) :
    x.schedule.isComplete g = true ↔ ∀ i < g.size, i ∈ x.schedule.settled :=
  Schedule.isComplete_iff h.settled_nodup fun _ hi => h.lt_size (h.settled_subset hi)

/-! ### Never stuck -/

/-- As long as not all is settled, a node is ready or one that was taken is left to be settled. -/
theorem InTurn.ready_or_open (hg : g.Sound) (h : InTurn g x)
    (hopen : x.schedule.isComplete g = false) :
    x.schedule.ready ≠ [] ∨ ∃ i ∈ x.taken, i ∉ x.schedule.settled := by
  by_contra hstuck
  obtain ⟨hready, htaken⟩ := not_or.1 hstuck
  have hall : x.taken ⊆ x.schedule.settled := by
    intro i hi
    by_contra hs
    exact htaken ⟨i, hi, hs⟩
  have hcomplete := h.isComplete_iff.2 (h.counts.all_settled hg (not_not.1 hready) hall)
  rw [hopen] at hcomplete
  cases hcomplete

lemma InTurn.left_take (hg : g.Sound) (h : InTurn g x)
    (hpop : x.schedule.pop = some (i, s)) : Work.left g ⟨i :: x.taken, s⟩ < x.left g := by
  have hle := (h.turn hg (.take hpop)).taken_subperm.length_le
  rw [List.length_cons, List.length_range] at hle
  show (g.size - (x.taken.length + 1)) + (g.size - s.settled.length) < _
  rw [(pop_eq_some hpop).2.1, Work.left]
  omega

lemma InTurn.left_settle (hg : g.Sound) (h : InTurn g x) (hi : i ∈ x.taken)
    (hs : i ∉ x.schedule.settled) :
    Work.left g ⟨x.taken, (x.schedule.settle g i).1⟩ < x.left g := by
  have h' := h.turn hg (.settle hi)
  have hle := (h'.settled_subperm.trans h'.taken_subperm).length_le
  rw [List.length_range] at hle
  show (g.size - x.taken.length) + (g.size - (x.schedule.settle g i).1.settled.length) < _
  rw [settle_settled, if_neg hs, List.length_cons] at hle ⊢
  rw [Work.left]
  omega

/-- **Work can always be brought to its end.** -/
theorem InTurn.exists_complete (hg : g.Sound) (h : InTurn g x) :
    ∃ y, Turns g x y ∧ y.schedule.isComplete g = true := by
  induction hn : x.left g using Nat.strong_induction_on generalizing x with
  | _ n ih =>
    cases hcomplete : x.schedule.isComplete g with
    | true => exact ⟨x, .refl, hcomplete⟩
    | false =>
      obtain ⟨z, hturn, hless⟩ : ∃ z, Turn g x z ∧ z.left g < x.left g := by
        cases hpop : x.schedule.pop with
        | some next => exact ⟨_, .take hpop, h.left_take hg hpop⟩
        | none =>
          rcases h.ready_or_open hg hcomplete with hready | ⟨i, hi, hs⟩
          · exact absurd (pop_eq_none hpop) hready
          · exact ⟨_, .settle hi, h.left_settle hg hi hs⟩
      obtain ⟨y, hturns, hy⟩ := ih _ (hn ▸ hless) (h.turn hg hturn) rfl
      exact ⟨y, .head hturn hturns, hy⟩

/-- A node that is taken was not settled before. -/
lemma InTurn.not_settled_of_pop (h : InTurn g x) (hpop : x.schedule.pop = some (i, s)) :
    i ∉ s.settled := by
  obtain ⟨hready, hsettled, -⟩ := pop_eq_some hpop
  rw [hsettled]
  intro hs
  refine h.counts.fresh i ?_ (h.settled_subset hs)
  rw [hready]
  exact List.mem_cons_self

/-- When all is settled every node was taken, once. -/
theorem InTurn.taken_perm (h : InTurn g x) (hcomplete : x.schedule.isComplete g = true) :
    x.taken.Perm (List.range g.size) := by
  refine h.taken_subperm.antisymm (List.nodup_range.subperm ?_)
  intro i hi
  exact h.settled_subset (h.isComplete_iff.1 hcomplete i (List.mem_range.1 hi))

/-! ### Settling at once -/

/-- Takes nodes until none is ready, and settles each at once; `out` are the nodes in the order in
which they came. -/
inductive Drains (g : Graph) : Schedule → (out : List Nat) → Schedule → Prop
  | done {s : Schedule} (hpop : s.pop = none) : Drains g s [] s
  | next {s s₁ s' : Schedule} {i : Nat} {out : List Nat} (hpop : s.pop = some (i, s₁))
      (hrest : Drains g (s₁.settle g i).1 out s') : Drains g s (i :: out) s'

/-- Settling at once is one way to work through a schedule. -/
theorem Drains.turns (h : Drains g s out s') (taken : List Nat) :
    Turns g ⟨taken, s⟩ ⟨out.reverse ++ taken, s'⟩ := by
  induction h generalizing taken with
  | done => exact .refl
  | @next s s₁ s' i out hpop _ ih =>
    have hsettle : Turn g ⟨i :: taken, s₁⟩ ⟨i :: taken, (s₁.settle g i).1⟩ :=
      .settle List.mem_cons_self
    rw [List.reverse_cons, List.append_assoc]
    exact .head (.take (x := ⟨taken, s⟩) hpop) (.head hsettle (ih (i :: taken)))

/-- Nothing is left behind when each node is settled at once. -/
theorem Drains.complete (hg : g.Sound) (h : Drains g s out s') (hin : InTurn g ⟨taken, s⟩)
    (htaken : taken ⊆ s.settled) : s'.isComplete g = true := by
  induction h generalizing taken with
  | done hpop =>
    exact hin.isComplete_iff.2 (hin.counts.all_settled hg (pop_eq_none hpop) htaken)
  | @next s s₁ s' i out hpop _ ih =>
    refine ih ((hin.turn hg (.take hpop)).turn hg (.settle List.mem_cons_self)) ?_
    rw [settle_settled, (pop_eq_some hpop).2.1]
    intro j hj
    rcases List.mem_cons.1 hj with rfl | hj
    · split
      · assumption
      · exact List.mem_cons_self
    · split
      · exact htaken hj
      · exact List.mem_cons_of_mem _ (htaken hj)

theorem exists_drains (hg : g.Sound) (hin : InTurn g ⟨taken, s⟩) : ∃ out s', Drains g s out s' := by
  induction hn : Work.left g ⟨taken, s⟩ using Nat.strong_induction_on generalizing taken s with
  | _ n ih =>
    cases hpop : s.pop with
    | none => exact ⟨[], s, .done hpop⟩
    | some next =>
      obtain ⟨i, s₁⟩ := next
      have htake := hin.turn hg (.take hpop)
      have hless := (htake.left_settle hg List.mem_cons_self (hin.not_settled_of_pop hpop)).trans
        (hin.left_take hg hpop)
      obtain ⟨out, s', hrest⟩ :=
        ih _ (hn ▸ hless) (htake.turn hg (.settle List.mem_cons_self)) rfl
      exact ⟨i :: out, s', .next hpop hrest⟩

/-! ### The order of the graph -/

/-- In the order of a graph a child is counted down as it is in a schedule. -/
lemma lower_eq_countDown (h : s.ready.Pairwise (· < ·)) (child : Nat) :
    Graph.lower s.remaining s.ready child =
      ((s.countDown child).1.remaining, (s.countDown child).1.ready) := by
  rw [countDown_eq, Graph.lower]
  show (s.remaining.set child (s.left child - 1), if s.left child - 1 = 0 then _ else _) = _
  by_cases hlast : s.left child ≤ 1
  · by_cases hmem : child ∈ s.ready
    · rw [if_pos (Nat.sub_eq_zero_of_le hlast), if_neg fun hnew => hnew.2 hmem,
        Sorted.insert_of_mem h hmem]
    · rw [if_pos (Nat.sub_eq_zero_of_le hlast), if_pos ⟨hlast, hmem⟩]
  · rw [if_neg (by omega), if_neg fun hnew => hlast hnew.1]

lemma foldl_lower_eq_countDownAll (h : s.ready.Pairwise (· < ·)) (children : List Nat) :
    children.foldl (fun (c, r) child => Graph.lower c r child) (s.remaining, s.ready) =
      ((s.countDownAll children).1.remaining, (s.countDownAll children).1.ready) := by
  induction children generalizing s with
  | nil => rfl
  | cons child rest ih =>
    rw [List.foldl_cons, countDownAll_cons]
    show rest.foldl _ (Graph.lower s.remaining s.ready child) = _
    rw [lower_eq_countDown h]
    exact ih (countDown_ready_pairwise s child h)

/-- What comes out of a schedule when each node is settled at once comes next in the order of the
graph. -/
theorem Drains.takeOut_eq (hg : g.Sound) (h : Drains g s out s') (hin : InTurn g ⟨taken, s⟩)
    {n : Nat} (hn : out.length ≤ n) : Graph.takeOut g n s.remaining s.ready = out := by
  induction h generalizing taken n with
  | done hpop =>
    rw [pop_eq_none hpop]
    cases n <;> rfl
  | @next s s₁ s' i out hpop _ ih =>
    obtain ⟨hready, -, hremaining⟩ := pop_eq_some hpop
    obtain ⟨n, rfl⟩ : ∃ m, n = m + 1 := ⟨n - 1, by rw [List.length_cons] at hn; omega⟩
    have htake := hin.turn hg (.take hpop)
    have hsettle : (s₁.settle g i).1 =
        (countDownAll { s₁ with settled := i :: s₁.settled } (g.children i)).1 := by
      rw [settle, if_neg (hin.not_settled_of_pop hpop)]
    have hlower := foldl_lower_eq_countDownAll
      (s := { s₁ with settled := i :: s₁.settled }) htake.counts.sorted (g.children i)
    rw [hready, Graph.takeOut, ← hremaining, hlower, ← hsettle]
    refine congrArg (i :: ·) (ih (htake.turn hg (.settle List.mem_cons_self)) ?_)
    simpa using hn

/-- **Settling at once** takes the nodes in the order of the graph. -/
theorem Drains.eq_order (hg : g.Sound) (h : Drains g (start g) out s') : out = g.order := by
  have hend := (inTurn_new g).turns hg (h.turns [])
  have hlen := hend.taken_subperm.length_le
  rw [List.append_nil, List.length_reverse, List.length_range] at hlen
  exact (h.takeOut_eq hg (inTurn_new g) hlen).symm

/-- When each node is settled at once, the nodes come in the order of the graph until all are settled. -/
lemma exists_drains_order (hg : g.Sound) : ∃ s, Drains g (start g) g.order s ∧
    Turns g (.new g) ⟨g.order.reverse, s⟩ ∧ s.isComplete g = true := by
  obtain ⟨out, s, hdrains⟩ := exists_drains hg (inTurn_new g)
  have hcomplete := hdrains.complete hg (inTurn_new g) (List.nil_subset _)
  have hturns := hdrains.turns []
  obtain rfl := hdrains.eq_order hg
  rw [List.append_nil] at hturns
  exact ⟨s, hdrains, hturns, hcomplete⟩

/-- **The order of a graph** has every node once. -/
theorem order_perm (hg : g.Sound) : g.order.Perm (List.range g.size) := by
  obtain ⟨s, -, hturns, hcomplete⟩ := exists_drains_order hg
  have hin := (inTurn_new g).turns hg hturns
  exact (List.reverse_perm g.order).symm.trans (hin.taken_perm hcomplete)

/-- **A schedule never gets stuck** when only nodes that were taken are settled, whatever the order.
As long as not all nodes are settled, one is ready or one that was taken is left to be settled; so
the work can always be brought to its end, and then every node was taken, once. A node is taken only
after all its parents were settled. When each node is settled right after it was taken, all nodes
are settled in the end and they came in the order of the graph. -/
theorem never_stuck (hg : f.compile = .ok g) (h : Turns g (.new g) x) :
    (x.schedule.isComplete g = false →
      (∃ i s, x.schedule.pop = some (i, s)) ∨ ∃ i ∈ x.taken, i ∉ x.schedule.settled) ∧
    (∃ y, Turns g x y ∧ y.schedule.isComplete g = true ∧ y.taken.Perm (List.range g.size)) ∧
    (x.schedule.isComplete g = true ↔ ∀ i < g.size, i ∈ x.schedule.settled) ∧
    x.taken.Nodup ∧
    (∀ i s, x.schedule.pop = some (i, s) →
      i ∉ x.taken ∧ ∀ p ∈ g.parents i, p ∈ x.schedule.settled) ∧
    (∃ s, Drains g (start g) g.order s ∧ Turns g (.new g) ⟨g.order.reverse, s⟩ ∧
      s.isComplete g = true) ∧
    ∀ out s, Drains g (start g) out s → out = g.order := by
  have hsound := Graph.compile_sound hg
  have hin := (inTurn_new g).turns hsound h
  refine ⟨?_, ?_, hin.isComplete_iff, hin.counts.nodup, ?_, exists_drains_order hsound, ?_⟩
  · intro hopen
    refine (hin.ready_or_open hsound hopen).imp_left ?_
    intro hready
    cases hpop : x.schedule.pop with
    | none => exact absurd (pop_eq_none hpop) hready
    | some next => exact ⟨next.1, next.2, rfl⟩
  · obtain ⟨y, hturns, hcomplete⟩ := hin.exists_complete hsound
    exact ⟨y, hturns, hcomplete, (hin.turns hsound hturns).taken_perm hcomplete⟩
  · intro i s hpop
    have hi : i ∈ x.schedule.ready := by
      rw [(pop_eq_some hpop).1]
      exact List.mem_cons_self
    exact ⟨hin.counts.fresh i hi, isReady_iff.1 ((hin.counts.offered i).1 (.inl hi)).2⟩
  · intro out s hdrains
    exact hdrains.eq_order hsound

end Turns

/-! ### A report on what comes later -/

/-- A report that is declared before the tests it waits for. -/
def report : Flow where
  steps :=
    [("build", { spec := { bash := some "make" } }),
      ("report", { spec := { bash := some "make report", dependencies := ["test"] } }),
      ("test", { spec := { bash := some "make test", dependencies := ["build"] } })]

lemma report_order : ∃ g s, report.compile = .ok g ∧ g.size = 4 ∧ g.order = [0, 1, 3, 2] ∧
    (start g).pop = some (0, s) := by
  obtain ⟨g, hg, hsize, horder, hpop⟩ := Graph.exists_compiled (f := report) (P := fun g =>
    g.size = 4 ∧ g.order = [0, 1, 3, 2] ∧ (start g).pop.map (·.1) = some 0) (by cbv)
  obtain ⟨⟨i, s⟩, hpop, rfl⟩ := Option.map_eq_some_iff.1 hpop
  exact ⟨g, s, hg, hsize, horder, hpop⟩

/-- The root was taken and is left to be settled. The work can go on from there, and when each node
is settled at once the report comes last. -/
theorem never_stuck_report : ∃ g x, report.compile = .ok g ∧ Turns g (.new g) x ∧
    x.taken = [0] ∧ x.schedule.isComplete g = false ∧
    (∃ y, Turns g x y ∧ y.taken.Perm (List.range 4)) ∧
    ∃ s, Drains g (start g) [0, 1, 3, 2] s ∧ s.isComplete g = true := by
  obtain ⟨g, s, hg, hsize, horder, hpop⟩ := report_order
  have hturns : Turns g (.new g) ⟨[0], s⟩ := .single (.take hpop)
  obtain ⟨-, ⟨y, hy, -, hperm⟩, hcomplete, -, -, ⟨s', hdrains, -, hs'⟩, -⟩ := never_stuck hg hturns
  refine ⟨g, _, hg, hturns, rfl, ?_, ⟨y, hy, hsize ▸ hperm⟩, s', horder ▸ hdrains, hs'⟩
  rw [Bool.eq_false_iff, Ne, hcomplete]
  intro hall
  have hroot := hall 0 (by omega)
  rw [(pop_eq_some hpop).2.1] at hroot
  cases hroot

end StepFlow.Schedule

import StepFlow.Proofs.Schedule.Progress

/-!
The order of a graph among all orders of its nodes. The nodes come out as they are taken: the earliest
that is ready each time, until none is ready, and no count is lowered below zero on the way
(`TakesOut`). So the root comes first, every node comes behind its parents, and where another such
order parts from this one it goes on with a later node (`order_earliest`).
-/

namespace StepFlow

open Schedule (Drains InTurn)

namespace Graph

/-! ### Orders of the nodes -/

/-- Every node of the list stands behind all its parents. -/
def ParentsFirst (g : Graph) (l : List Nat) : Prop :=
  ∀ k (hk : k < l.length), ∀ p ∈ g.parents l[k], p ∈ l.take k

instance (g : Graph) (l : List Nat) : Decidable (g.ParentsFirst l) := by
  unfold ParentsFirst
  infer_instance

section ParentsFirst

variable {g : Graph} {l rest : List Nat} {i : Nat}

lemma parentsFirst_nil (g : Graph) : g.ParentsFirst [] := by
  intro k hk
  cases hk

/-- A node may come next when all its parents are there. -/
lemma ParentsFirst.concat (h : g.ParentsFirst l) (hi : ∀ p ∈ g.parents i, p ∈ l) :
    g.ParentsFirst (l ++ [i]) := by
  intro k hk p hp
  rw [List.length_append, List.length_singleton] at hk
  rw [List.take_append_of_le_length (Nat.le_of_lt_succ hk)]
  rcases Nat.lt_or_eq_of_le (Nat.le_of_lt_succ hk) with hlt | rfl
  · rw [List.getElem_append_left hlt] at hp
    exact h k hlt p hp
  · rw [List.getElem_concat_length rfl] at hp
    rw [List.take_length]
    exact hi p hp

/-- The parents of the node that comes next are there. -/
lemma ParentsFirst.of_append (h : g.ParentsFirst (l ++ i :: rest)) : ∀ p ∈ g.parents i, p ∈ l := by
  intro p hp
  have hlt : l.length < (l ++ i :: rest).length := by simp
  have hnext := h l.length hlt
  rw [List.getElem_append_right le_rfl, List.take_left' rfl] at hnext
  simp only [Nat.sub_self, List.getElem_cons_zero] at hnext
  exact hnext p hp

end ParentsFirst

/-! ### Taking nodes out -/

/-- The counts of children are lowered one after the other, and none of them is zero before. A child
whose count becomes zero is ready. -/
inductive Lowers : (children counts ready counts' ready' : List Nat) → Prop
  | nil {counts ready : List Nat} : Lowers [] counts ready counts ready
  | cons {child left : Nat} {children counts ready counts' ready' : List Nat}
      (hleft : counts[child]? = some (left + 1))
      (hrest : Lowers children (counts.set child left)
        (if left = 0 then Sorted.insert child ready else ready) counts' ready') :
      Lowers (child :: children) counts ready counts' ready'

/-- The earliest ready node is taken out, and the counts of its children are lowered, until no node is
ready. -/
inductive TakesOut (g : Graph) : (counts ready out : List Nat) → Prop
  | done {counts : List Nat} : TakesOut g counts [] []
  | next {i : Nat} {counts ready counts' ready' out : List Nat}
      (hlower : Lowers (g.children i) counts ready counts' ready')
      (hrest : TakesOut g counts' ready' out) : TakesOut g counts (i :: ready) (i :: out)

section TakesOut

variable {g : Graph} {children counts ready counts₁ ready₁ counts₂ ready₂ out out' : List Nat}

lemma Lowers.unique (h : Lowers children counts ready counts₁ ready₁)
    (h' : Lowers children counts ready counts₂ ready₂) : counts₁ = counts₂ ∧ ready₁ = ready₂ := by
  induction h with
  | nil =>
    cases h'
    exact ⟨rfl, rfl⟩
  | cons hleft _ ih =>
    cases h' with
    | cons hleft' hrest' =>
      cases hleft.symm.trans hleft'
      exact ih hrest'

/-- There is only one way to take the nodes out. -/
lemma TakesOut.unique (h : TakesOut g counts ready out) (h' : TakesOut g counts ready out') :
    out = out' := by
  induction h generalizing out' with
  | done =>
    cases h'
    rfl
  | next hlower _ ih =>
    cases h' with
    | next hlower' hrest' =>
      obtain ⟨rfl, rfl⟩ := hlower.unique hlower'
      rw [ih hrest']

end TakesOut

/-! ### A schedule that is drained -/

section Drained

variable {g : Graph} {s s' : Schedule} {taken done out : List Nat} {i : Nat}

/-- Children whose counts are not zero are counted down as they are lowered. -/
lemma lowers_countDownAll {children : List Nat} (hsorted : s.ready.Pairwise (· < ·))
    (hnodup : children.Nodup) (hpos : ∀ c ∈ children, 0 < s.left c) :
    Lowers children s.remaining s.ready (s.countDownAll children).1.remaining
      (s.countDownAll children).1.ready := by
  induction children generalizing s with
  | nil => exact .nil
  | cons child rest ih =>
    obtain ⟨hnew, hnodup⟩ := List.nodup_cons.1 hnodup
    rw [List.forall_mem_cons] at hpos
    obtain ⟨left, hleft⟩ : ∃ left, s.remaining[child]? = some (left + 1) := by
      have hchild := hpos.1
      unfold Schedule.left at hchild
      cases hcount : s.remaining[child]? with
      | none => simp [hcount] at hchild
      | some n =>
        rw [hcount, Option.getD_some] at hchild
        exact ⟨n - 1, congrArg some (by omega)⟩
    have hlower := Schedule.lower_eq_countDown hsorted child
    rw [lower, hleft, Option.getD_some, Nat.add_sub_cancel] at hlower
    obtain ⟨hcounts, hready⟩ := Prod.mk.inj hlower
    rw [Schedule.countDownAll_cons]
    refine .cons hleft ?_
    rw [hcounts, hready]
    refine ih (Schedule.countDown_ready_pairwise s child hsorted) hnodup ?_
    intro c hc
    have hne : c ≠ child := fun heq => hnew (heq ▸ hc)
    rw [Schedule.countDown_left, if_neg hne]
    exact hpos.2 c hc

/-- The count of a child is not zero as long as one of its parents is not settled. -/
lemma left_pos (hg : g.Sound) (h : InTurn g ⟨taken, s⟩) (hi : i ∉ s.settled) {c : Nat}
    (hc : c ∈ g.children i) : 0 < s.left c := by
  rw [h.counts.left c (Schedule.lt_size_of_mem_children hg hc), List.countP_pos_iff]
  exact ⟨i, (hg.mem_children i c).1 hc, by simpa using hi⟩

/-- **Draining a schedule** takes the nodes out, and lowers no count below zero. -/
theorem drains_takesOut (hg : g.Sound) (h : Drains g s out s') (hin : InTurn g ⟨taken, s⟩) :
    TakesOut g s.remaining s.ready out := by
  induction h generalizing taken with
  | done hpop =>
    rw [Schedule.pop_eq_none hpop]
    exact .done
  | @next s s₁ s' i out hpop _ ih =>
    obtain ⟨hready, -, hremaining⟩ := Schedule.pop_eq_some hpop
    have htake := hin.turn hg (.take hpop)
    have hnew := hin.not_settled_of_pop hpop
    have hlower := lowers_countDownAll (s := { s₁ with settled := i :: s₁.settled })
      htake.counts.sorted (Schedule.children_nodup hg i) fun c hc => left_pos hg htake hnew hc
    rw [hready, ← hremaining]
    refine .next ?_ (ih (htake.turn hg (.settle List.mem_cons_self)))
    rw [Schedule.settle, if_neg hnew]
    exact hlower

/-- A schedule that is drained gives every node after its parents. -/
theorem drains_parentsFirst (hg : g.Sound) (h : Drains g s out s') (hin : InTurn g ⟨taken, s⟩)
    (hsame : ∀ j, j ∈ done ↔ j ∈ taken) (hdone : g.ParentsFirst done) :
    g.ParentsFirst (done ++ out) := by
  induction h generalizing taken done with
  | done =>
    rw [List.append_nil]
    exact hdone
  | @next s s₁ s' i out hpop _ ih =>
    have hready : i ∈ s.ready := by
      rw [(Schedule.pop_eq_some hpop).1]
      exact List.mem_cons_self
    have hparents := Schedule.isReady_iff.1 ((hin.counts.offered i).1 (.inl hready)).2
    have hnext := (hin.turn hg (.take hpop)).turn hg (.settle List.mem_cons_self)
    rw [← List.concat_append, List.concat_eq_append]
    refine ih hnext ?_ (hdone.concat fun p hp => (hsame p).2 (hin.settled_subset (hparents p hp)))
    intro j
    rw [List.mem_append, hsame, List.mem_singleton, List.mem_cons, or_comm]

/-- **The earliest order.** If what was taken so far is the start of an order of all nodes with the
parents first, then the rest of that order is what comes out of the schedule, or is later. -/
theorem drains_earliest (hg : g.Sound) (h : Drains g s out s') (hin : InTurn g ⟨taken, s⟩)
    (hsettled : taken ⊆ s.settled) (hsame : ∀ j, j ∈ done ↔ j ∈ taken) {rest : List Nat}
    (hperm : (done ++ rest).Perm (List.range g.size)) (hfirst : g.ParentsFirst (done ++ rest)) :
    out = rest ∨ List.Lex (· < ·) out rest := by
  induction h generalizing taken done rest with
  | done =>
    cases rest with
    | nil => exact .inl rfl
    | cons j rest => exact .inr .nil
  | @next s s₁ s' i out hpop _ ih =>
    obtain ⟨hready, hkept, -⟩ := Schedule.pop_eq_some hpop
    have htake := hin.turn hg (.take hpop)
    have hfresh : i ∉ taken := hin.counts.fresh i (hready ▸ List.mem_cons_self)
    have hlt : i < g.size := htake.lt_size List.mem_cons_self
    obtain ⟨hnodup, -, hapart⟩ := List.nodup_append.1 (hperm.nodup_iff.2 List.nodup_range)
    cases rest with
    | nil =>
      -- the node that was taken is not in the other order
      have hmem := hperm.mem_iff.2 (List.mem_range.2 hlt)
      rw [List.append_nil] at hmem
      exact absurd ((hsame i).1 hmem) hfresh
    | cons j rest =>
      -- the other order goes on with a node that is ready too, so with no earlier one
      have hj : j ∈ s.ready := by
        have hsize := List.mem_range.1 (hperm.mem_iff.1 (List.mem_append_right done List.mem_cons_self))
        have hall : g.isReady j s.settled = true := Schedule.isReady_iff.2 fun p hp =>
          hsettled ((hsame p).1 (hfirst.of_append p hp))
        refine ((hin.counts.offered j).2 ⟨hsize, hall⟩).resolve_right ?_
        intro hmem
        exact hapart j ((hsame j).2 hmem) j List.mem_cons_self rfl
      have hle : i ≤ j := by
        have hsorted := hin.counts.sorted
        rw [hready] at hj hsorted
        rcases List.mem_cons.1 hj with rfl | hj
        · exact le_rfl
        · exact (List.rel_of_pairwise_cons hsorted hj).le
      rcases Nat.lt_or_eq_of_le hle with hlt | rfl
      · exact .inr (.rel hlt)
      · rw [← List.concat_append, List.concat_eq_append] at hperm hfirst
        have hnext := htake.turn hg (.settle List.mem_cons_self)
        refine (ih hnext ?_ ?_ hperm hfirst).imp (congrArg (i :: ·)) List.Lex.cons
        · rw [Schedule.settle_settled, if_neg (hin.not_settled_of_pop hpop), hkept]
          exact List.cons_subset_cons i hsettled
        · intro k
          rw [List.mem_append, hsame, List.mem_singleton, List.mem_cons, or_comm]

end Drained

/-! ### The order of a compiled graph -/

section Compiled

variable {f : Flow} {g : Graph}

/-- Every step waits for something. -/
lemma compile_parents_ne_nil (h : f.compile = .ok g) {k : Nat} (hk : k + 1 < g.size) :
    g.parents (k + 1) ≠ [] := by
  rw [compile_size h] at hk
  obtain ⟨hnone, hsome⟩ := compile_waitsFor h
    (List.getElem?_eq_getElem (l := f.declared) (i := k) (by omega))
  by_cases hdeps : f.declared[k].spec.dependencies = []
  · rw [hnone hdeps]
    exact List.cons_ne_nil k []
  · obtain ⟨named, hnamed, hparents⟩ := hsome hdeps
    cases named with
    | nil => exact absurd (List.forall₂_nil_right_iff.1 hnamed) hdeps
    | cons j rest =>
      rw [hparents, List.map_cons, List.eraseDups_cons]
      exact List.cons_ne_nil _ _

/-- At the start only the root is ready. -/
lemma compile_sourcesOf (h : f.compile = .ok g) : g.sourcesOf = [0] := by
  obtain ⟨-, -, hroot, -⟩ := compile_eq_ok h
  have hsize := compile_size h
  rw [sourcesOf, hsize, List.range_succ_eq_map, List.filter_cons, hroot, if_pos List.isEmpty_nil,
    List.filter_eq_nil_iff.2]
  intro i hi
  obtain ⟨k, hk, rfl⟩ := List.mem_map.1 hi
  rw [List.mem_range] at hk
  simpa using compile_parents_ne_nil h (by omega : k + 1 < g.size)

/-- **The order of a compiled graph** has every node once, the root first and every node behind all its
parents. It is what is taken out, the earliest ready node each time until none is ready, with no count
lowered below zero; and of all orders of the nodes with the parents first it is the earliest. -/
theorem order_earliest (h : f.compile = .ok g) :
    g.order.Perm (List.range g.size) ∧ g.order.head? = some 0 ∧ g.ParentsFirst g.order ∧
    (∀ out, TakesOut g g.parentCounts g.sourcesOf out ↔ out = g.order) ∧
    ∀ l, l.Perm (List.range g.size) → g.ParentsFirst l →
      g.order = l ∨ List.Lex (· < ·) g.order l := by
  have hg := compile_sound h
  obtain ⟨s, hdrains, -⟩ := Schedule.exists_drains_order hg
  have hin := Schedule.inTurn_new g
  have htakes : TakesOut g g.parentCounts g.sourcesOf g.order := drains_takesOut hg hdrains hin
  have hnone (j : Nat) : j ∈ ([] : List Nat) ↔ j ∈ ([] : List Nat) := Iff.rfl
  refine ⟨Schedule.order_perm hg, ?_, ?_, ?_, ?_⟩
  · rw [order, compile_sourcesOf h, compile_size h, takeOut]
    rfl
  · exact drains_parentsFirst hg hdrains hin hnone (parentsFirst_nil g)
  · intro out
    constructor
    · exact fun hout => hout.unique htakes
    · rintro rfl
      exact htakes
  · intro l hperm hfirst
    exact drains_earliest hg hdrains hin (List.nil_subset _) hnone hperm hfirst

end Compiled

/-- Pages and pictures, which need nothing of each other, and the site that is made of both. -/
def site : Flow where
  steps :=
    [("source", { spec := { bash := some "git clone" } }),
      ("site", { spec := { bash := some "make site", dependencies := ["pages", "pictures"] } }),
      ("pages", { spec := { bash := some "make pages", dependencies := ["source"] } }),
      ("pictures", { spec := { bash := some "make pictures", dependencies := ["source"] } })]

lemma site_order : ∃ g, site.compile = .ok g ∧ g.size = 5 ∧ g.order = [0, 1, 3, 4, 2] ∧
    g.ParentsFirst [0, 1, 4, 3, 2] :=
  exists_compiled (by cbv)

/-- The pictures may be made before the pages, but that order is later. -/
theorem order_earliest_site : ∃ g, site.compile = .ok g ∧ g.order.head? = some 0 ∧
    g.ParentsFirst [0, 1, 4, 3, 2] ∧ List.Lex (· < ·) g.order [0, 1, 4, 3, 2] := by
  obtain ⟨g, hg, hsize, horder, hother⟩ := site_order
  obtain ⟨-, hhead, -, -, hearliest⟩ := order_earliest hg
  refine ⟨g, hg, hhead, hother, (hearliest _ ?_ hother).resolve_left ?_⟩
  · rw [hsize]
    decide
  · rw [horder]
    decide

end Graph

end StepFlow

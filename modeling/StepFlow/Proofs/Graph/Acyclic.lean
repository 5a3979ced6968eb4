import StepFlow.Graph.Order
import StepFlow.Proofs.Graph.Edges

/-!
A compiled graph has no cycle. The search from every node in turn leaves behind only nodes from
which all ways along the edges come to an end, and when it meets no cycle it has left all of them
behind. So one node can be before another one but never before itself, statements about nodes are
proved from the parents to the children, and what is behind a node is found by the sweep.
-/

namespace StepFlow.Graph

/-! ### Well-formed graphs -/

/-- `a` is before `b`: it is one of the nodes that `b` waits for, directly or not. -/
def Before (g : Graph) : Nat → Nat → Prop := Relation.TransGen fun a b => a ∈ g.parents b

/-- What holds of every graph that a flow compiles to. -/
structure Sound (g : Graph) : Prop where
  mem_children : ∀ a b, b ∈ g.children a ↔ a ∈ g.parents b
  lt_size : ∀ a b, a ∈ g.parents b → a < g.size ∧ b < g.size
  children_sorted : ∀ a, (g.children a).Pairwise (· < ·)
  parents_nodup : ∀ b, (g.parents b).Nodup
  irrefl : ∀ a, ¬ g.Before a a

/-! ### The search -/

section Search

variable (g : Graph)

/-- All ways along the edges from a node come to an end. -/
def Ends (i : Nat) : Prop := Acc (fun c b => c ∈ g.children b) i

/-- A search in progress: the children of a node on the trail are still to be looked at, or end, or
stand next on the trail. `above` is the node that was searched from this trail on. -/
def Open : (above : Option Nat) → Trail → Prop
  | _, [] => True
  | above, (i, cs) :: rest =>
    (∀ c ∈ g.children i, c ∈ cs ∨ some c = above ∨ g.Ends c) ∧ Open (some i) rest

variable {g}

lemma Ends.of_children {i : Nat} (h : ∀ c ∈ g.children i, g.Ends c) : g.Ends i := ⟨i, h⟩

lemma Ends.of_size_le {i : Nat} (h : g.size ≤ i) : g.Ends i :=
  .of_children fun c hc => by
    rw [children_of_size_le h] at hc
    cases hc

lemma mem_path {trail : Trail} {x : Nat} : x ∈ Trail.path trail ↔ x ∈ trail.map (·.1) := by
  simp [Trail.path]

lemma Open.close {i : Nat} {rest : Trail} (h : Open g (some i) rest) (hi : g.Ends i) :
    Open g none rest := by
  match rest with
  | [] => trivial
  | (j, cs) :: rest =>
    refine ⟨?_, h.2⟩
    intro c hc
    rcases h.1 c hc with hmem | heq | hends
    · exact .inl hmem
    · cases heq
      exact .inr (.inr hi)
    · exact .inr (.inr hends)

/-- **A search that meets no cycle leaves only ending nodes behind.** -/
theorem ends_of_search {visited : List Nat} {trail : Trail} {visited' : List Nat}
    (h : g.search visited trail = .ok visited') (hopen : Open g none trail)
    (hvisited : ∀ x ∈ visited, x ∈ trail.map (·.1) ∨ g.Ends x) :
    visited ⊆ visited' ∧ ∀ x ∈ visited', g.Ends x := by
  induction visited, trail using search.induct g generalizing visited' with
  | case1 visited =>
    rw [search] at h
    cases h
    refine ⟨fun x hx => hx, ?_⟩
    intro x hx
    rcases hvisited x hx with hnil | hends
    · cases hnil
    · exact hends
  | case2 visited i rest ih =>
    rw [search] at h
    -- the search from `i` is over
    have hi : g.Ends i := .of_children fun c hc => by
      rcases hopen.1 c hc with hmem | heq | hends
      · cases hmem
      · cases heq
      · exact hends
    refine ih h (hopen.2.close hi) ?_
    intro x hx
    rcases hvisited x hx with hmem | hends
    · rcases List.mem_cons.1 hmem with rfl | hmem
      · exact .inr hi
      · exact .inl hmem
    · exact .inr hends
  | case3 visited i c cs rest =>
    rename_i hc
    rw [search, if_pos hc] at h
    cases h
  | case4 visited i c cs rest hnew =>
    rename_i hc ih
    rw [search, if_neg hc, dif_pos hnew] at h
    -- the search goes on from `c`
    have hopen' : Open g none ((c, g.children c) :: (i, cs) :: rest) := by
      refine ⟨fun _ hx => .inl hx, ?_, hopen.2⟩
      intro x hx
      rcases hopen.1 x hx with hmem | heq | hends
      · rcases List.mem_cons.1 hmem with rfl | hmem
        · exact .inr (.inl rfl)
        · exact .inl hmem
      · cases heq
      · exact .inr (.inr hends)
    obtain ⟨hsub, hends⟩ := ih h hopen' fun x hx => by
      rcases List.mem_cons.1 hx with rfl | hx
      · exact .inl List.mem_cons_self
      · exact (hvisited x hx).imp (List.mem_cons_of_mem _) id
    exact ⟨fun x hx => hsub (List.mem_cons_of_mem _ hx), hends⟩
  | case5 visited i c cs rest hold =>
    rename_i hc ih
    rw [search, if_neg hc, dif_neg hold] at h
    -- `c` was left behind before, or is no node at all
    have hend : g.Ends c := by
      by_cases hlt : c < g.size
      · have hmem : c ∈ visited := by
          by_contra hmem
          exact hold ⟨hlt, hmem⟩
        rcases hvisited c hmem with hpath | hends
        · exact absurd (mem_path.2 hpath) hc
        · exact hends
      · exact .of_size_le (Nat.le_of_not_lt hlt)
    refine ih h ⟨?_, hopen.2⟩ hvisited
    intro x hx
    rcases hopen.1 x hx with hmem | heq | hends
    · rcases List.mem_cons.1 hmem with rfl | hmem
      · exact .inr (.inr hend)
      · exact .inl hmem
    · cases heq
    · exact .inr (.inr hends)

theorem ends_of_searchAll {visited todo visited' : List Nat}
    (h : g.searchAll visited todo = .ok visited') (hvisited : ∀ x ∈ visited, g.Ends x) :
    visited ⊆ visited' ∧ ∀ x, x ∈ todo ∨ x ∈ visited' → g.Ends x := by
  induction todo generalizing visited with
  | nil =>
    cases h
    exact ⟨fun x hx => hx, fun x hx => hx.elim (fun hn => nomatch hn) (hvisited x)⟩
  | cons i rest ih =>
    rw [searchAll] at h
    split at h
    · rename_i hi
      obtain ⟨hsub, hends⟩ := ih h hvisited
      refine ⟨hsub, ?_⟩
      intro x hx
      rcases hx with hx | hx
      · rcases List.mem_cons.1 hx with rfl | hx
        · exact hvisited x hi
        · exact hends x (.inl hx)
      · exact hends x (.inr hx)
    · split at h
      · cases h
      · rename_i v hv
        obtain ⟨hsub, hends⟩ := ends_of_search hv ⟨fun _ hc => .inl hc, trivial⟩ (fun x hx => by
          rcases List.mem_cons.1 hx with rfl | hx
          · exact .inl List.mem_cons_self
          · exact .inr (hvisited x hx))
        obtain ⟨hsub', hends'⟩ := ih h hends
        refine ⟨fun x hx => hsub' (hsub (List.mem_cons_of_mem _ hx)), ?_⟩
        intro x hx
        rcases hx with hx | hx
        · rcases List.mem_cons.1 hx with rfl | hx
          · exact hends x (hsub List.mem_cons_self)
          · exact hends' x (.inl hx)
        · exact hends' x (.inr hx)

/-- **In a graph without a cycle all ways along the edges end.** -/
theorem ends_of_cycle?_eq_none (h : g.cycle? = none) (i : Nat) : g.Ends i := by
  unfold cycle? at h
  split at h
  · cases h
  · rename_i v hv
    by_cases hi : i < g.size
    · exact (ends_of_searchAll hv (fun x hx => nomatch hx)).2 i (.inl (List.mem_range.2 hi))
    · exact .of_size_le (Nat.le_of_not_lt hi)

/-- **In a graph without a cycle** no node is before itself. -/
theorem not_before_self (hmem : ∀ a b, b ∈ g.children a ↔ a ∈ g.parents b)
    (h : g.cycle? = none) (a : Nat) : ¬ g.Before a a := by
  have hwf : WellFounded fun c b => c ∈ g.children b := ⟨ends_of_cycle?_eq_none h⟩
  -- a way from a node back to itself never ends
  intro ha
  have hback : Relation.TransGen (fun c b => c ∈ g.children b) a a := by
    rw [← Relation.transGen_swap]
    exact Relation.TransGen.mono (fun x y hxy => (hmem x y).2 hxy) a a ha
  exact hwf.transGen.irrefl.irrefl a hback

end Search

/-! ### Compiled graphs -/

/-- A wired graph has the same edges whether they are read from the parents or from the children. -/
theorem Wired.mem_children_iff {t : Tree} {g : Graph} {past : Nat} (h : Wired t past g)
    (hpast : past ≤ t.size) (a b : Nat) : b ∈ g.children a ↔ a ∈ g.parents b := by
  by_cases ha : a < t.size
  · rw [h.mem_children ha, and_iff_right_iff_imp]
    intro hab
    by_contra hb
    rw [h.later b (by omega)] at hab
    cases hab
  · rw [children_of_size_le (by rw [h.size]; omega)]
    exact iff_of_false (fun hb => nomatch hb) fun hab => ha (h.parent_lt b a hab)

/-- **A compiled graph is well-formed**, and no node of it is before itself. -/
theorem compile_sound {f : Flow} {g : Graph} (h : f.compile = .ok g) : g.Sound := by
  obtain ⟨ht, hw, hroot, hwaits, hcycle⟩ := compile_eq_ok h
  have hlt : ∀ a b, a ∈ g.parents b → a < g.size ∧ b < g.size := fun a b hab => by
    refine ⟨hw.size ▸ hw.parent_lt b a hab, ?_⟩
    by_contra hb
    rw [hw.later b (Nat.le_of_not_lt hb)] at hab
    cases hab
  have hmem := hw.mem_children_iff hw.size.le
  refine ⟨hmem, hlt, ?_, ?_, not_before_self hmem hcycle⟩
  · intro a
    by_cases ha : a < g.tree.size
    · rw [hw.children a ha]
      exact List.pairwise_lt_range.filter _
    · rw [children_of_size_le (by rw [hw.size]; omega)]
      exact List.Pairwise.nil
  · intro b
    by_cases hb : 0 < b ∧ b < g.size
    · obtain ⟨n, -, hnone, hsome⟩ := hwaits b hb.1 hb.2
      by_cases hdeps : n.dependencies = []
      · rw [hnone hdeps]
        exact List.nodup_singleton _
      · obtain ⟨named, -, hparents⟩ := hsome hdeps
        rw [hparents]
        exact eraseDups_nodup _
    · by_cases hz : b = 0
      · rw [hz, hroot]
        exact List.nodup_nil
      · rw [hw.later b (by omega)]
        exact List.nodup_nil

section Sound

variable {g : Graph}

lemma Before.of_parent {a b : Nat} (h : a ∈ g.parents b) : g.Before a b := .single h

lemma Before.trans {a b c : Nat} (hab : g.Before a b) (hbc : g.Before b c) : g.Before a c :=
  Relation.TransGen.trans hab hbc

/-- What is before a node is one of its parents or before one of them. -/
lemma before_iff {a b : Nat} :
    g.Before a b ↔ a ∈ g.parents b ∨ ∃ p ∈ g.parents b, g.Before a p := by
  constructor
  · intro h
    cases h with
    | single h => exact .inl h
    | tail h hp => exact .inr ⟨_, hp, h⟩
  · rintro (h | ⟨p, hp, h⟩)
    · exact .of_parent h
    · exact h.trans (.of_parent hp)

lemma Sound.lt_size_of_before (h : g.Sound) {a b : Nat} (hab : g.Before a b) :
    a < g.size ∧ b < g.size := by
  induction hab with
  | single hab => exact h.lt_size _ _ hab
  | tail _ hbc ih => exact ⟨ih.1, (h.lt_size _ _ hbc).2⟩

/-- **From the parents to the children.** What holds of a node when it holds of all its parents
holds of all nodes. -/
theorem Sound.induction (h : g.Sound) {P : Nat → Prop}
    (step : ∀ i < g.size, (∀ p ∈ g.parents i, P p) → P i) : ∀ i < g.size, P i := by
  have hstrict : IsStrictOrder Nat g.Before :=
    { irrefl := h.irrefl, trans := fun _ _ _ => Before.trans }
  have hwf : {i | i < g.size}.WellFoundedOn g.Before := (Set.finite_lt_nat g.size).wellFoundedOn
  intro i hi
  refine hwf.induction (P := P) hi fun i hi ih => step i hi ?_
  intro p hp
  exact ih p (h.lt_size p i hp).1 (.of_parent hp)

end Sound

/-! ### Behind a node -/

section Behind

variable {g : Graph}

/-- The sweep meets only what can be reached. -/
theorem of_mem_sweep {P : Nat → Prop} (hP : ∀ a, P a → ∀ c ∈ g.children a, P c)
    {met queue : List Nat} (hmet : ∀ x ∈ met, P x) (hqueue : ∀ x ∈ queue, P x) :
    ∀ x ∈ g.sweep met queue, P x := by
  induction met, queue using sweep.induct g with
  | case1 met =>
    rw [sweep]
    exact hmet
  | case2 met i queue hnew ih =>
    rw [sweep, dif_pos hnew]
    have hi := hqueue i List.mem_cons_self
    refine ih ?_ ?_
    · intro x hx
      rcases List.mem_append.1 hx with hx | hx
      · exact hmet x hx
      · exact List.mem_singleton.1 hx ▸ hi
    · intro x hx
      rcases List.mem_append.1 hx with hx | hx
      · exact hqueue x (List.mem_cons_of_mem _ hx)
      · exact hP i hi x hx
  | case3 met i queue hold ih =>
    rw [sweep, dif_neg hold]
    exact ih hmet fun x hx => hqueue x (List.mem_cons_of_mem _ hx)

/-- The sweep keeps what it met, meets what is queued, and goes on from all it meets. -/
theorem sweep_closed (h : g.Sound) {met queue : List Nat} (hqueue : ∀ x ∈ queue, x < g.size)
    (hmet : ∀ x ∈ met, ∀ c ∈ g.children x, c ∈ met ∨ c ∈ queue) :
    (∀ x, x ∈ met ∨ x ∈ queue → x ∈ g.sweep met queue) ∧
      ∀ x ∈ g.sweep met queue, ∀ c ∈ g.children x, c ∈ g.sweep met queue := by
  induction met, queue using sweep.induct g with
  | case1 met =>
    rw [sweep]
    refine ⟨fun x hx => hx.elim id (fun hn => nomatch hn), ?_⟩
    intro x hx c hc
    exact (hmet x hx c hc).elim id (fun hn => nomatch hn)
  | case2 met i queue hnew ih =>
    rw [sweep, dif_pos hnew]
    have hlt : ∀ x ∈ queue ++ g.children i, x < g.size := fun x hx => by
      rcases List.mem_append.1 hx with hx | hx
      · exact hqueue x (List.mem_cons_of_mem _ hx)
      · exact (h.lt_size i x ((h.mem_children i x).1 hx)).2
    obtain ⟨hkeep, hclosed⟩ := ih hlt fun x hx c hc => by
      simp only [List.mem_append, List.mem_singleton] at hx ⊢
      rcases hx with hx | rfl
      · rcases hmet x hx c hc with hc | hc
        · exact .inl (.inl hc)
        · rcases List.mem_cons.1 hc with rfl | hc
          · exact .inl (.inr rfl)
          · exact .inr (.inl hc)
      · exact .inr (.inr hc)
    refine ⟨fun x hx => hkeep x ?_, hclosed⟩
    simp only [List.mem_append, List.mem_cons] at hx ⊢
    tauto
  | case3 met i queue hold ih =>
    rw [sweep, dif_neg hold]
    have hi : i ∈ met := by
      by_contra hi
      exact hold ⟨hqueue i List.mem_cons_self, hi⟩
    obtain ⟨hkeep, hclosed⟩ := ih (fun x hx => hqueue x (List.mem_cons_of_mem _ hx))
      fun x hx c hc => by
        rcases hmet x hx c hc with hc | hc
        · exact .inl hc
        · rcases List.mem_cons.1 hc with rfl | hc
          · exact .inl hi
          · exact .inr hc
    refine ⟨fun x hx => hkeep x ?_, hclosed⟩
    rcases hx with hx | hx
    · exact .inl hx
    · rcases List.mem_cons.1 hx with rfl | hx
      · exact .inl hi
      · exact .inr hx

/-- **What is behind a node are the nodes that it is before.** -/
theorem mem_behind (h : g.Sound) {i j : Nat} : j ∈ g.behind i ↔ g.Before i j := by
  have hlt : ∀ x ∈ g.children i, x < g.size := fun x hx =>
    (h.lt_size i x ((h.mem_children i x).1 hx)).2
  have hnil : ∀ x ∈ ([] : List Nat), ∀ c ∈ g.children x, c ∈ ([] : List Nat) ∨ c ∈ g.children i := by
    simp
  constructor
  · intro hj
    refine of_mem_sweep (P := g.Before i) ?_ (by simp) ?_ j hj
    · intro a ha c hc
      exact ha.trans (.of_parent ((h.mem_children a c).1 hc))
    · intro x hx
      exact .of_parent ((h.mem_children i x).1 hx)
  · intro hj
    obtain ⟨hkeep, hclosed⟩ := sweep_closed h hlt hnil
    induction hj with
    | single hij => exact hkeep _ (.inr ((h.mem_children _ _).2 hij))
    | tail _ hjk ih => exact hclosed _ ih _ ((h.mem_children _ _).2 hjk)

end Behind

end StepFlow.Graph

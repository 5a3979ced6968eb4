import Mathlib.Data.List.Chain
import StepFlow.Proofs.Graph.Acyclic

/-!
Cycles that a search reports. The trail of a search is a way along the edges on which no node comes
twice, so the part of it that an edge closes is a cycle. A graph in which no cycle is reported has
none, so a cycle is reported just when there is one. And a search ends on every graph, with cycles or
without.
-/

namespace StepFlow.Graph

/-- A way along the edges that ends where it began and meets no other node twice. -/
structure IsCycle (g : Graph) (cycle : List Nat) : Prop where
  length : 2 ≤ cycle.length
  closed : cycle.head? = cycle.getLast?
  nodup : cycle.dropLast.Nodup
  chain : cycle.IsChain fun a b => b ∈ g.children a

/-! ### Reported cycles -/

/-- What holds of the trail of a search: its nodes are distinct, each but the outermost is a child of
the one around it, and what is still to be looked at are children. -/
structure Walked (g : Graph) (trail : Trail) : Prop where
  pending : ∀ i cs, (i, cs) ∈ trail → cs ⊆ g.children i
  chain : (trail.map (·.1)).IsChain fun c i => c ∈ g.children i
  nodup : (trail.map (·.1)).Nodup

section Reported

variable {g : Graph} {visited cycle : List Nat} {trail rest : Trail} {i c : Nat} {cs : List Nat}

lemma walked_single (g : Graph) (i : Nat) : Walked g [(i, g.children i)] where
  pending := fun j cs h => by
    cases List.mem_singleton.1 h
    exact fun _ hc => hc
  chain := List.isChain_singleton i
  nodup := List.nodup_singleton i

lemma Walked.back (h : Walked g ((i, cs) :: rest)) : Walked g rest where
  pending := fun j cs hj => h.pending j cs (List.mem_cons_of_mem _ hj)
  chain := h.chain.tail
  nodup := (List.nodup_cons.1 h.nodup).2

/-- A child was looked at. -/
lemma Walked.pass (h : Walked g ((i, c :: cs) :: rest)) : Walked g ((i, cs) :: rest) where
  pending := by
    intro j cs' hj
    rcases List.mem_cons.1 hj with heq | hj
    · cases heq
      exact fun x hx => h.pending i (c :: cs) List.mem_cons_self (List.mem_cons_of_mem _ hx)
    · exact h.pending j cs' (List.mem_cons_of_mem _ hj)
  chain := h.chain
  nodup := h.nodup

/-- The search goes on to a child that is not on the trail. -/
lemma Walked.deeper (h : Walked g ((i, c :: cs) :: rest))
    (hnew : c ∉ Trail.path ((i, c :: cs) :: rest)) :
    Walked g ((c, g.children c) :: (i, cs) :: rest) where
  pending := by
    intro j cs' hj
    rcases List.mem_cons.1 hj with heq | hj
    · cases heq
      exact fun _ hx => hx
    · exact h.pass.pending j cs' hj
  chain := List.isChain_cons_cons.2
    ⟨h.pending i (c :: cs) List.mem_cons_self List.mem_cons_self, h.chain⟩
  nodup := List.nodup_cons.2 ⟨fun hmem => hnew (mem_path.2 hmem), h.nodup⟩

/-- **An edge back into the trail** closes a cycle. -/
lemma Walked.closes (h : Walked g ((i, c :: cs) :: rest))
    (hc : c ∈ Trail.path ((i, c :: cs) :: rest)) :
    IsCycle g ((Trail.path ((i, c :: cs) :: rest)).dropWhile (· ≠ c) ++ [c]) := by
  have hnodup : (Trail.path ((i, c :: cs) :: rest)).Nodup := List.nodup_reverse.2 h.nodup
  have hchain : (Trail.path ((i, c :: cs) :: rest)).IsChain fun a b => b ∈ g.children a :=
    List.isChain_reverse.2 h.chain
  have hlast : (Trail.path ((i, c :: cs) :: rest)).getLast? = some i := by
    rw [Trail.path, List.getLast?_reverse]
    rfl
  obtain ⟨before, post, hsplit⟩ := List.append_of_mem hc
  rw [hsplit] at hnodup hchain hlast ⊢
  have hfirst : c ∉ before := fun hmem =>
    (List.nodup_append.1 hnodup).2.2 c hmem c List.mem_cons_self rfl
  have hdrop : (before ++ c :: post).dropWhile (· ≠ c) = c :: post := by
    rw [List.dropWhile_append_of_pos fun x hx => by simpa using ne_of_mem_of_not_mem hx hfirst]
    simp
  rw [hdrop]
  refine ⟨by simp, ?_, ?_, ?_⟩
  · rw [List.getLast?_concat]
    rfl
  · rw [List.dropLast_concat]
    exact (List.nodup_append.1 hnodup).2.1
  · refine hchain.right_of_append.append (List.isChain_singleton c) ?_
    intro a ha b hb
    -- the innermost node of the trail is the one whose child is looked at
    rw [List.getLast?_append_of_ne_nil _ (List.cons_ne_nil _ _)] at hlast
    obtain rfl : i = a := Option.some.inj (hlast.symm.trans ha)
    cases hb
    exact h.pending i (c :: cs) List.mem_cons_self List.mem_cons_self

/-- **What a search reports is a cycle.** -/
theorem isCycle_of_search (h : g.search visited trail = .error cycle) (hwalked : Walked g trail) :
    IsCycle g cycle := by
  induction visited, trail using search.induct g with
  | case1 visited =>
    rw [search] at h
    cases h
  | case2 visited i rest ih =>
    rw [search] at h
    exact ih h hwalked.back
  | case3 visited i c cs rest =>
    rename_i hc
    rw [search, if_pos hc] at h
    cases h
    exact hwalked.closes hc
  | case4 visited i c cs rest hnew =>
    rename_i hc ih
    rw [search, if_neg hc, dif_pos hnew] at h
    exact ih h (hwalked.deeper hc)
  | case5 visited i c cs rest hold =>
    rename_i hc ih
    rw [search, if_neg hc, dif_neg hold] at h
    exact ih h hwalked.pass

lemma isCycle_of_searchAll {todo : List Nat} (h : g.searchAll visited todo = .error cycle) :
    IsCycle g cycle := by
  induction todo generalizing visited with
  | nil => cases h
  | cons i todo ih =>
    rw [searchAll] at h
    split at h
    · exact ih h
    · split at h
      · rename_i cycle' hcycle
        cases h
        exact isCycle_of_search hcycle (walked_single g i)
      · exact ih h

theorem isCycle_of_cycle?_eq_some (h : g.cycle? = some cycle) : IsCycle g cycle := by
  unfold cycle? at h
  split at h
  · rename_i c hc
    cases h
    exact isCycle_of_searchAll hc
  · cases h

/-- Every node on a cycle is a child of another one. -/
lemma IsCycle.exists_parent (h : IsCycle g cycle) {b : Nat} (hb : b ∈ cycle) :
    ∃ a, b ∈ g.children a := by
  obtain ⟨hlen, hclosed, -, hchain⟩ := h
  have htail : ∀ x ∈ cycle.tail, ∃ a, x ∈ g.children a := by
    intro x hx
    obtain ⟨k, hk, rfl⟩ := List.getElem_of_mem hx
    rw [List.length_tail] at hk
    rw [List.getElem_tail]
    exact ⟨_, List.isChain_iff_getElem.1 hchain k (by omega)⟩
  match cycle with
  | a :: c :: l =>
    rcases List.mem_cons.1 hb with rfl | hb
    · -- the first node stands at the end again
      exact htail b (List.mem_of_getLast? (hclosed.symm.trans rfl))
    · exact htail b hb

/-- A node on a cycle is before itself. -/
theorem IsCycle.exists_before (h : IsCycle g cycle)
    (hmem : ∀ a b, b ∈ g.children a → a ∈ g.parents b) : ∃ a, g.Before a a := by
  obtain ⟨hlen, hclosed, -, hchain⟩ := h
  match cycle with
  | a :: b :: l =>
    obtain ⟨hab, htail⟩ := List.isChain_cons_cons.1 hchain
    have hlast : (b :: l).getLast (List.cons_ne_nil b l) = a := by
      rw [List.getLast?_eq_getLast_of_ne_nil (List.cons_ne_nil a (b :: l))] at hclosed
      simpa using hclosed.symm
    have hway := List.relationReflTransGen_of_exists_isChain_cons l htail hlast
    refine ⟨a, ?_⟩
    exact .head' (hmem a b hab) (Relation.ReflTransGen.mono hmem b a hway)

end Reported

/-! ### Searches end -/

/-- A search between two looks: the nodes visited so far, and its trail. -/
abbrev Searching := List Nat × Trail

/-- What a search does next: it goes back from a node whose children were all looked at, it goes on
to a child that was not visited before, or it passes over a child. -/
inductive Move (g : Graph) : Searching → Searching → Prop
  | back (visited : List Nat) (i : Nat) (rest : Trail) :
      Move g (visited, (i, []) :: rest) (visited, rest)
  | deeper {visited : List Nat} {i c : Nat} {cs : List Nat} {rest : Trail}
      (hpath : c ∉ Trail.path ((i, c :: cs) :: rest)) (hnew : c < g.size ∧ c ∉ visited) :
      Move g (visited, (i, c :: cs) :: rest) (c :: visited, (c, g.children c) :: (i, cs) :: rest)
  | pass {visited : List Nat} {i c : Nat} {cs : List Nat} {rest : Trail}
      (hpath : c ∉ Trail.path ((i, c :: cs) :: rest)) (hold : ¬ (c < g.size ∧ c ∉ visited)) :
      Move g (visited, (i, c :: cs) :: rest) (visited, (i, cs) :: rest)

/-- Any number of moves. -/
abbrev Moves (g : Graph) : Searching → Searching → Prop := Relation.ReflTransGen g.Move

/-- How a search ends: nothing is left of the trail, or a child is met that is on it. -/
inductive Ended : Searching → Except (List Nat) (List Nat) → Prop
  | done (visited : List Nat) : Ended (visited, []) (.ok visited)
  | closed {visited : List Nat} {i c : Nat} {cs : List Nat} {rest : Trail}
      (hpath : c ∈ Trail.path ((i, c :: cs) :: rest)) :
      Ended (visited, (i, c :: cs) :: rest)
        (.error ((Trail.path ((i, c :: cs) :: rest)).dropWhile (· ≠ c) ++ [c]))

section Ended

variable (g : Graph)

/-- **No search goes on forever**, whatever the graph. -/
theorem moves_wellFounded : WellFounded fun y x => g.Move x y := by
  have hlex : WellFounded (Prod.Lex (· < ·) (· < ·) : Nat × Nat → Nat × Nat → Prop) :=
    WellFounded.prod_lex wellFounded_lt wellFounded_lt
  refine Subrelation.wf ?_ (InvImage.wf
    (fun x : Searching => (unvisited g.size x.1, Trail.pending x.2)) hlex)
  intro y x hmove
  cases hmove with
  | back => exact .right _ (by simp [Trail.pending])
  | deeper _ hnew => exact .left _ _ (unvisited_cons_lt hnew.1 hnew.2)
  | pass => exact .right _ (by simp [Trail.pending])

/-- **A search** moves until it ends, and returns how it ended. -/
theorem search_ended (visited : List Nat) (trail : Trail) :
    ∃ y, g.Moves (visited, trail) y ∧ Ended y (g.search visited trail) := by
  induction visited, trail using search.induct g with
  | case1 visited =>
    rw [search]
    exact ⟨_, .refl, .done visited⟩
  | case2 visited i rest ih =>
    rw [search]
    obtain ⟨y, hmoves, hended⟩ := ih
    exact ⟨y, .head (.back visited i rest) hmoves, hended⟩
  | case3 visited i c cs rest =>
    rename_i hc
    rw [search, if_pos hc]
    exact ⟨_, .refl, .closed hc⟩
  | case4 visited i c cs rest hnew =>
    rename_i hc ih
    rw [search, if_neg hc, dif_pos hnew]
    obtain ⟨y, hmoves, hended⟩ := ih
    exact ⟨y, .head (.deeper hc hnew) hmoves, hended⟩
  | case5 visited i c cs rest hold =>
    rename_i hc ih
    rw [search, if_neg hc, dif_neg hold]
    obtain ⟨y, hmoves, hended⟩ := ih
    exact ⟨y, .head (.pass hc hold) hmoves, hended⟩

end Ended

end StepFlow.Graph

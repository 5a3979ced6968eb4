import StepFlow.Proofs.Graph.Earliest

/-!
What is behind a node comes nearest first. While the sweep goes on, the queue begins with the nodes of
one layer, those `k` edges away, and goes on with nodes of the next one; whatever is nearer has been
met (`Layered`). So a node that is met now is no nearer than those before it. Behind the root are all
other nodes, for every step waits for something.
-/

namespace StepFlow.Graph

/-! ### Ways and distances -/

/-- `g.Way n i j`: one edge after the other, `n` edges lead from `i` to `j`. -/
inductive Way (g : Graph) : Nat → Nat → Nat → Prop where
  | stay (i : Nat) : Way g 0 i i
  | go {n i j k : Nat} (hj : Way g n i j) (hk : k ∈ g.children j) : Way g (n + 1) i k

/-- The distance of `j` from `i`: the fewest edges that lead there. -/
noncomputable def distance (g : Graph) (i j : Nat) : Nat := sInf {n | g.Way n i j}

section Ways

variable {g : Graph} {n i j : Nat}

lemma Way.distance_le (h : g.Way n i j) : g.distance i j ≤ n := Nat.sInf_le h

lemma Way.shortest (h : g.Way n i j) : g.Way (g.distance i j) i j :=
  Nat.sInf_mem (s := {n | g.Way n i j}) ⟨n, h⟩

lemma Way.before (hg : g.Sound) (h : g.Way n i j) (hn : 0 < n) : g.Before i j := by
  induction h with
  | stay i => omega
  | @go n i j k hj hk ih =>
    have hjk : g.Before j k := .of_parent ((hg.mem_children j k).1 hk)
    rcases Nat.eq_zero_or_pos n with rfl | hpos
    · cases hj
      exact hjk
    · exact (ih hpos).trans hjk

/-- A node is before another one when edges lead from the one to the other. -/
lemma before_iff_way (hg : g.Sound) : g.Before i j ↔ ∃ n, 0 < n ∧ g.Way n i j := by
  constructor
  · intro h
    induction h with
    | single hij => exact ⟨1, Nat.one_pos, (Way.stay i).go ((hg.mem_children _ _).2 hij)⟩
    | tail _ hjk ih =>
      obtain ⟨n, -, hn⟩ := ih
      exact ⟨n + 1, n.succ_pos, hn.go ((hg.mem_children _ _).2 hjk)⟩
  · rintro ⟨n, hpos, hn⟩
    exact hn.before hg hpos

end Ways

/-! ### Layers -/

/-- A sweep from `i` that has come to the nodes `k` edges away: `near` are those of them that may be
left, and `far` are nodes one edge further. -/
structure Layered (g : Graph) (i k : Nat) (met near far : List Nat) : Prop where
  pos : 0 < k
  sorted : met.Pairwise fun a b => g.distance i a ≤ g.distance i b
  met_le : ∀ x ∈ met, g.distance i x ≤ k
  near_way : ∀ x ∈ near, g.Way k i x
  far_way : ∀ x ∈ far, g.Way (k + 1) i x
  nearer : ∀ n x, 0 < n → n < k → g.Way n i x → x ∈ met
  layer : ∀ x, g.Way k i x → x ∈ met ∨ x ∈ near
  closed : ∀ x ∈ met, ∀ c ∈ g.children x, c ∈ met ∨ c ∈ near ∨ c ∈ far

section Layers

variable {g : Graph} {i j k : Nat} {met near far queue : List Nat}

lemma layered_start (g : Graph) (i : Nat) : Layered g i 1 [] (g.children i) [] where
  pos := Nat.one_pos
  sorted := List.Pairwise.nil
  met_le x hx := nomatch hx
  near_way x hx := (Way.stay i).go hx
  far_way x hx := nomatch hx
  nearer n x hpos hlt := by omega
  layer x hx := by
    obtain _ | ⟨hj, hx⟩ := hx
    cases hj
    exact .inr hx
  closed x hx := nomatch hx

/-- When a layer is used up the next one begins. -/
lemma Layered.next (h : Layered g i k met [] far) : Layered g i (k + 1) met far [] := by
  have hlayer : ∀ x, g.Way k i x → x ∈ met := fun x hx => (h.layer x hx).elim id fun hn => nomatch hn
  exact {
    pos := k.succ_pos
    sorted := h.sorted
    met_le := fun x hx => (h.met_le x hx).trans k.le_succ
    near_way := h.far_way
    far_way := fun x hx => nomatch hx
    nearer := by
      intro n x hpos hlt hx
      rcases Nat.lt_or_eq_of_le (Nat.le_of_lt_succ hlt) with hlt | rfl
      · exact h.nearer n x hpos hlt hx
      · exact hlayer x hx
    layer := by
      intro x hx
      obtain _ | ⟨hj, hx⟩ := hx
      exact (h.closed _ (hlayer _ hj) x hx).imp_right fun hx => hx.resolve_left fun hn => nomatch hn
    closed := fun x hx c hc => (h.closed x hx c hc).imp_right fun hx =>
      .inl (hx.resolve_left fun hn => nomatch hn) }

/-- The next node of the queue belongs to the layer at hand. -/
lemma Layered.exists_cons (h : Layered g i k met near far) (hqueue : near ++ far = j :: queue) :
    ∃ k near far, queue = near ++ far ∧ Layered g i k met (j :: near) far := by
  cases near with
  | nil =>
    cases hqueue
    exact ⟨k + 1, queue, [], by simp, h.next⟩
  | cons x near =>
    cases hqueue
    exact ⟨k, near, far, rfl, h⟩

/-- A node that was met before is passed over. -/
lemma Layered.pass (h : Layered g i k met (j :: near) far) (hj : j ∈ met) :
    Layered g i k met near far :=
  { h with
    near_way := fun x hx => h.near_way x (List.mem_cons_of_mem j hx)
    layer := by
      intro x hx
      rcases h.layer x hx with hx | hx
      · exact .inl hx
      · rcases List.mem_cons.1 hx with rfl | hx
        · exact .inl hj
        · exact .inr hx
    closed := by
      intro x hx c hc
      rcases h.closed x hx c hc with hc | hc | hc
      · exact .inl hc
      · rcases List.mem_cons.1 hc with rfl | hc
        · exact .inl hj
        · exact .inr (.inl hc)
      · exact .inr (.inr hc) }

/-- A node that is met now is as far away as its layer. -/
lemma Layered.le_distance (hg : g.Sound) (h : Layered g i k met (j :: near) far) (hj : j ∉ met) :
    k ≤ g.distance i j := by
  have hway := h.near_way j List.mem_cons_self
  by_contra hlt
  rcases Nat.eq_zero_or_pos (g.distance i j) with hzero | hpos
  · -- no way leads back to the node where the sweep began
    have hstay := hway.shortest
    rw [hzero] at hstay
    cases hstay
    exact hg.irrefl i (hway.before hg h.pos)
  · exact hj (h.nearer _ j hpos (by omega) hway.shortest)

/-- A node that is met puts the nodes behind it at the end of the queue. -/
lemma Layered.meet (hg : g.Sound) (h : Layered g i k met (j :: near) far) (hj : j ∉ met) :
    Layered g i k (met ++ [j]) near (far ++ g.children j) := by
  have hway := h.near_way j List.mem_cons_self
  have hdistance := h.le_distance hg hj
  exact {
    pos := h.pos
    sorted := by
      refine List.pairwise_append.2 ⟨h.sorted, List.pairwise_singleton _ _, ?_⟩
      intro x hx y hy
      rw [List.mem_singleton.1 hy]
      exact (h.met_le x hx).trans hdistance
    met_le := by
      intro x hx
      rcases List.mem_append.1 hx with hx | hx
      · exact h.met_le x hx
      · rw [List.mem_singleton.1 hx]
        exact hway.distance_le
    near_way := fun x hx => h.near_way x (List.mem_cons_of_mem j hx)
    far_way := by
      intro x hx
      rcases List.mem_append.1 hx with hx | hx
      · exact h.far_way x hx
      · exact hway.go hx
    nearer := fun n x hpos hlt hx => List.mem_append_left _ (h.nearer n x hpos hlt hx)
    layer := by
      intro x hx
      rcases h.layer x hx with hx | hx
      · exact .inl (List.mem_append_left _ hx)
      · rcases List.mem_cons.1 hx with rfl | hx
        · exact .inl (List.mem_append_right _ (List.mem_singleton_self x))
        · exact .inr hx
    closed := by
      intro x hx c hc
      simp only [List.mem_append, List.mem_singleton] at hx ⊢
      rcases hx with hx | rfl
      · rcases h.closed x hx c hc with hc | hc | hc
        · exact .inl (.inl hc)
        · rcases List.mem_cons.1 hc with rfl | hc
          · exact .inl (.inr rfl)
          · exact .inr (.inl hc)
        · exact .inr (.inr (.inl hc))
      · exact .inr (.inr (.inr hc)) }

/-- **A sweep in layers** meets the nearer nodes first. -/
theorem sweep_sorted (hg : g.Sound) (h : Layered g i k met near far) :
    (g.sweep met (near ++ far)).Pairwise fun a b => g.distance i a ≤ g.distance i b := by
  generalize hqueue : near ++ far = queue
  induction met, queue using sweep.induct g generalizing k near far with
  | case1 met =>
    rw [sweep]
    exact h.sorted
  | case2 met j queue hnew ih =>
    obtain ⟨k, near, far, rfl, h⟩ := h.exists_cons hqueue
    rw [sweep, dif_pos hnew]
    exact ih (h.meet hg hnew.2) (List.append_assoc ..).symm
  | case3 met j queue hold ih =>
    obtain ⟨k, near, far, rfl, h⟩ := h.exists_cons hqueue
    rw [sweep, dif_neg hold]
    have hsize : j < g.size :=
      (hg.lt_size_of_before ((h.near_way j List.mem_cons_self).before hg h.pos)).2
    exact ih (h.pass (by tauto)) rfl

lemma sweep_nodup (hmet : met.Nodup) : (g.sweep met queue).Nodup := by
  induction met, queue using sweep.induct g with
  | case1 met =>
    rw [sweep]
    exact hmet
  | case2 met j queue hnew ih =>
    rw [sweep, dif_pos hnew]
    exact ih (List.nodup_append_comm.1 (List.nodup_cons.2 ⟨hnew.2, hmet⟩))
  | case3 met j queue hold ih =>
    rw [sweep, dif_neg hold]
    exact ih hmet

end Layers

/-! ### Compiled graphs -/

section Compiled

variable {f : Flow} {g : Graph}

/-- No step is cut off from the root. -/
lemma compile_before_root (h : f.compile = .ok g) : ∀ j < g.size, 0 < j → g.Before 0 j := by
  have hg := compile_sound h
  refine hg.induction ?_
  intro j hj ih hpos
  obtain ⟨k, rfl⟩ := Nat.exists_eq_succ_of_ne_zero hpos.ne'
  obtain ⟨p, hp⟩ := List.exists_mem_of_ne_nil _ (compile_parents_ne_nil h hj)
  rcases Nat.eq_zero_or_pos p with rfl | hpos
  · exact .of_parent hp
  · exact (ih p hp hpos).trans (.of_parent hp)

/-- **What is behind a node** are the nodes to which one or more edges lead from it, each once and never
the node itself, nearest first. Behind the root are all other nodes. -/
theorem behind_nearest_first (h : f.compile = .ok g) :
    (∀ i, (∀ j, j ∈ g.behind i ↔ ∃ n, 0 < n ∧ g.Way n i j) ∧ (g.behind i).Nodup ∧ i ∉ g.behind i ∧
      (g.behind i).Pairwise fun a b => g.distance i a ≤ g.distance i b) ∧
    ∀ j, j ∈ g.behind 0 ↔ j < g.size ∧ j ≠ 0 := by
  have hg := compile_sound h
  refine ⟨fun i => ⟨fun j => ?_, sweep_nodup List.nodup_nil, ?_, ?_⟩, fun j => ?_⟩
  · rw [mem_behind hg, before_iff_way hg]
  · rw [mem_behind hg]
    exact hg.irrefl i
  · have hsorted := sweep_sorted hg (layered_start g i)
    rwa [List.append_nil] at hsorted
  · rw [mem_behind hg]
    constructor
    · intro hj
      refine ⟨(hg.lt_size_of_before hj).2, ?_⟩
      rintro rfl
      exact hg.irrefl 0 hj
    · rintro ⟨hj, hne⟩
      exact compile_before_root h j hj (Nat.pos_of_ne_zero hne)

end Compiled

/-- The site is declared before the pages and the pictures that it is made of, and yet comes after both
of them. -/
theorem behind_nearest_first_site : ∃ g, site.compile = .ok g ∧ g.behind 1 = [3, 4, 2] ∧
    (∃ n, 0 < n ∧ g.Way n 1 2) ∧ g.distance 1 4 ≤ g.distance 1 2 ∧ 2 ∈ g.behind 0 := by
  obtain ⟨g, hg, hbehind, hsize⟩ : ∃ g, site.compile = .ok g ∧ g.behind 1 = [3, 4, 2] ∧
      g.size = 5 := exists_compiled (by cbv)
  obtain ⟨hall, hroot⟩ := behind_nearest_first hg
  obtain ⟨hmem, -, -, hsorted⟩ := hall 1
  rw [hbehind] at hmem hsorted
  refine ⟨g, hg, hbehind, (hmem 2).1 (by decide), ?_, (hroot 2).2 (by omega)⟩
  exact List.rel_of_pairwise_cons (List.Pairwise.of_cons hsorted) List.mem_cons_self

end StepFlow.Graph

import StepFlow.Proofs.Flow.Keyed
import StepFlow.Proofs.Flow.Paths
import StepFlow.Proofs.Merge.Documents

/-!
Which documents cannot be merged, and what is reported. Two documents clash where they have different
versions, give a variable different values, or have different rules of one name, be it at the top or in
a step that both have (`Flow.Clash`). `Flow.clashes` lists all clashes of two documents as they stand,
in the order of the overlay. The merge changes the base while it goes on, and yet it reports the first
of that list, and nothing if the list is empty (`merge_conflicts`): what was entered before does not
clash with what comes after it, as no name comes twice.
-/

namespace StepFlow

namespace Merge

/-! ### What clashes -/

/-- Two tables give a key different values. -/
def ValuesClash (address : List String) (b o : Table String) (c : Conflict) : Prop :=
  ∃ k v w, Table.get? k b = some v ∧ Table.get? k o = some w ∧ v ≠ w ∧
    c = .values (address ++ [k]) v w

/-- The environments of two containers clash. -/
def DockerClash (address : List String) (b o : Option Container) (c : Conflict) : Prop :=
  ∃ x ∈ b, ∃ y ∈ o,
    ValuesClash (address ++ ["environment"]) x.environment y.environment c

/-- Two rules of one name have different paths. -/
def RulesClash (address : List String) (b o : List FileRule) (c : Conflict) : Prop :=
  ∃ x ∈ b, ∃ y ∈ o, x.name = y.name ∧ x.paths ≠ y.paths ∧ c = .rules (address ++ [x.name])

/-- What two steps say about themselves clashes. -/
def SpecClash (address : List String) (b o : StepSpec) (c : Conflict) : Prop :=
  ValuesClash (address ++ ["vars"]) b.vars o.vars c ∨
    DockerClash (address ++ ["docker"]) b.docker o.docker c ∨
    RulesClash (address ++ ["caches"]) b.caches o.caches c ∨
    RulesClash (address ++ ["artifacts"]) b.artifacts o.artifacts c

end Merge

/-- The address of the step at a path. -/
def stepAddress (path : List String) : List String := path.flatMap fun n => ["steps", n]

/-- Two flows clash: they have two versions, or there is a clash at the top or in a step that both
have. -/
inductive Flow.Clash (b o : Flow) : Conflict → Prop
  | version {x y : UInt32} (hb : b.version = some x) (ho : o.version = some y) (hne : x ≠ y) :
      Clash b o (.version x y)
  | vars {c : Conflict} (h : Merge.ValuesClash ["vars"] b.vars o.vars c) : Clash b o c
  | docker {c : Conflict} (h : Merge.DockerClash ["docker"] b.docker o.docker c) : Clash b o c
  | step {path : List String} {x y : Step} {c : Conflict} (hb : b.at? path = some x)
      (ho : o.at? path = some y) (h : Merge.SpecClash (stepAddress path) x.spec y.spec c) :
      Clash b o c

namespace Merge

/-! ### All clashes in their order -/

section Clashing

variable {κ β : Type} [DecidableEq κ] [DecidableEq β] (key : β → κ) (clash : β → β → Conflict)

/-- The entries of the overlay that differ from the base's first entry of their key. -/
def clashing (b o : List β) : List Conflict :=
  o.filterMap fun x => (first key (key x) b).bind fun y => if y = x then none else some (clash y x)

end Clashing

/-- The clashes of the values of two tables. -/
def valueClashes (address : List String) : (b o : Table String) → List Conflict :=
  clashing (·.1) (valueClash address)

/-- The clashes of the rules of two lists. -/
def ruleClashes (address : List String) : (b o : List FileRule) → List Conflict :=
  clashing (·.name) (ruleClash address)

/-- The clashes of the environments of two containers; there are none if a side has no container. -/
def dockerClashes (address : List String) : (b o : Option Container) → List Conflict
  | some x, some y => valueClashes (address ++ ["environment"]) x.environment y.environment
  | _, _ => []

/-- The clashes of what two steps say about themselves: variables, containers, caches and
artifacts. -/
def specClashes (address : List String) (b o : StepSpec) : List Conflict :=
  valueClashes (address ++ ["vars"]) b.vars o.vars ++
    (dockerClashes (address ++ ["docker"]) b.docker o.docker ++
      (ruleClashes (address ++ ["caches"]) b.caches o.caches ++
        ruleClashes (address ++ ["artifacts"]) b.artifacts o.artifacts))

mutual

/-- The clashes of two steps: their own, and then those of the steps inside. -/
def stepClashes (address : List String) (b : Step) : Step → List Conflict
  | ⟨o, inner⟩ => specClashes address b.spec o ++ stepsClashes (address ++ ["steps"]) b.steps inner

/-- The clashes of steps of one name, in the order of the overlay. -/
def stepsClashes (address : List String) (b : Table Step) : List (String × Step) → List Conflict
  | [] => []
  | (n, s) :: rest =>
    (match b.get? n with
      | some x => stepClashes (address ++ [n]) x s
      | none => []) ++ stepsClashes address b rest

end

/-- Two versions clash if they differ. -/
def versionClashes : (b o : Option UInt32) → List Conflict
  | some x, some y => if x = y then [] else [.version x y]
  | _, _ => []

end Merge

/-- All clashes of two flows: versions, variables, containers, and then the steps in the order of the
overlay, each with what is inside it. -/
def Flow.clashes (b o : Flow) : List Conflict :=
  Merge.versionClashes b.version o.version ++
    (Merge.valueClashes ["vars"] b.vars o.vars ++
      (Merge.dockerClashes ["docker"] b.docker o.docker ++
        Merge.stepsClashes ["steps"] b.steps o.steps))

namespace Merge

/-! ### The list and what clashes -/

section Members

variable {address : List String} {c : Conflict}

lemma mem_clashing {κ β : Type} [DecidableEq κ] [DecidableEq β] {key : β → κ}
    {clash : β → β → Conflict} {b o : List β} : c ∈ clashing key clash b o ↔
      ∃ x ∈ o, ∃ y, first key (key x) b = some y ∧ y ≠ x ∧ c = clash y x := by
  rw [clashing, List.mem_filterMap]
  refine exists_congr fun x => and_congr_right fun _ => ?_
  rw [Option.bind_eq_some_iff]
  refine exists_congr fun y => and_congr_right fun _ => ?_
  by_cases h : y = x
  · simp [h]
  · simp [h, eq_comm]

lemma mem_valueClashes {b o : Table String} (ho : (Table.names o).Nodup) :
    c ∈ valueClashes address b o ↔ ValuesClash address b o c := by
  rw [valueClashes, mem_clashing]
  constructor
  · rintro ⟨⟨k, w⟩, hkw, ⟨k', v⟩, hfirst, hne, rfl⟩
    obtain rfl : k' = k := key_of_first _ hfirst
    refine ⟨k', v, w, ?_, Table.get?_of_mem ho hkw, fun hvw => hne (by rw [hvw]), rfl⟩
    rw [get?_eq_first, hfirst]
    rfl
  · rintro ⟨k, v, w, hv, hw, hne, rfl⟩
    rw [get?_eq_first] at hv
    obtain ⟨⟨k', v'⟩, hfirst, rfl⟩ := Option.map_eq_some_iff.mp hv
    exact ⟨(k, w), Table.mem_of_get? hw, (k', v'), hfirst, fun h => hne (congrArg (·.2) h), rfl⟩

lemma mem_dockerClashes {b o : Option Container} (ho : ∀ y ∈ o, y.Keyed) :
    c ∈ dockerClashes address b o ↔ DockerClash address b o c := by
  cases b with
  | none => simp [dockerClashes, DockerClash]
  | some x =>
    cases o with
    | none => simp [dockerClashes, DockerClash]
    | some y =>
      rw [dockerClashes, mem_valueClashes (ho y rfl)]
      simp [DockerClash]

lemma mem_ruleClashes {b o : List FileRule} (hb : (b.map (·.name)).Nodup) :
    c ∈ ruleClashes address b o ↔ RulesClash address b o c := by
  rw [ruleClashes, mem_clashing]
  constructor
  · rintro ⟨y, hy, x, hfirst, hne, rfl⟩
    have hname : x.name = y.name := key_of_first _ hfirst
    refine ⟨x, mem_of_first _ hfirst, y, hy, hname, ?_, by rw [ruleClash, hname]⟩
    intro hpaths
    obtain ⟨_, _⟩ := x
    obtain ⟨_, _⟩ := y
    exact hne (FileRule.mk.injEq .. ▸ ⟨hname, hpaths⟩)
  · rintro ⟨x, hx, y, hy, hname, hne, rfl⟩
    refine ⟨y, hy, x, ?_, fun h => hne (congrArg FileRule.paths h), by rw [ruleClash, hname]⟩
    obtain ⟨z, hz, hzy, hfirst⟩ :=
      exists_first FileRule.name (List.mem_map.mpr ⟨x, hx, hname⟩)
    rw [hfirst, List.inj_on_of_nodup_map hb hz hx (hzy.trans hname.symm)]

lemma mem_specClashes {b o : StepSpec} (ho : o.Keyed) (hb : b.RulesNamed) :
    c ∈ specClashes address b o ↔ SpecClash address b o c := by
  simp only [specClashes, List.mem_append, mem_valueClashes ho.vars, mem_dockerClashes ho.docker,
    mem_ruleClashes hb.caches, mem_ruleClashes hb.artifacts, SpecClash]

/-- The clashes of steps are those of the steps under each name. -/
lemma mem_stepsClashes {b o : Table Step} (ho : (Table.names o).Nodup) :
    c ∈ stepsClashes address b o ↔ ∃ n x y, Table.get? n b = some x ∧ Table.get? n o = some y ∧
      c ∈ stepClashes (address ++ [n]) x y := by
  induction o with
  | nil => simp [stepsClashes]
  | cons p o ih =>
    obtain ⟨name, s⟩ := p
    rw [Table.names_cons, List.nodup_cons] at ho
    have hfresh := Table.get?_eq_none_iff.mpr ho.1
    rw [stepsClashes, List.mem_append, ih ho.2]
    constructor
    · rintro (h | ⟨n, x, y, hx, hy, hc⟩)
      · cases hb : Table.get? name b with
        | none => simp [hb] at h
        | some x =>
          rw [hb] at h
          exact ⟨name, x, s, hb, by rw [Table.get?_cons, if_pos rfl], h⟩
      · refine ⟨n, x, y, hx, ?_, hc⟩
        rw [Table.get?_cons, if_neg, hy]
        rintro rfl
        rw [hfresh] at hy
        cases hy
    · rintro ⟨n, x, y, hx, hy, hc⟩
      rw [Table.get?_cons] at hy
      split at hy
      case isTrue h =>
        subst h
        cases hy
        rw [hx]
        exact .inl hc
      case isFalse => exact .inr ⟨n, x, y, hx, hy, hc⟩

lemma mem_stepClashes {b o : Step} : c ∈ stepClashes address b o ↔
    c ∈ specClashes address b.spec o.spec ∨
      c ∈ stepsClashes (address ++ ["steps"]) b.steps o.steps := by
  obtain ⟨o, inner⟩ := o
  rw [stepClashes, List.mem_append]

/-- The clashes at a path inside two steps are among theirs. -/
lemma mem_stepClashes_of_inside {path : List String} {b o x y : Step} (ho : o.Distinct)
    (hx : b.inside? path = some x) (hy : o.inside? path = some y)
    (hc : c ∈ specClashes (address ++ stepAddress path) x.spec y.spec) :
    c ∈ stepClashes address b o := by
  rw [mem_stepClashes]
  induction path generalizing address b o with
  | nil =>
    cases hx
    cases hy
    rw [stepAddress, List.flatMap_nil, List.append_nil] at hc
    exact .inl hc
  | cons n path ih =>
    obtain ⟨u, hu, hux⟩ := Option.bind_eq_some_iff.mp hx
    obtain ⟨v, hv, hvy⟩ := Option.bind_eq_some_iff.mp hy
    obtain ⟨hnames, hinner⟩ := Step.distinct_iff.mp ho
    refine .inr ((mem_stepsClashes hnames).mpr ⟨n, u, v, hu, hv, ?_⟩)
    rw [mem_stepClashes]
    apply ih (hinner _ (Table.mem_of_get? hv)) hux hvy
    simpa [stepAddress] using hc

mutual

/-- A clash of two steps is one at some path inside them. -/
theorem exists_inside_of_mem (address : List String) (b : Step) : (o : Step) → o.Distinct →
    c ∈ stepClashes address b o → ∃ path x y, b.inside? path = some x ∧ o.inside? path = some y ∧
      c ∈ specClashes (address ++ stepAddress path) x.spec y.spec
  | ⟨spec, inner⟩, ho, h => by
    rw [Step.Distinct] at ho
    rcases mem_stepClashes.mp h with h | h
    · exact ⟨[], b, ⟨spec, inner⟩, rfl, rfl, by simpa [stepAddress] using h⟩
    · obtain ⟨n, x, y, hx, hy, hc⟩ := (mem_stepsClashes ho.1).mp h
      obtain ⟨path, u, v, hu, hv, hc⟩ := exists_inside_of_mem_inner _ x inner ho.2 hy hc
      refine ⟨n :: path, u, v, ?_, ?_, by simpa [stepAddress] using hc⟩
      · rw [Step.inside?_cons, hx, Option.bind_some, hu]
      · rw [Step.inside?_cons, hy, Option.bind_some, hv]

theorem exists_inside_of_mem_inner (address : List String) (b : Step) :
    (l : List (String × Step)) → Step.AllDistinct l → ∀ {n o}, Table.get? n l = some o →
      c ∈ stepClashes address b o → ∃ path x y, b.inside? path = some x ∧
        o.inside? path = some y ∧ c ∈ specClashes (address ++ stepAddress path) x.spec y.spec
  | [], _, _, _, h, _ => by cases h
  | (name, s) :: rest, hl, n, o, h, hc => by
    rw [Step.AllDistinct] at hl
    rw [Table.get?_cons] at h
    split at h
    · cases h
      exact exists_inside_of_mem address b s hl.1 hc
    · exact exists_inside_of_mem_inner address b rest hl.2 h hc

end

end Members

/-! ### What the merge reports -/

/-- A computation that fails with the first conflict of a list, and succeeds if there is none. -/
def Reports {α : Type} (x : Except Conflict α) (cs : List Conflict) : Prop :=
  ∀ c, x = .error c ↔ cs.head? = some c

section Reports

variable {α β : Type} {x : Except Conflict α} {f : α → Except Conflict β} {cs cs' : List Conflict}

lemma reports_ok (v : α) : Reports (.ok v) [] := fun c => by simp

lemma reports_error (c : Conflict) (cs : List Conflict) :
    Reports (.error c : Except Conflict α) (c :: cs) := fun c' => by simp

/-- What is done next counts only if there was no conflict before. -/
lemma Reports.bind (hx : Reports x cs) (hf : ∀ v, x = .ok v → Reports (f v) cs') :
    Reports (x >>= f) (cs ++ cs') := by
  cases x with
  | error e =>
    obtain ⟨rest, rfl⟩ := List.head?_eq_some_iff.mp ((hx e).mp rfl)
    exact reports_error e _
  | ok v =>
    have hnone : cs = [] := by
      cases cs with
      | nil => rfl
      | cons c cs => cases (hx c).mpr rfl
    rw [hnone]
    exact hf v rfl

lemma Reports.pure (hx : Reports x cs) (g : α → β) : Reports (x >>= fun v => .ok (g v)) cs := by
  rw [← List.append_nil cs]
  exact hx.bind fun v _ => reports_ok (g v)

end Reports

section Lists

variable {κ β : Type} [DecidableEq κ] [DecidableEq β] {key : β → κ} {clash : β → β → Conflict}

/-- What is entered in the base does not clash with entries of other keys. -/
lemma clashing_append {x : β} {b o : List β} (hx : key x ∉ o.map key) :
    clashing key clash (b ++ [x]) o = clashing key clash b o := by
  apply List.filterMap_congr
  intro y hy
  have hxy : key x ≠ key y := fun h => hx (h ▸ List.mem_map_of_mem hy)
  rw [first_append]
  simp [first, hxy]

lemma unite_reports {b o : List β} (ho : (o.map key).Nodup) :
    Reports (unite key clash b o) (clashing key clash b o) := by
  induction o generalizing b with
  | nil => exact reports_ok b
  | cons x o ih =>
    rw [List.map_cons, List.nodup_cons] at ho
    rw [unite, clashing, List.filterMap_cons]
    cases hx : first key (key x) b with
    | none =>
      have h := ih (b := b ++ [x]) ho.2
      rw [clashing_append ho.1] at h
      exact h
    | some y =>
      by_cases hyx : y = x
      · simp only [Option.bind_some, if_pos hyx]
        exact ih ho.2
      · simp only [Option.bind_some, if_neg hyx]
        exact reports_error _ _

end Lists

section Fields

variable {address : List String}

lemma vars_reports {b o : Table String} (ho : (Table.names o).Nodup) :
    Reports (vars address b o) (valueClashes address b o) := by
  rw [vars_eq_unite]
  exact unite_reports ho

lemma rules_reports {b o : List FileRule} (ho : (o.map (·.name)).Nodup) :
    Reports (rules address b o) (ruleClashes address b o) := by
  rw [rules_eq_unite]
  exact unite_reports ho

lemma docker_reports {b o : Option Container} (ho : ∀ y ∈ o, y.Keyed) :
    Reports (docker address b o) (dockerClashes address b o) := by
  cases o with
  | none => cases b <;> exact reports_ok _
  | some y =>
    cases b with
    | none => exact reports_ok _
    | some x => exact (vars_reports (ho y rfl)).pure _

lemma spec_reports {b o : StepSpec} (hkeyed : o.Keyed) (hrules : o.RulesNamed) :
    Reports (spec address b o) (specClashes address b o) := by
  refine (vars_reports hkeyed.vars).bind fun _ _ => ?_
  refine (docker_reports hkeyed.docker).bind fun _ _ => ?_
  refine (rules_reports hrules.caches).bind fun _ _ => ?_
  exact (rules_reports hrules.artifacts).pure _

/-- What is entered in the base does not clash with steps of other names. -/
lemma stepsClashes_insert {name : String} {m : Step} {b : Table Step} {o : List (String × Step)}
    (ho : name ∉ Table.names o) :
    stepsClashes address (b.insert name m) o = stepsClashes address b o := by
  induction o with
  | nil => simp [stepsClashes]
  | cons p o ih =>
    obtain ⟨n, s⟩ := p
    rw [Table.names_cons, List.mem_cons, not_or] at ho
    rw [stepsClashes, stepsClashes, Table.get?_insert, if_neg ho.1, ih ho.2]

mutual

/-- **A step** is merged unless there is a clash in it or further inside, and the first is reported. -/
theorem step_reports (address : List String) (b : Step) : (o : Step) → o.Distinct →
    o.All StepSpec.Keyed → o.All StepSpec.RulesNamed →
    Reports (step address b o) (stepClashes address b o)
  | ⟨spec, inner⟩, hdistinct, hkeyed, hrules => by
    rw [Step.Distinct] at hdistinct
    rw [Step.All] at hkeyed hrules
    rw [step, stepClashes]
    refine (spec_reports hkeyed.1 hrules.1).bind fun _ _ => ?_
    exact (steps_reports _ b.steps inner hdistinct.1 hdistinct.2 hkeyed.2 hrules.2).pure _

theorem steps_reports (address : List String) (b : Table Step) : (o : List (String × Step)) →
    (Table.names o).Nodup → Step.AllDistinct o → Step.AllOf StepSpec.Keyed o →
    Step.AllOf StepSpec.RulesNamed o → Reports (steps address b o) (stepsClashes address b o)
  | [], _, _, _, _ => by
    rw [steps, stepsClashes]
    exact reports_ok b
  | (name, s) :: o, hnames, hdistinct, hkeyed, hrules => by
    rw [Table.names_cons, List.nodup_cons] at hnames
    rw [Step.AllDistinct] at hdistinct
    rw [Step.AllOf] at hkeyed hrules
    have hrest : ∀ m, Reports (steps address (b.insert name m) o) (stepsClashes address b o) := by
      intro m
      rw [← stepsClashes_insert (m := m) hnames.1]
      exact steps_reports address (b.insert name m) o hnames.2 hdistinct.2 hkeyed.2 hrules.2
    rw [steps, stepsClashes]
    cases hb : b.get? name with
    | none =>
      rw [← Table.insert_of_not_mem (Table.get?_eq_none_iff.mp hb)]
      exact hrest s
    | some x =>
      exact (step_reports _ x s hdistinct.1 hkeyed.1 hrules.1).bind fun m _ => hrest m

end

end Fields

lemma version_reports (b o : Option UInt32) :
    Reports (optional version b o) (versionClashes b o) := by
  cases o with
  | none =>
    rw [optional_none_right]
    cases b <;> exact reports_ok _
  | some y =>
    cases b with
    | none => exact reports_ok _
    | some x =>
      by_cases h : x = y
      · simp only [optional, version, versionClashes, if_pos h]
        exact reports_ok _
      · simp only [optional, version, versionClashes, if_neg h]
        exact reports_error _ _

/-! ### Either way round -/

section Swap

variable {address : List String} {c : Conflict}

lemma ValuesClash.swap {b o : Table String} (h : ValuesClash address b o c) :
    ∃ c', ValuesClash address o b c' := by
  obtain ⟨k, v, w, hv, hw, hne, -⟩ := h
  exact ⟨_, k, w, v, hw, hv, hne.symm, rfl⟩

lemma DockerClash.swap {b o : Option Container} (h : DockerClash address b o c) :
    ∃ c', DockerClash address o b c' := by
  obtain ⟨x, hx, y, hy, h⟩ := h
  exact h.swap.imp fun _ h => ⟨y, hy, x, hx, h⟩

lemma RulesClash.swap {b o : List FileRule} (h : RulesClash address b o c) :
    ∃ c', RulesClash address o b c' := by
  obtain ⟨x, hx, y, hy, hname, hne, -⟩ := h
  exact ⟨_, y, hy, x, hx, hname.symm, hne.symm, rfl⟩

lemma SpecClash.swap {b o : StepSpec} (h : SpecClash address b o c) :
    ∃ c', SpecClash address o b c' := by
  rcases h with h | h | h | h
  · exact h.swap.imp fun _ => .inl
  · exact h.swap.imp fun _ h => .inr (.inl h)
  · exact h.swap.imp fun _ h => .inr (.inr (.inl h))
  · exact h.swap.imp fun _ h => .inr (.inr (.inr h))

end Swap

end Merge

namespace Flow

open Merge

variable {b o : Flow} {c : Conflict}

lemma merge_reports (ho : o.Checked) : Reports (b.merge o) (b.clashes o) := by
  rw [merge_eq]
  refine (version_reports b.version o.version).bind fun _ _ => ?_
  refine (vars_reports ho.keyed.vars).bind fun _ _ => ?_
  refine (docker_reports ho.keyed.docker).bind fun _ _ => ?_
  exact (steps_reports _ b.steps o.steps ho.distinct.1 ho.distinct.2 ho.keyed.steps
    (check_rulesNamed ho.check)).pure _

/-- The clashes of the steps of two flows are those at their paths. -/
lemma mem_stepsClashes_iff (hb : b.Checked) (ho : o.Checked) :
    c ∈ stepsClashes ["steps"] b.steps o.steps ↔ ∃ path x y, b.at? path = some x ∧
      o.at? path = some y ∧ SpecClash (stepAddress path) x.spec y.spec c := by
  have hspec : ∀ path x y, b.at? path = some x → o.at? path = some y →
      (c ∈ specClashes (stepAddress path) x.spec y.spec ↔
        SpecClash (stepAddress path) x.spec y.spec c) := fun path x y hx hy =>
    mem_specClashes (ho.keyed.steps.at? hy) ((check_rulesNamed hb.check).at? hx)
  rw [mem_stepsClashes ho.distinct.1]
  constructor
  · rintro ⟨n, x, y, hx, hy, hc⟩
    obtain ⟨path, u, v, hu, hv, hc⟩ := exists_inside_of_mem _ x y (ho.distinct.2.get hy) hc
    have hu' : b.at? (n :: path) = some u := by rw [at?_cons, hx, Option.bind_some, hu]
    have hv' : o.at? (n :: path) = some v := by rw [at?_cons, hy, Option.bind_some, hv]
    refine ⟨n :: path, u, v, hu', hv', (hspec _ u v hu' hv').mp ?_⟩
    simpa [stepAddress] using hc
  · rintro ⟨_ | ⟨n, path⟩, u, v, hu, hv, hc⟩
    · cases hu
    · rw [← hspec _ u v hu hv] at hc
      obtain ⟨x, hx, hxu⟩ := Option.bind_eq_some_iff.mp hu
      obtain ⟨y, hy, hyv⟩ := Option.bind_eq_some_iff.mp hv
      refine ⟨n, x, y, hx, hy, mem_stepClashes_of_inside (ho.distinct.2.get hy) hxu hyv ?_⟩
      simpa [stepAddress] using hc

lemma mem_versionClashes : c ∈ versionClashes b.version o.version ↔
    ∃ x y, b.version = some x ∧ o.version = some y ∧ x ≠ y ∧ c = .version x y := by
  cases b.version with
  | none => simp [versionClashes]
  | some x =>
    cases o.version with
    | none => simp [versionClashes]
    | some y =>
      by_cases h : x = y
      · simp [versionClashes, h]
      · simp [versionClashes, h]

/-- The list holds all that clashes. -/
lemma mem_clashes (hb : b.Checked) (ho : o.Checked) : c ∈ b.clashes o ↔ b.Clash o c := by
  simp only [clashes, List.mem_append, mem_versionClashes, mem_valueClashes ho.keyed.vars,
    mem_dockerClashes ho.keyed.docker, mem_stepsClashes_iff hb ho]
  constructor
  · rintro (⟨x, y, hx, hy, hne, rfl⟩ | h | h | ⟨path, x, y, hx, hy, h⟩)
    · exact .version hx hy hne
    · exact .vars h
    · exact .docker h
    · exact .step hx hy h
  · intro h
    cases h with
    | version hx hy hne => exact .inl ⟨_, _, hx, hy, hne, rfl⟩
    | vars h => exact .inr (.inl h)
    | docker h => exact .inr (.inr (.inl h))
    | step hx hy h => exact .inr (.inr (.inr ⟨_, _, _, hx, hy, h⟩))

lemma merge_eq_error_iff (hb : b.Checked) (ho : o.Checked) :
    (∃ c, b.merge o = .error c) ↔ ∃ c, b.Clash o c := by
  simp only [merge_reports ho _]
  constructor
  · rintro ⟨c, hc⟩
    exact ⟨c, (mem_clashes hb ho).mp (List.mem_of_head? hc)⟩
  · rintro ⟨c, hc⟩
    rw [← mem_clashes hb ho] at hc
    exact ⟨_, List.head?_eq_some_head (List.ne_nil_of_mem hc)⟩

/-- What clashes does not depend on which of the two is laid over the other. -/
lemma Clash.swap (h : b.Clash o c) : ∃ c', o.Clash b c' := by
  cases h with
  | version hx hy hne => exact ⟨_, .version hy hx hne.symm⟩
  | vars h => exact h.swap.imp fun _ => .vars
  | docker h => exact h.swap.imp fun _ => .docker
  | step hx hy h => exact h.swap.imp fun _ => .step hy hx

/-- **Two documents cannot be merged** just when they clash, in whatever order. What is reported is
the first of their clashes. -/
theorem merge_conflicts (hb : b.Checked) (ho : o.Checked) :
    ((∃ c, b.merge o = .error c) ↔ ∃ c, b.Clash o c) ∧
      (∀ c, b.merge o = .error c ↔ (b.clashes o).head? = some c) ∧
      (∀ c, c ∈ b.clashes o ↔ b.Clash o c) ∧
      ((∃ c, b.merge o = .error c) ↔ ∃ c, o.merge b = .error c) := by
  refine ⟨merge_eq_error_iff hb ho, merge_reports ho, fun c => mem_clashes hb ho, ?_⟩
  rw [merge_eq_error_iff hb ho, merge_eq_error_iff ho hb]
  exact ⟨fun ⟨_, h⟩ => h.swap, fun ⟨_, h⟩ => h.swap⟩

/-- A flow with a step inside another that keeps a directory. -/
def keeping (directory : String) : Flow where
  steps := [("build", { steps := [("compile",
    { spec := { bash := some "make", caches := [{ name := "deps", paths := [directory] }] } })] })]

/-- Rules of one name that differ in a step inside another. -/
theorem merge_conflicts_keeping : (keeping "target").Checked ∧ (keeping "vendor").Checked ∧
    (keeping "target").merge (keeping "vendor") =
      .error (.rules ["steps", "build", "steps", "compile", "caches", "deps"]) ∧
    (keeping "target").Clash (keeping "vendor")
      (.rules ["steps", "build", "steps", "compile", "caches", "deps"]) ∧
    ∃ c, (keeping "vendor").merge (keeping "target") = .error c := by
  have hspec : ∀ s : StepSpec, s.vars = [] → s.docker = none → s.Keyed := by
    rintro s hvars hdocker
    exact ⟨by simp [hvars, Table.names], by simp [hdocker]⟩
  have hchecked : ∀ directory, (keeping directory).check = .ok () → (keeping directory).Checked :=
    fun directory hcheck =>
      { distinct := by simp [Distinct, keeping, Step.AllDistinct, Step.Distinct]
        keyed := ⟨List.nodup_nil, by simp [keeping], by
          simp [keeping, Step.AllOf, Step.All, hspec]⟩
        check := hcheck }
  have hb := hchecked "target" (by decide)
  have ho := hchecked "vendor" (by decide)
  obtain ⟨-, hfirst, hall, hswap⟩ := merge_conflicts hb ho
  have hreported := (hfirst
    (.rules ["steps", "build", "steps", "compile", "caches", "deps"])).mpr rfl
  exact ⟨hb, ho, hreported, (hall _).mp (List.mem_of_head? rfl), hswap.mp ⟨_, hreported⟩⟩

example :
    Text.join "." (Conflict.rules ["steps", "build", "steps", "compile", "caches", "deps"]).address =
      "steps.build.steps.compile.caches.deps" := by decide

end Flow

end StepFlow

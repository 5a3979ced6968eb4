import StepFlow.Flow.Check
import StepFlow.Proofs.Outcome

/-!
What the check of a flow document asks for, as a property of the document: names are valid at every
depth, no time limit is zero, and the file rules of one kind in one step are sound and have names of
their own. The check, which stops at the first thing that is wrong, goes through just when the whole
document has the property (`Flow.check_eq_ok_iff`).
-/

namespace StepFlow

/-! ### File rules -/

/-- A rule that has a valid name and relative paths of which no two overlap. -/
structure FileRule.Sound (r : FileRule) : Prop where
  name : Name.valid r.name = true
  relative : ∀ p ∈ r.paths, FileRule.isRelative p = true
  apart : FileRule.anyOverlap (r.paths.map FileRule.normalPath) = false

/-- Sound rules of one kind, each with a name of its own. -/
structure FileRule.AllSound (rules : List FileRule) : Prop where
  sound : ∀ r ∈ rules, r.Sound
  names : (rules.map (·.name)).Nodup

namespace FileRule

variable {step : String} {kind : RuleKind}

theorem check_eq_ok_iff {r : FileRule} : r.check step kind = .ok () ↔ r.Sound := by
  have hsound : r.Sound ↔ Name.valid r.name = true ∧ (∀ p ∈ r.paths, isRelative p = true) ∧
      anyOverlap (r.paths.map normalPath) = false :=
    ⟨fun h => ⟨h.name, h.relative, h.apart⟩, fun h => ⟨h.1, h.2.1, h.2.2⟩⟩
  rw [hsound, check]
  by_cases hname : Name.valid r.name = true
  · cases hfind : r.paths.find? fun p => !isRelative p with
    | some path =>
      have hpath : isRelative path = false := by simpa using List.find?_some hfind
      have hmem := List.mem_of_find?_eq_some hfind
      simp only [hname, Bool.not_true, Bool.false_eq_true, if_false, true_and, reduceCtorEq,
        false_iff]
      rintro ⟨hrelative, -⟩
      rw [hrelative path hmem] at hpath
      cases hpath
    | none =>
      have hrelative : ∀ p ∈ r.paths, isRelative p = true := by simpa using hfind
      cases hoverlap : anyOverlap (r.paths.map normalPath) with
      | true => simp [hname]
      | false => simpa [hname] using hrelative
  · simp [hname]

lemma allSound_cons_iff {r : FileRule} {rules : List FileRule} :
    AllSound (r :: rules) ↔ r.Sound ∧ AllSound rules ∧ ∀ s ∈ rules, s.name ≠ r.name := by
  constructor
  · rintro ⟨hsound, hnames⟩
    rw [List.map_cons, List.nodup_cons] at hnames
    rw [List.forall_mem_cons] at hsound
    refine ⟨hsound.1, ⟨hsound.2, hnames.2⟩, ?_⟩
    intro s hs heq
    exact hnames.1 (heq ▸ List.mem_map_of_mem hs)
  · rintro ⟨hr, ⟨hsound, hnames⟩, hnew⟩
    refine ⟨List.forall_mem_cons.mpr ⟨hr, hsound⟩, ?_⟩
    rw [List.map_cons, List.nodup_cons]
    refine ⟨?_, hnames⟩
    intro hmem
    obtain ⟨s, hs, heq⟩ := List.mem_map.mp hmem
    exact hnew s hs heq

theorem checkAll_eq_ok_iff {seen : List String} {rules : List FileRule} :
    checkAll step kind seen rules = .ok () ↔ AllSound rules ∧ ∀ r ∈ rules, r.name ∉ seen := by
  induction rules generalizing seen with
  | nil => exact ⟨fun _ => ⟨⟨by simp, by simp⟩, by simp⟩, fun _ => rfl⟩
  | cons r rest ih =>
    rw [checkAll, bind_eq_ok_iff, allSound_cons_iff, List.forall_mem_cons]
    by_cases hr : r.name ∈ seen
    · rw [if_pos hr]
      constructor
      · rintro ⟨_, -, h⟩
        cases h
      · rintro ⟨-, hnew, -⟩
        exact absurd hr hnew
    · rw [if_neg hr]
      simp only [ih, List.mem_cons, not_or]
      constructor
      · rintro ⟨_, hcheck, hall, hseen⟩
        exact ⟨⟨check_eq_ok_iff.mp hcheck, hall, fun s hs => (hseen s hs).1⟩, hr,
          fun s hs => (hseen s hs).2⟩
      · rintro ⟨⟨hsound, hall, hnew⟩, -, hseen⟩
        exact ⟨(), check_eq_ok_iff.mpr hsound, hall, fun s hs => ⟨hnew s hs, hseen s hs⟩⟩

end FileRule

/-! ### Steps -/

/-- What a step that passes the check says about itself. -/
structure StepSpec.Sound (s : StepSpec) : Prop where
  timeout : s.timeout ≠ some 0
  caches : FileRule.AllSound s.caches
  artifacts : FileRule.AllSound s.artifacts

mutual

/-- The step is sound, and so are the steps inside it. -/
def Step.Sound : Step → Prop
  | ⟨spec, inner⟩ => spec.Sound ∧ Step.AllSound inner

/-- The steps of a list have valid names and are sound. -/
def Step.AllSound : List (String × Step) → Prop
  | [] => True
  | (name, s) :: rest => Name.valid name = true ∧ s.Sound ∧ Step.AllSound rest

end

/-- The name of the flow, if it sets one, is valid, and the steps are sound at every depth. -/
structure Flow.Sound (f : Flow) : Prop where
  name : ∀ n ∈ f.name, Name.valid n = true
  steps : Step.AllSound f.steps

lemma StepSpec.check_eq_ok_iff {name : String} {s : StepSpec} :
    s.check name = .ok () ↔ s.Sound := by
  have hrules : ∀ {kind rules}, FileRule.checkAll name kind [] rules = .ok () ↔
      FileRule.AllSound rules := by
    intro kind rules
    simp [FileRule.checkAll_eq_ok_iff]
  rw [StepSpec.check]
  by_cases htimeout : s.timeout = some 0
  · rw [if_pos htimeout]
    exact ⟨fun h => (by cases h), fun h => absurd htimeout h.timeout⟩
  · rw [if_neg htimeout, bind_eq_ok_iff]
    constructor
    · rintro ⟨_, hcaches, hartifacts⟩
      exact ⟨htimeout, hrules.mp hcaches, hrules.mp hartifacts⟩
    · rintro ⟨-, hcaches, hartifacts⟩
      exact ⟨(), hrules.mpr hcaches, hrules.mpr hartifacts⟩

mutual

theorem Step.check_eq_ok_iff : (s : Step) → ∀ {name}, Step.check name s = .ok () ↔ s.Sound
  | ⟨spec, inner⟩, name => by
    rw [Step.check, bind_eq_ok_iff, Step.Sound]
    constructor
    · rintro ⟨_, hspec, hinner⟩
      exact ⟨StepSpec.check_eq_ok_iff.mp hspec, (Step.checkAll_eq_ok_iff inner).mp hinner⟩
    · rintro ⟨hspec, hinner⟩
      exact ⟨(), StepSpec.check_eq_ok_iff.mpr hspec, (Step.checkAll_eq_ok_iff inner).mpr hinner⟩

theorem Step.checkAll_eq_ok_iff : (l : List (String × Step)) →
    (Step.checkAll l = .ok () ↔ Step.AllSound l)
  | [] => by simp [Step.checkAll, Step.AllSound]
  | (name, s) :: rest => by
    rw [Step.checkAll, Step.AllSound]
    by_cases hname : Name.valid name = true
    · rw [if_neg (by simp [hname]), bind_eq_ok_iff]
      constructor
      · rintro ⟨_, hs, hrest⟩
        exact ⟨hname, (Step.check_eq_ok_iff s).mp hs, (Step.checkAll_eq_ok_iff rest).mp hrest⟩
      · rintro ⟨-, hs, hrest⟩
        exact ⟨(), (Step.check_eq_ok_iff s).mpr hs, (Step.checkAll_eq_ok_iff rest).mpr hrest⟩
    · rw [if_pos (by simp [hname])]
      exact ⟨fun h => (by cases h), fun h => absurd h.1 hname⟩

end

/-- **The check of a document goes through** just when the document is sound. -/
theorem Flow.check_eq_ok_iff {f : Flow} : f.check = .ok () ↔ f.Sound := by
  rw [Flow.check]
  cases hname : f.name with
  | none =>
    simp only [Step.checkAll_eq_ok_iff]
    exact ⟨fun h => ⟨by simp [hname], h⟩, fun h => h.steps⟩
  | some n =>
    by_cases hn : Name.valid n = true
    · simp only [hn, Bool.not_true, Bool.false_eq_true, if_false, Step.checkAll_eq_ok_iff]
      exact ⟨fun h => ⟨by simpa [hname] using hn, h⟩, fun h => h.steps⟩
    · simp only [hn, Bool.not_false, if_true]
      exact ⟨fun h => (by cases h), fun h => absurd (h.name n hname) hn⟩

lemma Step.allSound_iff {l : List (String × Step)} :
    Step.AllSound l ↔ ∀ p ∈ l, Name.valid p.1 = true ∧ p.2.Sound := by
  induction l with
  | nil => simp [Step.AllSound]
  | cons p l ih => rw [Step.AllSound, ih, List.forall_mem_cons, and_assoc]

end StepFlow

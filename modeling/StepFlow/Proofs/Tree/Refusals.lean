import StepFlow.Proofs.Path
import StepFlow.Proofs.Tree.Declaration

/-!
Which documents have no tree. Every step has to keep some rules: its name is valid, it is not nested too
deep, no earlier step has its name, a stage runs no plugin, and any other step has something to run. A
tree is built just when the flow has a valid name and all steps keep all rules (`Flow.Buildable`). If
not, what is reported is the first rule broken by the first step in order of declaration that breaks
one, and it is reported with the key or the path of that step (`build_outcome_of_rules`).
-/

namespace StepFlow

/-! ### Declarations -/

/-- A step as it is declared: its key, what it says about itself, whether there are steps inside it, and
the names of the flow and of the stages around it, from the outside in. -/
structure Declaration where
  key : String
  spec : StepSpec
  isStage : Bool
  around : List String
  deriving DecidableEq

namespace Declaration

/-- The name that the step gets. -/
def name (d : Declaration) : String := Text.trim d.key

/-- The path that the step gets. -/
def path (d : Declaration) : Path := ⟨d.around ++ [d.name]⟩

/-- How deep the step is nested: a step right inside the flow is at level 1. -/
def level (d : Declaration) : Nat := d.around.length

end Declaration

/-- The declarations of steps inside the flow and the stages `around`: a step, then the steps inside it,
then the next step beside it. -/
def Step.declarations (around : List String) : List (String × Step) → List Declaration
  | [] => []
  | (key, ⟨spec, inner⟩) :: rest =>
    ⟨key, spec, !inner.isEmpty, around⟩ ::
      (declarations (around ++ [Text.trim key]) inner ++ declarations around rest)

/-- All steps of a flow in order of declaration. -/
def Flow.declarations (f : Flow) : List Declaration :=
  Step.declarations [Text.trim f.effectiveName] f.steps

/-! ### Rules -/

/-- What every step has to keep to. -/
inductive Rule where
  | name | depth | repetition | stage | body
  deriving DecidableEq, Repr

namespace Rule

/-- The rules in the order in which a step is held against them. -/
def inOrder : List Rule := [.name, .depth, .repetition, .stage, .body]

/-- A step that is declared behind the steps `earlier` breaks a rule. -/
def isBroken (earlier : List Declaration) (d : Declaration) : Rule → Bool
  | name => !Name.valid d.key
  | depth => 9 < d.level
  | repetition => earlier.any fun e => e.name = d.name
  | stage => d.isStage && d.spec.plugin.isSome
  | body => !d.isStage && d.spec.bash.isNone && d.spec.script.isNone && d.spec.pwsh.isNone &&
    d.spec.plugin.isNone

/-- What is reported of a step that breaks a rule. -/
def error (d : Declaration) : Rule → TreeError
  | name => .badPath (.illegalName d.key)
  | depth => .badPath (.tooDeep d.path.text)
  | repetition => .duplicateName d.name d.path
  | stage => .pluginOnStage d.path
  | body => .noBody d.path

/-- The first rule that a step breaks. -/
def broken? (earlier : List Declaration) (d : Declaration) : Option Rule :=
  inOrder.find? (isBroken earlier d)

end Rule

/-- The step `d` of a list is the first that breaks a rule, and `r` is the first rule that it breaks;
`earlier` are the steps declared before the list. -/
def FirstFault (earlier ds : List Declaration) (d : Declaration) (r : Rule) : Prop :=
  ∃ before after, ds = before ++ d :: after ∧ Rule.broken? (earlier ++ before) d = some r ∧
    ∀ pre x post, before = pre ++ x :: post → Rule.broken? (earlier ++ pre) x = none

/-- What a step has to keep to whatever is declared before it: its name is valid, it is nested at most
nine levels deep, a stage runs no plugin, and any other step has something to run. -/
structure Declaration.Sound (d : Declaration) : Prop where
  name : Name.valid d.key = true
  level : d.level ≤ 9
  stage : d.isStage = true → d.spec.plugin = none
  body : d.isStage = false →
    d.spec.bash ≠ none ∨ d.spec.script ≠ none ∨ d.spec.pwsh ≠ none ∨ d.spec.plugin ≠ none

/-- The flow has a valid name, every step keeps to the rules, and the names of the steps are distinct. -/
structure Flow.Buildable (f : Flow) : Prop where
  name : Name.valid f.effectiveName = true
  sound : ∀ d ∈ f.declarations, d.Sound
  distinct : (f.declarations.map Declaration.name).Nodup

/-! ### The first fault -/

/-- What is reported of the first step of a list that breaks a rule. -/
def firstFault? (earlier : List Declaration) : List Declaration → Option TreeError
  | [] => none
  | d :: ds =>
    match Rule.broken? earlier d with
    | some r => some (r.error d)
    | none => firstFault? (earlier ++ [d]) ds

section FirstFault

variable {earlier ds : List Declaration} {d x : Declaration} {r : Rule} {e : TreeError}

lemma firstFault?_append (earlier xs ys : List Declaration) : firstFault? earlier (xs ++ ys) =
    (firstFault? earlier xs).or (firstFault? (earlier ++ xs) ys) := by
  induction xs generalizing earlier with
  | nil => simp [firstFault?]
  | cons d xs ih =>
    rw [List.cons_append, firstFault?, firstFault?]
    cases Rule.broken? earlier d with
    | some r => rfl
    | none => simp only [ih, List.append_assoc, List.singleton_append]

lemma FirstFault.head (h : Rule.broken? earlier d = some r) : FirstFault earlier (d :: ds) d r :=
  ⟨[], ds, rfl, by simpa using h, by simp⟩

lemma FirstFault.tail (hx : Rule.broken? earlier x = none)
    (h : FirstFault (earlier ++ [x]) ds d r) : FirstFault earlier (x :: ds) d r := by
  obtain ⟨before, after, rfl, hr, hbefore⟩ := h
  refine ⟨x :: before, after, rfl, by simpa using hr, ?_⟩
  intro pre y post hpre
  cases pre with
  | nil =>
    cases hpre
    simpa using hx
  | cons z pre =>
    cases hpre
    simpa using hbefore pre y post rfl

/-- The first fault of a list is in its first step or, if that breaks no rule, in the rest. -/
lemma FirstFault.cases (h : FirstFault earlier (x :: ds) d r) :
    (x = d ∧ Rule.broken? earlier x = some r) ∨
      (Rule.broken? earlier x = none ∧ FirstFault (earlier ++ [x]) ds d r) := by
  obtain ⟨before, after, hsplit, hr, hbefore⟩ := h
  cases before with
  | nil =>
    cases hsplit
    exact .inl ⟨rfl, by simpa using hr⟩
  | cons y before =>
    cases hsplit
    refine .inr ⟨by simpa using hbefore [] x before rfl, before, after, rfl, by simpa using hr, ?_⟩
    rintro pre y post rfl
    simpa using hbefore (x :: pre) y post rfl

lemma firstFault?_eq_some_iff :
    firstFault? earlier ds = some e ↔ ∃ d r, FirstFault earlier ds d r ∧ e = r.error d := by
  induction ds generalizing earlier with
  | nil =>
    refine iff_of_false nofun ?_
    rintro ⟨d, r, ⟨before, after, hsplit, -⟩, -⟩
    simp at hsplit
  | cons x ds ih =>
    rw [firstFault?]
    cases hx : Rule.broken? earlier x with
    | some r =>
      constructor
      · rintro ⟨⟩
        exact ⟨x, r, .head hx, rfl⟩
      · rintro ⟨d, r', hfault, rfl⟩
        obtain ⟨rfl, hr⟩ | ⟨hnone, -⟩ := hfault.cases
        · cases hx.symm.trans hr
          rfl
        · cases hx.symm.trans hnone
    | none =>
      simp only [ih]
      constructor
      · rintro ⟨d, r, hfault, rfl⟩
        exact ⟨d, r, hfault.tail hx, rfl⟩
      · rintro ⟨d, r, hfault, rfl⟩
        obtain ⟨-, hr⟩ | ⟨-, hrest⟩ := hfault.cases
        · cases hx.symm.trans hr
        · exact ⟨d, r, hrest, rfl⟩

/-- A step breaks no rule. -/
lemma Rule.broken?_eq_none_iff :
    broken? earlier d = none ↔ d.Sound ∧ ∀ e ∈ earlier, e.name ≠ d.name := by
  have hbody : ¬ isBroken earlier d .body = true ↔ (d.isStage = false → d.spec.bash ≠ none ∨
      d.spec.script ≠ none ∨ d.spec.pwsh ≠ none ∨ d.spec.plugin ≠ none) := by
    simp only [isBroken, Bool.and_eq_true, Bool.not_eq_true', Option.isNone_iff_eq_none]
    tauto
  simp only [broken?, inOrder, List.find?_eq_none, List.forall_mem_cons, List.not_mem_nil,
    false_imp_iff, implies_true, and_true, hbody]
  constructor
  · rintro ⟨hname, hdepth, hnew, hstage, hbody⟩
    exact ⟨⟨by simpa [isBroken] using hname, by simpa [isBroken] using hdepth,
      by simpa [isBroken] using hstage, hbody⟩, by simpa [isBroken] using hnew⟩
  · rintro ⟨⟨hname, hlevel, hstage, hbody⟩, hnew⟩
    exact ⟨by simpa [isBroken] using hname, by simpa [isBroken] using hlevel,
      by simpa [isBroken] using hnew, by simpa [isBroken] using hstage, hbody⟩

/-- No step of a list breaks a rule. -/
lemma firstFault?_eq_none_iff : firstFault? earlier ds = none ↔ (∀ d ∈ ds, d.Sound) ∧
    (ds.map Declaration.name).Nodup ∧ ∀ d ∈ ds, ∀ e ∈ earlier, e.name ≠ d.name := by
  induction ds generalizing earlier with
  | nil => simp [firstFault?]
  | cons x ds ih =>
    rw [firstFault?]
    simp only [List.forall_mem_cons, List.map_cons, List.nodup_cons]
    cases hx : Rule.broken? earlier x with
    | some r =>
      have hbroken : ¬ Rule.broken? earlier x = none := by simp [hx]
      rw [Rule.broken?_eq_none_iff] at hbroken
      refine iff_of_false nofun ?_
      rintro ⟨⟨hsound, -⟩, -, hnew, -⟩
      exact hbroken ⟨hsound, hnew⟩
    | none =>
      obtain ⟨hsound, hnew⟩ := Rule.broken?_eq_none_iff.1 hx
      have hnames : (∀ d ∈ ds, ∀ e ∈ earlier ++ [x], e.name ≠ d.name) ↔
          x.name ∉ ds.map Declaration.name ∧ ∀ d ∈ ds, ∀ e ∈ earlier, e.name ≠ d.name := by
        simp only [List.forall_mem_append, List.forall_mem_singleton, List.mem_map]
        grind
      simp only [ih, hnames]
      tauto

end FirstFault

/-! ### Adding steps -/

namespace Tree

/-- The nodes have the steps `earlier` among them, and no others. -/
def Holds (nodes : List TreeNode) (earlier : List Declaration) : Prop :=
  ∀ name, hasStep nodes name = true ↔ ∃ e ∈ earlier, e.name = name

section Adding

variable {nodes : List TreeNode} {earlier : List Declaration} {parent : Nat} {above : Path}
  {key : String} {spec : StepSpec}

/-- **One step** gets its node if it breaks no rule. -/
lemma stepNode_eq (h : Holds nodes earlier) (stage : Bool) :
    stepNode nodes parent above key spec stage =
      match Rule.broken? earlier ⟨key, spec, stage, above.segments⟩ with
      | some r => .error (r.error ⟨key, spec, stage, above.segments⟩)
      | none => .ok (.ofSpec spec ⟨above.segments ++ [Text.trim key]⟩ parent) := by
  obtain ⟨d, hd⟩ : ∃ d : Declaration, d = ⟨key, spec, stage, above.segments⟩ := ⟨_, rfl⟩
  have hpath : d.path = ⟨above.segments ++ [Text.trim key]⟩ := by rw [hd]; rfl
  have hname : d.path.name = Text.trim key := by simp [hpath, Path.name]
  have hkey : d.key = key ∧ d.name = Text.trim key := by simp [hd, Declaration.name]
  have hvalid : Rule.isBroken earlier d .name = !Name.valid key := by rw [hd]; rfl
  have hdepth : Rule.isBroken earlier d .depth = decide (9 < above.segments.length) := by
    rw [hd]; rfl
  have hrepetition : Rule.isBroken earlier d .repetition = hasStep nodes (Text.trim key) := by
    rw [Bool.eq_iff_iff, h, Rule.isBroken, List.any_eq_true, hd]
    exact exists_congr fun e => and_congr_right fun _ => decide_eq_true_iff
  have hstage : Rule.isBroken earlier d .stage = (stage && spec.plugin.isSome) := by rw [hd]; rfl
  have hbody : Rule.isBroken earlier d .body = (!stage && !spec.hasBody) := by
    rw [hd, Rule.isBroken, StepSpec.hasBody, StepSpec.effectiveBash]
    cases spec.bash <;> simp [Bool.and_assoc]
  rw [← hd, stepNode, Path.child_eq, Rule.broken?, Rule.inOrder, ← hpath]
  simp only [List.find?, hvalid, hdepth, hrepetition, hstage, hbody]
  cases Name.valid key with
  | false => simp [Rule.error, hkey]
  | true =>
    by_cases hdeep : 9 < above.segments.length
    · simp [hdeep, Rule.error, Path.text, hpath]
    · cases hseen : hasStep nodes (Text.trim key) with
      | true => simp [hdeep, hname, hseen, Rule.error, hkey]
      | false =>
        cases hplugin : stage && spec.plugin.isSome with
        | true => simp [hdeep, hname, hseen, Rule.error]
        | false => cases !stage && !spec.hasBody <;> simp [hdeep, hname, hseen, Rule.error]

/-- The node of a step that breaks no rule is one more. -/
lemma Holds.concat (h : Holds nodes earlier) {node : TreeNode} {d : Declaration}
    (hnode : node.name = d.name) (hstep : node.isRoot = false) :
    Holds (nodes ++ [node]) (earlier ++ [d]) := by
  intro name
  have hname := h name
  rw [hasStep] at hname ⊢
  simp [hstep, hnode, hname, or_and_right, exists_or]

/-- **Steps are added** if none of them breaks a rule; else the first fault is reported. -/
theorem addSteps_outcome (h : Holds nodes earlier) (parent : Nat) (above : Path)
    (steps : List (String × Step)) :
    (∀ e, firstFault? earlier (Step.declarations above.segments steps) = some e →
      addSteps parent above steps nodes = .error e) ∧
    (firstFault? earlier (Step.declarations above.segments steps) = none →
      ∃ nodes', addSteps parent above steps nodes = .ok nodes' ∧
        Holds nodes' (earlier ++ Step.declarations above.segments steps)) := by
  induction steps using Step.declared.induct generalizing parent above nodes earlier with
  | case1 =>
    rw [Step.declarations]
    refine ⟨fun e he => ?_, fun _ => ⟨nodes, by rw [addSteps], by simpa using h⟩⟩
    cases he
  | case2 key spec inner rest ih_inner ih_rest =>
    rw [Step.declarations, addSteps, stepNode_eq h, firstFault?]
    cases hd : Rule.broken? earlier ⟨key, spec, !inner.isEmpty, above.segments⟩ with
    | some r =>
      refine ⟨fun e he => ?_, fun hnone => ?_⟩
      · cases he
        rfl
      · cases hnone
    | none =>
      have hname : Path.name ⟨above.segments ++ [Text.trim key]⟩ = Text.trim key := by
        simp [Path.name]
      have hholds : Holds (nodes ++ [.ofSpec spec ⟨above.segments ++ [Text.trim key]⟩ parent])
          (earlier ++ [⟨key, spec, !inner.isEmpty, above.segments⟩]) := h.concat hname rfl
      obtain ⟨hinner_fault, hinner_added⟩ :=
        ih_inner hholds nodes.length ⟨above.segments ++ [Text.trim key]⟩
      simp only [firstFault?_append]
      cases hinner : firstFault? (earlier ++ [⟨key, spec, !inner.isEmpty, above.segments⟩])
          (Step.declarations (above.segments ++ [Text.trim key]) inner) with
      | some e =>
        have hfault := hinner_fault e hinner
        refine ⟨fun e' he => ?_, fun hnone => ?_⟩
        · cases he
          simp only [TreeNode.ofSpec] at hfault ⊢
          rw [hfault]
        · cases hnone
      | none =>
        obtain ⟨mid, hmid, hholds'⟩ := hinner_added hinner
        obtain ⟨hrest_fault, hrest_added⟩ := ih_rest hholds' parent above
        simp only [TreeNode.ofSpec] at hmid ⊢
        simp only [hmid, Option.none_or]
        refine ⟨hrest_fault, ?_⟩
        simpa using hrest_added

end Adding

/-! ### The tree of a flow -/

lemma build_of_name (f : Flow) (hname : Name.valid f.effectiveName = true) : build f =
    (addSteps 0 ⟨[Text.trim f.effectiveName]⟩ f.steps
      [.ofFlow f ⟨[Text.trim f.effectiveName]⟩]).map Tree.mk := by
  rw [build_eq, Path.root, Path.segment, if_pos hname]
  rfl

lemma build_of_not_name (f : Flow) (hname : ¬ Name.valid f.effectiveName = true) :
    build f = .error (.badPath (.illegalName f.effectiveName)) := by
  rw [build_eq, Path.root, Path.segment, if_neg hname]
  rfl

/-- **Which flows have a tree**, and what is reported of the others: an invalid name of the flow, or
else the first rule that is broken by the first step that breaks one. -/
theorem build_outcome_of_rules (f : Flow) :
    ((∃ t, build f = .ok t) ↔ f.Buildable) ∧
    ∀ e, build f = .error e ↔
      (¬ Name.valid f.effectiveName = true ∧ e = .badPath (.illegalName f.effectiveName)) ∨
      (Name.valid f.effectiveName = true ∧
        ∃ d r, FirstFault [] f.declarations d r ∧ e = r.error d) := by
  by_cases hname : Name.valid f.effectiveName = true
  case neg =>
    rw [build_of_not_name f hname]
    refine ⟨iff_of_false ?_ fun h => hname h.name, fun e => ?_⟩
    · rintro ⟨t, ht⟩
      cases ht
    · simp [hname, eq_comm]
  have hbuildable : f.Buildable ↔ firstFault? [] f.declarations = none := by
    rw [firstFault?_eq_none_iff]
    exact ⟨fun h => ⟨h.sound, h.distinct, by simp⟩, fun h => ⟨hname, h.1, h.2.1⟩⟩
  have hroot : Holds [.ofFlow f ⟨[Text.trim f.effectiveName]⟩] [] := by
    intro name
    simp [hasStep, TreeNode.isRoot, TreeNode.ofFlow]
  obtain ⟨hrefused, hadded⟩ := addSteps_outcome hroot 0 ⟨[Text.trim f.effectiveName]⟩ f.steps
  rw [build_of_name f hname, hbuildable]
  simp only [hname, not_true_eq_false, false_and, true_and, false_or, ← firstFault?_eq_some_iff]
  change ∀ e, firstFault? [] f.declarations = some e → _ at hrefused
  change firstFault? [] f.declarations = none → _ at hadded
  cases hfault : firstFault? [] f.declarations with
  | some e =>
    rw [hrefused e hfault]
    refine ⟨iff_of_false ?_ (Option.some_ne_none e), fun e' => by simp [Except.map]⟩
    rintro ⟨t, ht⟩
    cases ht
  | none =>
    obtain ⟨nodes, hnodes, -⟩ := hadded hfault
    rw [hnodes]
    refine ⟨iff_of_true ⟨_, rfl⟩ rfl, fun e' => iff_of_false ?_ ?_⟩
    · intro he
      cases he
    · intro he
      cases he

/-- A flow in which two steps are called `build`; the second of them has nothing to run besides, and the
step behind it has no valid name. -/
def untidy : Flow where
  steps := [
    ("build", { spec := { bash := some "make" } }),
    ("checks", { steps := [
      (" build ", {}),
      ("lint*", { spec := { bash := some "make lint" } })] })]

theorem build_outcome_of_rules_untidy :
    FirstFault [] untidy.declarations ⟨" build ", {}, false, ["root", "checks"]⟩ .repetition ∧
    build untidy = .error (.duplicateName "build" ⟨["root", "checks", "build"]⟩) ∧
    ¬ untidy.Buildable := by
  have hfault : FirstFault [] untidy.declarations ⟨" build ", {}, false, ["root", "checks"]⟩
      .repetition := by
    rw [show untidy.declarations = [⟨"build", { bash := some "make" }, false, ["root"]⟩,
      ⟨"checks", {}, true, ["root"]⟩, ⟨" build ", {}, false, ["root", "checks"]⟩,
      ⟨"lint*", { bash := some "make lint" }, false, ["root", "checks"]⟩] by cbv]
    refine .tail ?_ (.tail ?_ (.head ?_))
    · decide
    · decide
    · decide
  obtain ⟨hbuilds, hreported⟩ := build_outcome_of_rules untidy
  have hbuild := (hreported _).2 (.inr ⟨by decide, _, _, hfault, rfl⟩)
  refine ⟨hfault, hbuild, ?_⟩
  rw [← hbuilds, hbuild]
  rintro ⟨t, ht⟩
  cases ht

end Tree

end StepFlow

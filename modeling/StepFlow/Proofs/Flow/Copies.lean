import StepFlow.Flow.Load
import StepFlow.Proofs.Flow.Keyed
import StepFlow.Proofs.Yaml.Copies

/-!
A document read back from its JSON. Each record writes its members in the order of its fields and leaves
out what is unset or empty, and an absent member is read as just that; so the reader makes of the tree
of the JSON the document itself, with the only exception of one that is nested too deep
(`Flow.copies_toJson`, `Step.copies_toJson`). When readers are handed that tree, the text of
the JSON is decoded as the document.
-/

namespace StepFlow

open Yaml (Document Node Fault)
open Yaml.Decode
open Json (field? listField tableField)

section Copies

variable {d : Document} {depth : Nat}

/-! ### Containers and file rules -/

lemma Container.copies_toJson {c : Container} (h : c.Keyed) :
    Copies depth (Container.read d depth) c.toJson c := by
  rw [Container.toJson]
  simp only [List.append_assoc]
  exact copies_record ["image", "entrypoint", "command", "environment", "user", "network"]
    (.cons (fills_text (sets_of_eq rfl) rfl) <|
      .cons (fills_texts (sets_of_eq rfl) rfl) <|
      .cons (fills_texts (sets_of_eq rfl) rfl) <|
      .cons (fills_tableField (sets_of_eq rfl) h rfl) <|
      .cons (fills_text (sets_of_eq rfl) rfl) <|
      fills_text (sets_of_eq rfl) rfl)
    (by decide) rfl rfl

lemma FileRule.copies_toJson (r : FileRule) : Copies depth (FileRule.read d depth) r.toJson r := by
  have hrecord : Copies depth (record d [
      { name := "name", set := fun n s => return (some (← text d n), s.2) },
      { name := "paths", set := fun n s => return (s.1, ← texts d (depth - 1) n) }] (none, []) depth)
      r.toJson (some r.name, r.paths) :=
    copies_record ["name", "paths"]
      (.cons (fills_member (sets_of_eq rfl) (copies_text r.name)) <|
        fills_member (sets_of_eq rfl) (copies_texts r.paths))
      (by decide) rfl rfl
  rw [Copies, FileRule.read]
  refine (congrArg (· >>= _) hrecord).trans ?_
  cases r.toJson.fits depth <;> rfl

/-! ### Steps -/

lemma Step.members_eq_map (steps : List (String × Step)) :
    Step.members steps = steps.map fun p => (p.1, p.2.toJson) := by
  induction steps with
  | nil => rfl
  | cons p steps ih => rw [Step.members, ih, List.map_cons]

section Nested

variable {nested : Node → Except Fault (Table Step)} {inner : Table Step}

lemma StepSpec.name_ne_steps : ∀ f ∈ StepSpec.fields d depth, f.name ≠ "steps" := by
  have hnames : "steps" ∉ (StepSpec.fields d depth).map (·.name) := of_decide_eq_true rfl
  intro f hf hname
  exact hnames (hname ▸ List.mem_map_of_mem hf)

lemma Step.copies_members {read : Node → Except Fault Step} (hnames : (Table.names inner).Nodup)
    (h : ∀ k, depth = k + 1 → ∀ p ∈ inner, Copies k read p.2.toJson p.2) :
    Copies depth (table read d depth) (.obj (Step.members inner)) inner := by
  have htable := copies_table (d := d) id hnames h
  rw [Step.members_eq_map]
  simpa using htable

/-- What a step says about itself is read as a part of the step. -/
lemma Step.sets_spec {α : Type} {name : String} {aliases : List String}
    {read : Node → Except Fault α} {set : α → StepSpec → StepSpec}
    (h : fieldOf? (StepSpec.fields d depth) name =
      some { name, aliases, set := fun n s => return set (← read n) s }) :
    Sets (Step.fields nested d depth) name read fun v s => { s with spec := set v s.spec } := by
  have hother : "steps" ≠ name := (StepSpec.name_ne_steps _ (List.mem_of_find?_eq_some h)).symm
  have hfound : fieldOf? (Step.fields nested d depth) name =
      some { name, aliases, set := fun n s => do
        return { s with spec := ← (do return set (← read n) s.spec) } } := by
    rw [fieldOf?, Step.fields, List.find?_cons_of_neg (by simpa using hother), List.find?_map]
    exact Option.map_eq_some_iff.2 ⟨_, h, rfl⟩
  refine ⟨_, hfound, rfl, fun n s => ?_⟩
  show (do return { s with spec := ← (do return set (← read n) s.spec) }) = _
  cases read n <;> rfl

/-- Nested steps are left out when there are none. -/
lemma Step.fills_steps {s : Step} (h : Copies depth nested (.obj (Step.members inner)) inner)
    (hunset : setting (fun v s => { s with steps := v }) [] s = s) :
    Fills depth (Step.fields nested d depth) ["steps"] s
      (if inner.isEmpty then [] else [("steps", .obj (Step.members inner))])
      (setting (fun v s => { s with steps := v }) inner s) := by
  cases inner with
  | nil =>
    rw [hunset]
    exact fills_nil
  | cons p inner => exact fills_member (sets_of_eq rfl) h

/-- A step is read from its members when its nested steps are. -/
lemma Step.copies_record {spec : StepSpec} (hspec : spec.Keyed)
    (hinner : Copies (depth - 1) nested (.obj (Step.members inner)) inner) :
    Copies depth (record d (Step.fields nested d (depth - 1)) {} depth) (Step.toJson ⟨spec, inner⟩)
      ⟨spec, inner⟩ := by
  obtain ⟨hvars, hdocker⟩ := hspec
  -- with its fields by name, it is quickly seen that what was put in makes up the specification
  cases spec
  rw [Step.toJson]
  simp only [List.append_assoc]
  exact Yaml.Decode.copies_record
    ["vars", "condition", "docker", "agents", "steps", "bash", "pwsh", "script", "post", "plugin",
      "retry", "timeout", "allow_failure", "dependencies", "exports", "secrets", "configs", "caches",
      "artifacts"]
    (.cons (fills_tableField (sets_spec rfl) hvars rfl) <|
      .cons (fills_text (sets_spec rfl) rfl) <|
      .cons (fills_field? (sets_spec rfl)
        (fun c hc => Container.copies_toJson (hdocker c hc)) (fun _ => Json.noConfusion) rfl) <|
      .cons (fills_textList (sets_spec rfl) rfl) <|
      .cons (Step.fills_steps hinner rfl) <|
      .cons (fills_text (sets_spec rfl) rfl) <|
      .cons (fills_text (sets_spec rfl) rfl) <|
      .cons (fills_text (sets_spec rfl) rfl) <|
      .cons (fills_flag (sets_spec rfl) rfl) <|
      .cons (fills_text (sets_spec rfl) rfl) <|
      .cons (fills_field? (sets_spec rfl) (fun n _ => copies_word32 n)
        (fun _ => Json.noConfusion) rfl) <|
      .cons (fills_field? (sets_spec rfl) (fun n _ => copies_word64 n)
        (fun _ => Json.noConfusion) rfl) <|
      .cons (fills_flag (sets_spec rfl) rfl) <|
      .cons (fills_textList (sets_spec rfl) rfl) <|
      .cons (fills_textList (sets_spec rfl) rfl) <|
      .cons (fills_textList (sets_spec rfl) rfl) <|
      .cons (fills_textList (sets_spec rfl) rfl) <|
      .cons (fills_listField (sets_spec rfl)
        (copies_list fun _ r _ => FileRule.copies_toJson r) rfl) <|
      fills_listField (sets_spec rfl)
        (copies_list fun _ r _ => FileRule.copies_toJson r) rfl)
    (by decide) rfl rfl

end Nested

/-- How the steps inside a step are read. -/
def Step.readInner (d : Document) : Nat → Node → Except Fault (Table Step)
  | 0 => fun _ => .error .tooDeep
  | 1 => table (fun _ => .error .tooDeep) d 0
  | depth + 2 => table (Step.read d depth) d (depth + 1)

lemma Step.read_eq (d : Document) (depth : Nat) :
    Step.read d depth = record d (Step.fields (Step.readInner d depth) d (depth - 1)) {} depth := by
  funext n
  match depth with
  | 0 => rw [Step.read, Step.readInner]
  | 1 => rw [Step.read, Step.readInner]
  | depth + 2 =>
    rw [Step.read, Step.readInner]
    rfl

/-- **A step**, with the steps inside it. -/
theorem Step.copies_toJson {s : Step} (hdistinct : s.Distinct) (hkeyed : s.All StepSpec.Keyed) :
    Copies depth (Step.read d depth) s.toJson s := by
  induction depth using Nat.strongRecOn generalizing s with
  | ind depth ih =>
    obtain ⟨spec, inner⟩ := s
    rw [Step.distinct_iff] at hdistinct
    rw [Step.all_iff] at hkeyed
    rw [Step.read_eq]
    refine Step.copies_record hkeyed.1 ?_
    match depth with
    | 0 => rfl
    | 1 => rfl
    | depth + 2 =>
      refine Step.copies_members hdistinct.1 ?_
      rintro k ⟨⟩ p hp
      exact ih depth (by omega) (hdistinct.2 p hp) (hkeyed.2 p hp)

/-! ### Flows -/

/-- **A flow**, with all its steps. -/
theorem Flow.copies_toJson {f : Flow} (hdistinct : f.Distinct) (hkeyed : f.Keyed) :
    Copies depth (Flow.read d depth) f.toJson f := by
  have hsteps : Copies (depth - 1) (table (Step.read d (depth - 1 - 1)) d (depth - 1))
      (.obj (Step.members f.steps)) f.steps := by
    refine Step.copies_members hdistinct.1 ?_
    rintro k hk p hp
    rw [hk]
    exact Step.copies_toJson (Step.allDistinct_iff.1 hdistinct.2 p hp)
      (Step.allOf_iff.1 hkeyed.steps p hp)
  obtain ⟨hvars, hdocker, -⟩ := hkeyed
  cases f
  rw [Flow.toJson]
  simp only [List.append_assoc]
  exact copies_record ["version", "name", "vars", "condition", "docker", "agents", "steps"]
    (.cons (fills_field? (sets_of_eq rfl) (fun n _ => copies_word32 n)
        (fun _ => Json.noConfusion) rfl) <|
      .cons (fills_text (sets_of_eq rfl) rfl) <|
      .cons (fills_member (sets_of_eq rfl) (copies_namedTexts hvars)) <|
      .cons (fills_text (sets_of_eq rfl) rfl) <|
      .cons (fills_field? (sets_of_eq rfl)
        (fun c hc => Container.copies_toJson (hdocker c hc)) (fun _ => Json.noConfusion) rfl) <|
      .cons (fills_member (sets_of_eq rfl) (copies_texts _)) <|
      fills_member (sets_of_eq rfl) hsteps)
    (by decide) rfl rfl

end Copies

/-! ### Documents -/

/-- A step document as it is when it was read: no name stands twice in one of its tables, and it passes
the check. -/
structure Step.Checked (s : Step) : Prop where
  distinct : s.Distinct
  keyed : s.All StepSpec.Keyed
  check : s.check Step.standaloneName = .ok ()

open Yaml (HandsOver)

lemma Flow.parse_compact {f : Flow} (hf : f.Checked) (h : HandsOver f.toJson) :
    Flow.parse f.toJson.compact = .ok f := by
  have hread : only Flow.read f.toJson.compact = .ok f :=
    only_compact h fun _ => Flow.copies_toJson hf.distinct hf.keyed
  have hsome : Text.isBlankText f.toJson.compact = false := Json.compact_obj_not_blank _
  simp only [Flow.parse, hsome, hread, hf.check, Bool.false_eq_true, if_false]

lemma Step.parse_compact {s : Step} (hs : s.Checked) (h : HandsOver s.toJson) :
    Step.parse s.toJson.compact = .ok s := by
  have hread : only Step.read s.toJson.compact = .ok s :=
    only_compact h fun _ => Step.copies_toJson hs.distinct hs.keyed
  have hsome : Text.isBlankText s.toJson.compact = false := by
    obtain ⟨spec, inner⟩ := s
    rw [Step.toJson]
    exact Json.compact_obj_not_blank _
  simp only [Step.parse, hsome, hread, hs.check, Bool.false_eq_true, if_false]

/-- **The JSON of a document is a faithful copy of it.** Decoded as a document again, it gives back the
document that it was made of, whether a flow or a single step. -/
theorem parse_toJson :
    (∀ f : Flow, f.Checked → HandsOver f.toJson → Flow.parse f.toJson.compact = .ok f) ∧
      ∀ s : Step, s.Checked → HandsOver s.toJson → Step.parse s.toJson.compact = .ok s :=
  ⟨fun _ hf h => Flow.parse_compact hf h, fun _ hs h => Step.parse_compact hs h⟩

/-- The copies of a flow with a step and of a step that stands alone. -/
theorem parse_toJson_build :
    let build : Flow := { vars := [("A", "1")], steps := [("b", { spec := { bash := some "make" } })] }
    let test : Step := { spec := { post := some true, retry := some 2 } }
    Flow.parse build.toJson.compact = .ok build ∧ Step.parse test.toJson.compact = .ok test := by
  intro build test
  have hbuild : build.Checked :=
    ⟨⟨by decide, ⟨by decide, trivial⟩, trivial⟩,
      ⟨by decide, (fun _ hc => nomatch hc), ⟨⟨by decide, (fun _ hc => nomatch hc)⟩, trivial⟩, trivial⟩,
      by decide +kernel⟩
  have htest : test.Checked :=
    ⟨⟨by decide, trivial⟩, ⟨⟨by decide, (fun _ hc => nomatch hc)⟩, trivial⟩, by decide +kernel⟩
  have hdocument : ∀ text events complete,
      Yaml.Event.ofTokens (Yaml.Token.ofText text).1 = (events, complete) →
      Document.ofText text = Document.ofEvents events complete := fun text events complete h =>
    congrArg (fun e : List Yaml.Event × Bool => Document.ofEvents e.1 e.2) h
  have hevents : Yaml.Event.ofTokens (Yaml.Token.ofText build.toJson.compact).1 =
      ([.documentStart, .mappingStart {}, .scalar {} "vars" .double, .mappingStart {},
        .scalar {} "A" .double, .scalar {} "1" .double, .mappingEnd, .scalar {} "agents" .double,
        .sequenceStart {}, .sequenceEnd, .scalar {} "steps" .double, .mappingStart {},
        .scalar {} "b" .double, .mappingStart {}, .scalar {} "bash" .double,
        .scalar {} "make" .double, .mappingEnd, .mappingEnd, .mappingEnd, .documentEnd], true) := by
    decide +kernel
  have hevents' : Yaml.Event.ofTokens (Yaml.Token.ofText test.toJson.compact).1 =
      ([.documentStart, .mappingStart {}, .scalar {} "post" .double, .scalar {} "true" .plain,
        .scalar {} "retry" .double, .scalar {} "2" .plain, .mappingEnd, .documentEnd], true) := by
    decide +kernel
  exact ⟨parse_toJson.1 build hbuild ⟨hdocument _ _ _ hevents, by decide +kernel⟩,
    parse_toJson.2 test htest ⟨hdocument _ _ _ hevents', by decide +kernel⟩⟩

end StepFlow

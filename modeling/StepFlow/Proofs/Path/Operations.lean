import StepFlow.Proofs.Path

/-!
Paths as they come about: the path of a root, the path that a text writes, and the paths right below and
right above such paths. Each of them has one to ten segments, every one a proper name without blanks
around it (`Reached.formed`), and is read back from its text. So a path and its text determine each
other (`path_of_text`). A text writes a path just when one to ten pieces between its slashes are more
than blanks and all of these are names (`parse_eq_ok_iff`).
-/

namespace StepFlow

/-! ### Names -/

/-- A text that can be a segment as it stands. -/
structure Name.Proper (s : String) : Prop where
  ne_empty : s ≠ ""
  length_le : s.length ≤ 100
  unreserved : ∀ c ∈ ['*', '.', ';', '/'], c ∉ s.toList

lemma Text.trim_eq_empty_iff {s : String} : trim s = "" ↔ isBlankText s = true := by
  have hdrop : trim s = "" ↔ (s.toList.dropWhile isBlank).rdropWhile isBlank = [] :=
    String.ofList_eq_empty_iff
  rw [hdrop, List.rdropWhile_eq_nil_iff, isBlankText, List.all_eq_true]
  constructor
  · intro h
    have hnil : s.toList.dropWhile isBlank = [] := by
      by_contra hne
      -- what is left starts with a character that is not blank
      have hhead := List.head_dropWhile_not isBlank hne
      rw [h _ (List.head_mem hne)] at hhead
      cases hhead
    exact List.dropWhile_eq_nil_iff.mp hnil
  · intro h c hc
    exact h c ((List.dropWhile_sublist isBlank).subset hc)

namespace Name

lemma isReserved_iff {c : Char} : isReserved c = true ↔ c ∈ ['*', '.', ';', '/'] := by
  simp [isReserved, or_assoc]

/-- A valid name is a proper one once the blanks around it are taken off. -/
theorem valid_iff_proper {s : String} : valid s = true ↔ Proper (Text.trim s) := by
  have hcore : (Text.trim s).toList = Text.trimChars s.toList := String.toList_ofList
  have hempty : Text.trimChars s.toList = [] ↔ Text.trim s = "" := by
    rw [← hcore, String.toList_eq_nil_iff]
  rw [valid, validChars, ← hcore]
  simp only [Bool.and_eq_true, Bool.not_eq_true', List.isEmpty_eq_false_iff, decide_eq_true_eq,
    List.any_eq_false, isReserved_iff]
  constructor
  · rintro ⟨⟨hne, hlen⟩, hfree⟩
    refine ⟨?_, String.length_toList ▸ hlen, fun c hc hmem => hfree c hmem hc⟩
    rwa [Ne, ← hempty, ← hcore]
  · rintro ⟨hne, hlen, hfree⟩
    refine ⟨⟨?_, String.length_toList ▸ hlen⟩, fun c hmem hc => hfree c hc hmem⟩
    rwa [Ne, hcore, hempty]

end Name

namespace Path

/-- The paths that can come about: those of roots and those that texts write, and from each of these the
ones right below it and the one right above it. -/
inductive Reached : Path → Prop
  | root {name : String} {p : Path} (h : root name = .ok p) : Reached p
  | parse {text : String} {p : Path} (h : parse text = .ok p) : Reached p
  | child {p q : Path} {name : String} (hp : Reached p) (h : p.child name = .ok q) : Reached q
  | parent {p q : Path} (hp : Reached p) (h : p.parent = some q) : Reached q

/-! ### Down and up -/

section Steps

variable {p q : Path} {name : String}

/-- There is no way down exactly when the name is no name or the path is as deep as can be. -/
lemma child_eq_error_iff (h : p.depth ≤ maxDepth) : (∃ e, p.child name = .error e) ↔
    ¬ Name.valid name = true ∨ p.depth = maxDepth := by
  have hok : (∃ e, p.child name = .error e) ↔ ¬ ∃ q, p.child name = .ok q := by
    cases p.child name <;> simp
  have hdown : (∃ q, p.child name = .ok q) ↔ Name.valid name = true ∧ p.depth < maxDepth := by
    constructor
    · rintro ⟨q, hq⟩
      obtain ⟨hvalid, hdepth, -⟩ := child_eq_ok_iff.mp hq
      exact ⟨hvalid, hdepth⟩
    · rintro ⟨hvalid, hdepth⟩
      exact ⟨⟨p.segments ++ [Text.trim name]⟩, child_eq_ok_iff.mpr ⟨hvalid, hdepth, rfl⟩⟩
  rw [hok, hdown, not_and_or, Nat.not_lt]
  exact or_congr_right ⟨fun hge => le_antisymm h hge, fun heq => heq.ge⟩

/-- The way up leads back. -/
lemma parent_of_child (hne : p.segments ≠ []) (h : p.child name = .ok q) : q.parent = some p := by
  obtain ⟨-, -, hq⟩ := child_eq_ok_iff.mp h
  have hdeep : ¬ q.isRoot = true := by
    rw [isRoot, decide_eq_true_eq, hq, List.length_append, List.length_singleton, Nat.add_eq_right,
      List.length_eq_zero_iff]
    exact hne
  rw [parent, if_neg hdeep, hq, List.dropLast_concat]

/-- Taking the last segment off leaves a path, unless it is the only one. -/
lemma Formed.parent (hp : p.Formed) (h : p.parent = some q) : q.Formed := by
  rw [Path.parent] at h
  split at h
  · cases h
  · rename_i hdeep
    cases h
    rw [isRoot, decide_eq_true_eq] at hdeep
    have hkeep : ∀ s ∈ p.segments.dropLast, s ∈ p.segments :=
      fun s hs => (List.dropLast_sublist p.segments).subset hs
    refine ⟨fun s hs => hp.valid s (hkeep s hs), fun s hs => hp.trimmed s (hkeep s hs), ?_, ?_⟩
    · have hpos := List.length_pos_of_ne_nil hp.some_segment
      refine List.ne_nil_of_length_pos ?_
      rw [List.length_dropLast]
      omega
    · have hle := hp.depth_le
      rw [depth] at hle ⊢
      rw [List.length_dropLast]
      omega

end Steps

/-! ### Reading -/

/-- What stands between the slashes of a text and is more than blanks. -/
def pieces (text : String) : List String :=
  ((text.toList.splitOn '/').map String.ofList).filter fun piece => !Text.isBlankText piece

lemma mapM_segment_eq_ok_iff {names segments : List String} : names.mapM segment = .ok segments ↔
    (∀ s ∈ names, Name.valid s = true) ∧ segments = names.map Text.trim := by
  rw [mapM_eq_ok_iff]
  simp only [segment_eq_ok_iff]
  rw [List.forall₂_and_left, ← List.forall₂_map_left_iff (f := Text.trim) (R := fun x y => x = y),
    List.forall₂_eq_eq_eq, eq_comm (a := segments)]

lemma parse_eq (text : String) :
    parse text = ((pieces text).map Text.trim).mapM segment >>= ofSegments := by
  have hkeep : (fun cs => decide (String.ofList (Text.trimChars cs) ≠ "")) =
      (fun piece => !Text.isBlankText piece) ∘ String.ofList := by
    funext cs
    have hblank := Text.trim_eq_empty_iff (s := String.ofList cs)
    rw [Text.trim, String.toList_ofList] at hblank
    rw [Function.comp_apply, decide_not, Bool.eq_iff_iff]
    simp only [Bool.not_eq_true', decide_eq_false_iff_not, hblank, Bool.not_eq_true]
  have hpieces : (((Text.splitOnChar '/' text.toList).map fun cs =>
      String.ofList (Text.trimChars cs)).filter (· ≠ "")) = (pieces text).map Text.trim := by
    rw [List.filter_map, pieces, List.filter_map, List.map_map, Text.splitOnChar_eq_splitOn, ← hkeep]
    refine List.map_congr_left ?_
    intro cs _
    rw [Function.comp_apply, Text.trim, String.toList_ofList]
  rw [parse, hpieces]

/-- **What a text writes.** It writes a path just when one to ten of the pieces between its slashes are
more than blanks and all of these are names; they are the segments of the path, without the blanks
around them. -/
lemma parse_eq_ok_iff {text : String} {p : Path} : parse text = .ok p ↔
    (∀ s ∈ pieces text, Name.valid s = true) ∧ pieces text ≠ [] ∧ (pieces text).length ≤ maxDepth ∧
      p.segments = (pieces text).map Text.trim := by
  have htrim : ((pieces text).map Text.trim).map Text.trim = (pieces text).map Text.trim := by
    rw [List.map_map]
    exact List.map_congr_left fun s _ => Text.trim_trim s
  rw [parse_eq, bind_eq_ok_iff]
  simp only [mapM_segment_eq_ok_iff, List.forall_mem_map, Name.valid_trim_iff, htrim]
  constructor
  · rintro ⟨segments, ⟨hvalid, rfl⟩, h⟩
    obtain ⟨hne, hdepth, hp⟩ := ofSegments_eq_ok_iff.mp h
    rw [List.length_map] at hdepth
    exact ⟨hvalid, fun hnil => hne (by rw [hnil, List.map_nil]), hdepth, hp⟩
  · rintro ⟨hvalid, hne, hdepth, hp⟩
    refine ⟨_, ⟨hvalid, rfl⟩, ofSegments_eq_ok_iff.mpr ⟨?_, ?_, hp⟩⟩
    · rwa [Ne, List.map_eq_nil_iff]
    · rwa [List.length_map]

lemma parse_formed {text : String} {p : Path} (h : parse text = .ok p) : p.Formed := by
  obtain ⟨hvalid, hne, hdepth, hp⟩ := parse_eq_ok_iff.mp h
  refine ⟨?_, ?_, ?_, ?_⟩
  · rw [hp, List.forall_mem_map]
    exact fun s hs => Name.valid_trim_iff.mpr (hvalid s hs)
  · rw [hp, List.forall_mem_map]
    exact fun s _ => Text.trim_trim s
  · rwa [hp, Ne, List.map_eq_nil_iff]
  · rwa [depth, hp, List.length_map]

/-! ### Paths and texts -/

/-- **Every step keeps a path formed**, so every path that comes about is. -/
lemma Reached.formed {p : Path} (h : p.Reached) : p.Formed := by
  induction h with
  | root h => exact root_formed h
  | parse h => exact parse_formed h
  | child _ h ih => exact ih.child h
  | parent _ h ih => exact ih.parent h

lemma Formed.proper {p : Path} (h : p.Formed) {s : String} (hs : s ∈ p.segments) :
    Name.Proper s := by
  have hproper := Name.valid_iff_proper.mp (h.valid s hs)
  rwa [h.trimmed s hs] at hproper

/-- Two paths of one text are the same path. -/
lemma Formed.eq_of_text {p q : Path} (hp : p.Formed) (hq : q.Formed) (h : p.text = q.text) : p = q := by
  have hread : (.ok p : Except PathError Path) = .ok q := by
    rw [← parse_text hp, ← parse_text hq, h]
  exact Except.ok.inj hread

/-- **A path and its text determine each other.** Each path that comes about has one to ten segments,
every one proper and without blanks around it; it is read back from its text, and no other path has
that text. The way down from it fails exactly when the name is none or ten segments are there, and
otherwise the way up leads back to it. And a text writes a path exactly when one to ten pieces between
its slashes are more than blanks and all of these are names; they are then its segments, without the
blanks around them. -/
theorem path_of_text :
    (∀ p : Path, p.Reached →
      (∀ s ∈ p.segments, Name.Proper s ∧ Text.trim s = s) ∧
      1 ≤ p.segments.length ∧ p.segments.length ≤ 10 ∧
      parse p.text = .ok p ∧
      (∀ q : Path, q.Reached → q ≠ p → q.text ≠ p.text) ∧
      ∀ name, ((∃ e, p.child name = .error e) ↔
          ¬ Name.Proper (Text.trim name) ∨ p.segments.length = 10) ∧
        ∀ q, p.child name = .ok q → q.parent = some p) ∧
    ∀ text,
      ((∃ p, parse text = .ok p) ↔ 1 ≤ (pieces text).length ∧ (pieces text).length ≤ 10 ∧
        ∀ s ∈ pieces text, Name.Proper (Text.trim s)) ∧
      ∀ p, parse text = .ok p → p.segments = (pieces text).map Text.trim := by
  refine ⟨fun p hp => ?_, fun text => ⟨?_, fun p h => (parse_eq_ok_iff.mp h).2.2.2⟩⟩
  · have hformed := hp.formed
    refine ⟨fun s hs => ⟨hformed.proper hs, hformed.trimmed s hs⟩, ?_, hformed.depth_le,
      parse_text hformed, ?_, fun name => ⟨?_, fun q => parent_of_child hformed.some_segment⟩⟩
    · exact List.length_pos_of_ne_nil hformed.some_segment
    · intro q hq hne htext
      exact hne (hq.formed.eq_of_text hformed htext)
    · rw [← Name.valid_iff_proper]
      exact child_eq_error_iff hformed.depth_le
  · simp only [parse_eq_ok_iff, ← Name.valid_iff_proper, Nat.one_le_iff_ne_zero, Ne,
      List.length_eq_zero_iff]
    constructor
    · rintro ⟨p, hvalid, hne, hdepth, -⟩
      exact ⟨hne, hdepth, hvalid⟩
    · rintro ⟨hne, hdepth, hvalid⟩
      exact ⟨⟨(pieces text).map Text.trim⟩, hvalid, hne, hdepth, rfl⟩

/-- A path with a wide blank and a line break inside a name. -/
def unitTests : Path := ⟨["ci", "unit\u2003\ntests"]⟩

theorem path_of_text_unitTests :
    parse "/ ci //\tunit\u2003\ntests\u2003/ " = .ok unitTests ∧ unitTests.Reached ∧
    parse unitTests.text = .ok unitTests ∧
    unitTests.child " fast" = .ok ⟨["ci", "unit\u2003\ntests", "fast"]⟩ ∧
    parent ⟨["ci", "unit\u2003\ntests", "fast"]⟩ = some unitTests ∧
    (text ⟨["ci", "unit\u2003\ntests", "fast"]⟩ ≠ unitTests.text) ∧
    (∃ e, unitTests.child "fast.slow" = .error e) ∧
    unitTests.segments = (pieces "/ ci //\tunit\u2003\ntests\u2003/ ").map Text.trim := by
  have hparse : parse "/ ci //\tunit\u2003\ntests\u2003/ " = .ok unitTests := by cbv
  have hchild : unitTests.child " fast" = .ok ⟨["ci", "unit\u2003\ntests", "fast"]⟩ := by cbv
  have hreached : unitTests.Reached := .parse hparse
  obtain ⟨hpaths, htexts⟩ := path_of_text
  obtain ⟨-, -, -, hread, hother, hdown⟩ := hpaths unitTests hreached
  have hname : ¬ Name.Proper (Text.trim "fast.slow") := by
    rw [← Name.valid_iff_proper]
    decide
  exact ⟨hparse, hreached, hread, hchild, (hdown " fast").2 _ hchild,
    hother _ (.child hreached hchild) (by decide), (hdown "fast.slow").1.2 (.inl hname),
    (htexts _).2 _ hparse⟩

end Path

end StepFlow

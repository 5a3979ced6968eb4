import Mathlib.Data.List.DropRight
import Mathlib.Tactic.Lemma
import StepFlow.Path
import StepFlow.Proofs.Outcome

/-!
Paths and their texts. The segments of a path are names without blanks around them and without slashes,
so a path is read back from its text (`Path.parse_text`).
-/

namespace StepFlow

/-! ### Texts -/

namespace Text

lemma splitOnChar_eq_splitOn (sep : Char) (cs : List Char) :
    splitOnChar sep cs = cs.splitOn sep := by
  induction cs with
  | nil => rfl
  | cons c cs ih =>
    rw [splitOnChar, List.splitOn_cons_eq_if_modifyHead, ih]
    by_cases hc : c = sep
    · simp [hc]
    · rw [if_neg hc, if_neg (by simpa using hc)]
      cases hcs : cs.splitOn sep with
      | nil => exact absurd hcs (List.splitOn_ne_nil sep cs)
      | cons piece pieces => rfl

lemma toList_join (sep : String) (pieces : List String) :
    (join sep pieces).toList = sep.toList.intercalate (pieces.map String.toList) := by
  induction pieces using join.induct with
  | case1 => rfl
  | case2 s => simp [join, List.intercalate]
  | case3 s t r ih =>
    rw [join, String.toList_append, String.toList_append, ih]
    simp [List.intercalate]

/-- Another piece stands behind a separator. -/
lemma join_concat (sep : String) {pieces : List String} (h : pieces ≠ []) (s : String) :
    join sep (pieces ++ [s]) = join sep pieces ++ sep ++ s := by
  induction pieces using join.induct with
  | case1 => exact absurd rfl h
  | case2 t => rfl
  | case3 t u r ih =>
    rw [List.cons_append, List.cons_append, join, join, ← List.cons_append,
      ih (List.cons_ne_nil u r)]
    simp only [String.append_assoc]

lemma trimChars_idem (cs : List Char) : trimChars (trimChars cs) = trimChars cs := by
  have htrim : ∀ l, trimChars l = (l.dropWhile isBlank).rdropWhile isBlank := fun _ => rfl
  -- what is left at the end starts with the character that was left at the start
  have hstart : (trimChars cs).dropWhile isBlank = trimChars cs := by
    rw [List.dropWhile_eq_self_iff]
    intro hpos
    have hne : trimChars cs ≠ [] := List.ne_nil_of_length_pos hpos
    rw [← List.head_eq_getElem hne]
    simp only [htrim] at hne ⊢
    rw [(List.rdropWhile_prefix isBlank _).head hne, List.head_dropWhile_not isBlank]
    exact Bool.false_ne_true
  rw [htrim (trimChars cs), hstart, htrim cs, List.rdropWhile_idempotent]

lemma trim_trim (s : String) : trim (trim s) = trim s := by
  rw [trim, trim, String.toList_ofList, trimChars_idem]

lemma trimChars_of_trim {s : String} (h : trim s = s) : trimChars s.toList = s.toList := by
  rw [← String.toList_ofList (l := trimChars s.toList), ← trim, h]

end Text

/-! ### Names -/

namespace Name

/-- What is left of a text when it is trimmed is a name just when the text is one. -/
lemma valid_trim_iff {s : String} : valid (Text.trim s) = true ↔ valid s = true := by
  rw [valid, validChars, Text.trim, String.toList_ofList, Text.trimChars_idem, valid, validChars]

section Trimmed

variable {s : String} (h : valid s = true) (htrim : Text.trim s = s)
include h htrim

lemma ne_empty : s ≠ "" := by
  rw [valid, validChars, Text.trimChars_of_trim htrim] at h
  rintro rfl
  cases h

/-- No reserved character stands in a name without blanks around it. -/
lemma not_mem_of_isReserved {c : Char} (hc : isReserved c = true) : c ∉ s.toList := by
  rw [valid, validChars, Text.trimChars_of_trim htrim] at h
  simp only [Bool.and_eq_true, Bool.not_eq_true', List.any_eq_false] at h
  exact fun hmem => h.2 c hmem hc

end Trimmed

end Name

/-! ### Paths -/

namespace Path

/-- A path as it can come about: one to ten segments, each a name without blanks around it. -/
structure Formed (p : Path) : Prop where
  valid : ∀ s ∈ p.segments, Name.valid s = true
  trimmed : ∀ s ∈ p.segments, Text.trim s = s
  some_segment : p.segments ≠ []
  depth_le : p.depth ≤ maxDepth

lemma segment_eq_ok_iff {key s : String} :
    segment key = .ok s ↔ Name.valid key = true ∧ Text.trim key = s := by
  rw [segment]
  by_cases h : Name.valid key = true
  · simp [h]
  · simp [h]

lemma ofSegments_eq_ok_iff {segments : List String} {p : Path} :
    ofSegments segments = .ok p ↔
      segments ≠ [] ∧ segments.length ≤ maxDepth ∧ p.segments = segments := by
  obtain ⟨s⟩ := p
  rw [ofSegments]
  by_cases hempty : segments = []
  · simp [hempty]
  · rw [if_neg (by simpa using hempty)]
    by_cases hdeep : segments.length > maxDepth
    · rw [if_pos hdeep]
      exact iff_of_false (fun h => nomatch h) fun h => absurd h.2.1 (Nat.not_le_of_gt hdeep)
    · rw [if_neg hdeep, Except.ok.injEq, mk.injEq, and_iff_right hempty,
        and_iff_right (Nat.le_of_not_lt hdeep), eq_comm]

lemma root_eq_ok_iff {key : String} {p : Path} :
    root key = .ok p ↔ Name.valid key = true ∧ p.segments = [Text.trim key] := by
  rw [root, bind_eq_ok_iff]
  constructor
  · rintro ⟨s, hs, h⟩
    obtain ⟨hvalid, rfl⟩ := segment_eq_ok_iff.mp hs
    exact ⟨hvalid, (ofSegments_eq_ok_iff.mp h).2.2⟩
  · rintro ⟨hvalid, hp⟩
    refine ⟨Text.trim key, segment_eq_ok_iff.mpr ⟨hvalid, rfl⟩, ofSegments_eq_ok_iff.mpr ?_⟩
    exact ⟨List.cons_ne_nil _ _, Nat.succ_le_succ (Nat.zero_le 9), hp⟩

/-- The path right below another one, or why there is none. -/
lemma child_eq (above : Path) (key : String) : above.child key =
    if Name.valid key = true then
      if 9 < above.segments.length then
        .error (.tooDeep (joined (above.segments ++ [Text.trim key])))
      else .ok ⟨above.segments ++ [Text.trim key]⟩
    else .error (.illegalName key) := by
  have hdepth : maxDepth < above.segments.length + 1 ↔ 9 < above.segments.length :=
    Nat.succ_lt_succ_iff
  unfold child segment ofSegments
  by_cases hname : Name.valid key = true
  · simp [hname, hdepth, bind, Except.bind]
  · simp [hname, bind, Except.bind]

lemma child_eq_ok_iff {above p : Path} {key : String} : above.child key = .ok p ↔
    Name.valid key = true ∧ above.depth < maxDepth ∧
      p.segments = above.segments ++ [Text.trim key] := by
  obtain ⟨segments⟩ := p
  rw [child_eq]
  by_cases hname : Name.valid key = true
  · rw [if_pos hname, and_iff_right hname]
    by_cases hdeep : 9 < above.segments.length
    · rw [if_pos hdeep]
      exact iff_of_false (fun h => nomatch h) fun h => absurd h.1 (Nat.not_lt.mpr hdeep)
    · rw [if_neg hdeep, Except.ok.injEq, mk.injEq, eq_comm]
      exact (and_iff_right (Nat.lt_succ_of_le (Nat.le_of_not_lt hdeep))).symm
  · rw [if_neg hname]
    exact iff_of_false (fun h => nomatch h) fun h => hname h.1

lemma root_formed {key : String} {p : Path} (h : root key = .ok p) : p.Formed := by
  obtain ⟨hvalid, hp⟩ := root_eq_ok_iff.mp h
  refine ⟨?_, ?_, hp ▸ List.cons_ne_nil _ _, ?_⟩
  · rw [hp, List.forall_mem_singleton]
    exact Name.valid_trim_iff.mpr hvalid
  · rw [hp, List.forall_mem_singleton]
    exact Text.trim_trim key
  · rw [depth, hp]
    exact Nat.succ_le_succ (Nat.zero_le 9)

lemma Formed.child {above p : Path} (habove : above.Formed) {key : String}
    (h : above.child key = .ok p) : p.Formed := by
  obtain ⟨hvalid, hdepth, hp⟩ := child_eq_ok_iff.mp h
  refine ⟨?_, ?_, hp ▸ List.concat_ne_nil _ _, ?_⟩
  · rw [hp, List.forall_mem_append, List.forall_mem_singleton]
    exact ⟨habove.valid, Name.valid_trim_iff.mpr hvalid⟩
  · rw [hp, List.forall_mem_append, List.forall_mem_singleton]
    exact ⟨habove.trimmed, Text.trim_trim key⟩
  · rw [depth, hp, List.length_append, List.length_singleton]
    exact hdepth

/-- The text of a path falls into its segments at the slashes. -/
lemma Formed.splitOn_text {p : Path} (h : p.Formed) :
    Text.splitOnChar '/' p.text.toList = p.segments.map String.toList := by
  rw [Text.splitOnChar_eq_splitOn, text, joined, Text.toList_join]
  apply List.splitOn_intercalate
  · rw [List.forall_mem_map]
    intro s hs
    exact Name.not_mem_of_isReserved (h.valid s hs) (h.trimmed s hs) rfl
  · simpa using h.some_segment

/-- **A path is read back** from its text. -/
theorem parse_text {p : Path} (h : p.Formed) : parse p.text = .ok p := by
  have hpieces : (Text.splitOnChar '/' p.text.toList).map (fun cs => String.ofList (Text.trimChars cs))
      = p.segments := by
    rw [h.splitOn_text, List.map_map]
    exact (List.map_congr_left h.trimmed).trans p.segments.map_id
  have hfilter : p.segments.filter (· ≠ "") = p.segments := by
    rw [List.filter_eq_self]
    intro s hs
    simpa using Name.ne_empty (h.valid s hs) (h.trimmed s hs)
  have hsegments : p.segments.mapM segment = .ok p.segments := by
    rw [mapM_eq_ok_iff, List.forall₂_same]
    intro s hs
    exact segment_eq_ok_iff.mpr ⟨h.valid s hs, h.trimmed s hs⟩
  rw [parse]
  simp only [hpieces, hfilter, hsegments]
  exact ofSegments_eq_ok_iff.mpr ⟨h.some_segment, h.depth_le, rfl⟩

end Path

end StepFlow

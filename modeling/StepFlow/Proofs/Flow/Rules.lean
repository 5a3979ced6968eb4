import Mathlib.Data.List.DropRight
import StepFlow.Proofs.Flow.Keyed

/-!
The paths of file rules. The check of a document compares paths without the blanks around them, leading
`./` and slashes at the end, and it refuses two of them when the pieces between the slashes of one are
the first pieces of the other (`overlapping_iff`). The components of a path are the pieces that are left
when those that lead nowhere are dropped, the empty ones and the dots (`components_eq`). So of two paths
without such pieces none is inside the other in a document that passes (`rules_apart`); with such pieces
it can be (`overlap_passes_workspace`).
-/

namespace StepFlow

/-! ### Splitting -/

namespace Text

variable {sep : Char} {a b : List Char}

lemma intercalate_append (sep : List Char) {xs ys : List (List Char)} (hx : xs ≠ []) (hy : ys ≠ []) :
    sep.intercalate (xs ++ ys) = sep.intercalate xs ++ sep ++ sep.intercalate ys := by
  induction xs with
  | nil => exact absurd rfl hx
  | cons x xs ih =>
    rw [List.cons_append]
    by_cases hxs : xs = []
    · rw [hxs, List.nil_append, List.intercalate_cons_of_ne_nil hy, List.intercalate_singleton]
    · rw [List.intercalate_cons_of_ne_nil (by simp [hxs]), List.intercalate_cons_of_ne_nil hxs, ih hxs]
      simp only [List.append_assoc]

lemma splitOn_append (sep : Char) (a b : List Char) :
    (a ++ sep :: b).splitOn sep = a.splitOn sep ++ b.splitOn sep :=
  List.splitOnP_append_cons a b (beq_self_eq_true sep)

/-- **A prefix of pieces** is the whole text or the text up to a separator. -/
lemma splitOn_prefix_iff : a.splitOn sep <+: b.splitOn sep ↔ a = b ∨ a ++ [sep] <+: b := by
  constructor
  · rintro ⟨rest, h⟩
    have hb : [sep].intercalate (a.splitOn sep ++ rest) = b := by
      rw [h, List.intercalate_splitOn]
    by_cases hrest : rest = []
    · rw [hrest, List.append_nil, List.intercalate_splitOn] at hb
      exact .inl hb
    · rw [intercalate_append _ (List.splitOn_ne_nil sep a) hrest, List.intercalate_splitOn] at hb
      exact .inr ⟨_, hb⟩
  · rintro (rfl | ⟨rest, rfl⟩)
    · exact List.prefix_refl _
    · rw [List.append_assoc, List.singleton_append, splitOn_append]
      exact List.prefix_append _ _

end Text

/-- Lists of which something was dropped begin alike only if the lists themselves do, as long as nothing
was dropped of the first one or of the part of the second that is as long. -/
lemma prefix_of_filter_prefix {α : Type} {keep : α → Bool} {a b : List α}
    (h : a.filter keep <+: b.filter keep)
    (hkept : ∀ x ∈ a ++ b.take a.length, keep x = true) : a <+: b := by
  rw [List.forall_mem_append] at hkept
  rw [List.filter_eq_self.mpr hkept.1] at h
  by_cases hlen : a.length ≤ b.length
  · rw [← List.take_append_drop a.length b, List.filter_append,
      List.filter_eq_self.mpr hkept.2] at h
    have htake : a <+: b.take a.length :=
      List.prefix_of_prefix_length_le h (List.prefix_append _ _) (by simp [hlen])
    exact htake.trans (List.take_prefix _ _)
  · rw [List.take_of_length_le (Nat.le_of_not_le hlen)] at hkept
    rwa [List.filter_eq_self.mpr hkept.2] at h

namespace FileRule

/-! ### Pieces and components -/

/-- A piece between two slashes that leads nowhere: nothing, or a dot. -/
def isVoid (piece : List Char) : Bool := piece = [] || piece = ['.']

/-- The components of a path: the pieces between the slashes of its text, without the blanks around it,
that lead somewhere. -/
def components (path : String) : List (List Char) :=
  ((Text.trimChars path.toList).splitOn '/').filter fun piece => !isVoid piece

/-- The pieces between the slashes of a path as it is compared. -/
def pieces (path : String) : List (List Char) := (normalPath path).splitOn '/'

lemma filter_splitOn_dropHere (cs : List Char) :
    ((dropHere cs).splitOn '/').filter (fun piece => !isVoid piece) =
      (cs.splitOn '/').filter fun piece => !isVoid piece := by
  induction cs using dropHere.induct with
  | case1 r ih =>
    have hsplit : ('.' :: '/' :: r).splitOn '/' = ['.'] :: r.splitOn '/' := by
      rw [List.splitOn_cons_eq_if_modifyHead, List.splitOn_cons_eq_if_modifyHead]
      rfl
    rw [dropHere, ih, hsplit, List.filter_cons_of_neg (by decide)]
  | case2 cs hcs => rw [dropHere]; exact hcs

lemma filter_splitOn_rdropWhile (cs : List Char) :
    ((cs.rdropWhile (· == '/')).splitOn '/').filter (fun piece => !isVoid piece) =
      (cs.splitOn '/').filter fun piece => !isVoid piece := by
  induction cs using List.reverseRecOn with
  | nil => rfl
  | append_singleton cs c ih =>
    rw [List.rdropWhile_concat]
    split
    · rename_i hc
      obtain rfl := beq_iff_eq.mp hc
      rw [ih, Text.splitOn_append, List.filter_append, List.splitOn_nil,
        List.filter_cons_of_neg (by decide), List.filter_nil, List.append_nil]
    · rfl

/-- **The components of a path** are the pieces of it that lead somewhere. -/
lemma components_eq (path : String) :
    components path = (pieces path).filter fun piece => !isVoid piece := by
  have hnormal : normalPath path =
    (dropHere (Text.trimChars path.toList)).rdropWhile (· == '/') := rfl
  rw [pieces, hnormal, filter_splitOn_rdropWhile, filter_splitOn_dropHere, components]

/-! ### Overlap -/

/-- **Two paths are refused together** when the pieces of one begin those of the other. -/
lemma overlapping_iff {a b : List Char} : overlapping a b = true ↔
    a.splitOn '/' <+: b.splitOn '/' ∨ b.splitOn '/' <+: a.splitOn '/' := by
  rw [Text.splitOn_prefix_iff, Text.splitOn_prefix_iff, overlapping, inside, inside]
  simp only [Bool.or_eq_true, decide_eq_true_eq, List.isPrefixOf_iff_prefix]
  rw [eq_comm (a := b)]
  tauto

lemma anyOverlap_eq_false_iff {paths : List (List Char)} :
    anyOverlap paths = false ↔ paths.Pairwise fun a b => overlapping a b = false := by
  induction paths with
  | nil => simp [anyOverlap]
  | cons a paths ih =>
    rw [anyOverlap, List.pairwise_cons, Bool.or_eq_false_iff, ih, List.any_eq_false]
    simp only [Bool.not_eq_true]

/-- The pieces of no path of a sound rule begin those of another one. -/
lemma Sound.not_prefix {r : FileRule} (h : r.Sound) {i j : Nat} {p q : String} (hij : i ≠ j)
    (hp : r.paths[i]? = some p) (hq : r.paths[j]? = some q) : ¬ pieces p <+: pieces q := by
  have hpairs := List.pairwise_map.mp (anyOverlap_eq_false_iff.mp h.apart)
  rw [List.pairwise_iff_getElem] at hpairs
  obtain ⟨hi, rfl⟩ := List.getElem?_eq_some_iff.mp hp
  obtain ⟨hj, rfl⟩ := List.getElem?_eq_some_iff.mp hq
  intro hprefix
  rcases Nat.lt_or_gt_of_ne hij with hlt | hlt
  · have hfalse := hpairs i j hi hj hlt
    rw [overlapping_iff.mpr (.inl hprefix)] at hfalse
    cases hfalse
  · have hfalse := hpairs j i hj hi hlt
    rw [overlapping_iff.mpr (.inr hprefix)] at hfalse
    cases hfalse

/-! ### Relative paths -/

/-- A path that passes as relative can start with a slash only behind blanks. -/
lemma head?_trim_ne {p : String} (h : isRelative p = true)
    (hstart : ∀ c ∈ p.toList.head?, Text.isBlank c = false) :
    (Text.trim p).toList.head? ≠ some '/' := by
  have hraw : p.toList.head? ≠ some '/' := by
    simp only [isRelative, Bool.and_eq_true, bne_iff_ne] at h
    exact h.2
  have hkeep : p.toList.dropWhile Text.isBlank = p.toList := by
    cases hp : p.toList with
    | nil => rfl
    | cons c cs =>
      have hc : Text.isBlank c = false := hstart c (by rw [hp]; rfl)
      rw [List.dropWhile_cons_of_neg (by simp [hc])]
  have hprefix : (Text.trim p).toList <+: p.toList := by
    rw [Text.trim, String.toList_ofList]
    conv_rhs => rw [← hkeep]
    exact List.rdropWhile_prefix Text.isBlank _
  intro htrim
  obtain ⟨rest, hrest⟩ := hprefix
  rw [← hrest, List.head?_append, htrim] at hraw
  exact hraw rfl

/-! ### Checked documents -/

lemma sound_of_check {f : Flow} (h : f.check = .ok ()) {d : Declared} (hd : d ∈ f.declared)
    {r : FileRule} (hr : r ∈ d.spec.caches ∨ r ∈ d.spec.artifacts) : r.Sound := by
  have hspec := Step.allOf_iff_declared.mp (Flow.check_eq_ok_iff.mp h).steps.allOf d hd
  rcases hr with hr | hr
  · exact hspec.caches.sound r hr
  · exact hspec.artifacts.sound r hr

/-- **The paths of a rule lie apart** in a document that passes the check, at every depth. A path that
does not start with a blank is not absolute, also when the blanks around it are taken off. The pieces
of no path begin those of another; so the components of one do not begin those of the other either, as
long as all pieces of the first, and as many of the second, lead somewhere. -/
theorem rules_apart {f : Flow} (h : f.check = .ok ()) {d : Declared} (hd : d ∈ f.declared)
    {r : FileRule} (hr : r ∈ d.spec.caches ∨ r ∈ d.spec.artifacts) :
    (∀ p ∈ r.paths, (∀ c ∈ p.toList.head?, Text.isBlank c = false) →
      (Text.trim p).toList.head? ≠ some '/') ∧
    ∀ (i j : Nat) (p q : String), i ≠ j → r.paths[i]? = some p → r.paths[j]? = some q →
      ¬ pieces p <+: pieces q ∧
      ((∀ piece ∈ pieces p ++ (pieces q).take (pieces p).length, isVoid piece = false) →
        ¬ components p <+: components q) := by
  have hsound := sound_of_check h hd hr
  refine ⟨fun p hp => head?_trim_ne (hsound.relative p hp), ?_⟩
  intro i j p q hij hp hq
  have hapart := hsound.not_prefix hij hp hq
  refine ⟨hapart, fun hkept hprefix => hapart ?_⟩
  rw [components_eq, components_eq] at hprefix
  refine prefix_of_filter_prefix hprefix ?_
  intro piece hpiece
  rw [hkept piece hpiece, Bool.not_false]

/-- A rule whose paths are written in different ways. -/
def bundle : FileRule := ⟨"bundle", ["././dist//", " target/app ", "target/apps"]⟩

/-- A flow with the rule in a nested step. -/
def packing : Flow where
  steps :=
    [("release", { steps :=
        [("pack", { spec := { bash := some "make dist", artifacts := [bundle] } })] })]

theorem rules_apart_packing : packing.check = .ok () ∧
    (∃ d ∈ packing.declared, bundle ∈ d.spec.artifacts) ∧
    (Text.trim "././dist//").toList.head? ≠ some '/' ∧
    ¬ components " target/app " <+: components "target/apps" ∧
    ¬ components "target/apps" <+: components "././dist//" := by
  have hcheck : packing.check = .ok () := by decide
  have hd : ⟨"pack", { bash := some "make dist", artifacts := [bundle] }, 0⟩ ∈ packing.declared := by
    simp [packing, Flow.declared, Step.declared]
  have hr : bundle ∈ [bundle] := List.mem_singleton_self bundle
  have hdot : ∀ c ∈ "././dist//".toList.head?, Text.isBlank c = false := by
    rintro c ⟨⟩
    decide
  obtain ⟨hstart, hapart⟩ := rules_apart hcheck hd (.inr hr)
  refine ⟨hcheck, ⟨_, hd, hr⟩, hstart _ List.mem_cons_self hdot, ?_, ?_⟩
  · exact (hapart 1 2 _ _ (by decide) rfl rfl).2 (by decide)
  · exact (hapart 2 0 _ _ (by decide) rfl rfl).2 (by decide)

/-- A flow with a rule that has a directory beside what is inside it, one that has the same path twice,
and one that has an absolute path. -/
def workspace : Flow where
  steps :=
    [("build", { spec := { bash := some "make", caches :=
        [⟨"all", ["./", "target"]⟩, ⟨"out", ["build/out", "build//out"]⟩,
          ⟨"system", [" /usr/lib"]⟩] } })]

theorem overlap_passes_workspace : workspace.check = .ok () ∧
    (∃ d ∈ workspace.declared, d.spec.caches =
      [⟨"all", ["./", "target"]⟩, ⟨"out", ["build/out", "build//out"]⟩, ⟨"system", [" /usr/lib"]⟩]) ∧
    components "./" <+: components "target" ∧
    components "build/out" = components "build//out" ∧
    (Text.trim " /usr/lib").toList.head? = some '/' := by
  refine ⟨by decide, ?_, by decide, by decide, by decide⟩
  simp [workspace, Flow.declared, Step.declared]

end FileRule

end StepFlow

import Mathlib.Data.List.Basic
import Mathlib.Tactic.IntervalCases
import StepFlow.Yaml.Value

/-!
Natural numbers in texts: the digits of a number are read as that number, and they are no word for
null.
-/

namespace StepFlow.Yaml

variable {c : Char} {n : Nat}

lemma hexValue?_of_isDigit (h : c.isDigit = true) :
    hexValue? c = some (c.toNat - 48) ∧ c.toNat - 48 < 10 := by
  refine ⟨if_pos h, ?_⟩
  simp only [Char.isDigit, Bool.and_eq_true, decide_eq_true_eq, UInt32.le_iff_toNat_le] at h
  have hmost : c.toNat ≤ 57 := h.2
  omega

/-- Decimal digits write the number that they make. -/
lemma digits?_of_digits {cs : List Char} (hne : cs ≠ []) (h : ∀ c ∈ cs, c.isDigit = true) :
    digits? 10 cs = some (Nat.ofDigitChars 10 cs 0) := by
  have hfold : ∀ acc, cs.foldl (fun acc c => do
      let d ← hexValue? c
      if d < 10 then return (← acc) * 10 + d else none) (some acc) =
        some (Nat.ofDigitChars 10 cs acc) := by
    clear hne
    induction cs with
    | nil => exact fun acc => rfl
    | cons c cs ih =>
      rw [List.forall_mem_cons] at h
      obtain ⟨hvalue, hlt⟩ := hexValue?_of_isDigit h.1
      intro acc
      rw [List.foldl_cons, Nat.ofDigitChars_cons, ← ih h.2]
      simp [hvalue, hlt, Nat.mul_comm]
  rw [digits?, if_neg (by simpa using hne)]
  exact hfold 0

lemma digits?_toDigits (n : Nat) : digits? 10 (Nat.toDigits 10 n) = some n := by
  rw [digits?_of_digits Nat.toDigits_ne_nil
    fun c => Nat.isDigit_of_mem_toDigits (by decide) (by decide), Nat.ofDigitChars_ten_toDigits]

/-- The digits other than zero. -/
def leading : List Char := ['1', '2', '3', '4', '5', '6', '7', '8', '9']

/-- The digits of a number that is not zero do not start with zero. -/
lemma toDigits_head (hn : n ≠ 0) : ∃ c r, Nat.toDigits 10 n = c :: r ∧ c ∈ leading := by
  induction n using Nat.strongRecOn with
  | ind n ih =>
    rw [Nat.toDigits_eq_if (by decide)]
    split
    case isTrue hlt =>
      refine ⟨n.digitChar, [], rfl, ?_⟩
      interval_cases n
      · exact absurd rfl hn
      all_goals decide
    case isFalse hle =>
      obtain ⟨c, r, hr, hc⟩ := ih (n / 10) (by omega) (by omega)
      exact ⟨c, r ++ [(n % 10).digitChar], by rw [hr, List.cons_append], hc⟩

/-- A text that starts with a digit other than zero has no sign, no base mark and no padding. -/
lemma unsigned?_of_leading (hc : c ∈ leading) (r : List Char) :
    unsigned? (c :: r) = digits? 10 (c :: r) := by
  have hplain : unsigned? (c :: r) =
        (if isZeroPadded (c :: r) then none else digits? 10 (c :: r)) ∧
      isZeroPadded (c :: r) =
        ((c :: r).length > 1 && some c == some '0' && (c :: r).all Char.isDigit) := by
    simp only [leading, List.mem_cons, List.not_mem_nil, or_false] at hc
    rcases hc with rfl | rfl | rfl | rfl | rfl | rfl | rfl | rfl | rfl <;> exact ⟨rfl, rfl⟩
  have hzero : c ≠ '0' := by
    rintro rfl
    exact absurd hc (by decide)
  rw [hplain.1, hplain.2]
  simp [hzero]

/-- **A number that is written out** is read as itself. -/
theorem unsigned?_toString (n : Nat) : unsigned? (toString n).toList = some n := by
  rw [Nat.toString_eq_repr, Nat.toList_repr]
  rcases eq_or_ne n 0 with rfl | hn
  · rfl
  · obtain ⟨c, r, hr, hc⟩ := toDigits_head hn
    rw [hr, unsigned?_of_leading hc, ← hr, digits?_toDigits]

/-- A number that is written out is no word for null. -/
lemma toString_ne_null (n : Int) : ((toString n).isEmpty || isNullWord (toString n)) = false := by
  have hrepr : ∀ m : Nat, ∀ c ∈ m.repr.toList, c.isDigit = true := by
    intro m
    rw [Nat.toList_repr]
    exact fun c => Nat.isDigit_of_mem_toDigits (by decide) (by decide)
  have hchars : ∀ c ∈ (toString n).toList, c.isDigit = true ∨ c = '-' := by
    cases n with
    | ofNat m => exact fun c hc => .inl (hrepr m c hc)
    | negSucc m =>
      intro c hc
      change c ∈ ("-" ++ (m + 1).repr).toList at hc
      rw [String.toList_append, List.mem_append] at hc
      exact hc.symm.imp (hrepr _ c) List.mem_singleton.1
  have hne : toString n ≠ "" := by
    cases n with
    | ofNat m => exact Nat.repr_ne_empty
    | negSucc m =>
      show "-" ++ (m + 1).repr ≠ ""
      simp
  have hword : ∀ word : String, (∃ c ∈ word.toList, ¬ (c.isDigit = true ∨ c = '-')) →
      toString n ≠ word := by
    rintro word ⟨c, hc, hother⟩ rfl
    exact hother (hchars c hc)
  generalize toString n = s at hne hword
  simp [isNullWord, hne, hword "~" ⟨'~', by decide⟩, hword "null" ⟨'n', by decide⟩,
    hword "Null" ⟨'N', by decide⟩, hword "NULL" ⟨'N', by decide⟩]

end StepFlow.Yaml

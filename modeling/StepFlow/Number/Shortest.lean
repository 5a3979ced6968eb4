import StepFlow.Number.Binary64

/-!
The shortest decimal that reads back as a given floating-point number, and its text. Of all the
decimals that round to the number the one with the fewest digits is taken, and of several with
that many digits the nearest.
-/

namespace StepFlow.Number

namespace Shortest

/-- The greatest `e` with `10 ^ e ≤ a / b`, searched from `-n` upwards in the fractions. -/
private def negativeLog10 (a b : Nat) : Nat → Int
  | 0 => 0
  | n + 1 => if b ≤ a then 0 else negativeLog10 (a * 10) b n - 1

/-- The greatest `e` with `10 ^ e ≤ a / b`, for a fraction that is not below `10 ^ -400`. -/
def log10 (a b : Nat) : Int :=
  if b ≤ a then ((Nat.toDigits 10 (a / b)).length : Int) - 1 else negativeLog10 a b 400

/-- The fraction `a / b` counted in steps of `10 ^ k`. -/
private def inSteps (a b : Nat) (k : Int) : Nat × Nat :=
  if k < 0 then (a * Nat.pow 10 k.natAbs, b) else (a, b * Nat.pow 10 k.natAbs)

/-- A finite number with the interval that rounds to it: numerators of its value and of the two
ends over one denominator, and whether the ends belong to it. -/
structure Interval where
  low : Nat
  value : Nat
  high : Nat
  denominator : Nat
  closed : Bool

/-- The interval of `m * 2 ^ q`. It reaches half a step to either side, and only a quarter below a
power of two, where the steps become finer. -/
def interval (m : Nat) (q : Int) : Interval :=
  let below := if m = Nat.pow 2 52 && q > Binary64.minExponent then 1 else 2
  let scale := Nat.pow 2 (q - 2).natAbs
  if q < 2 then ⟨4 * m - below, 4 * m, 4 * m + 2, scale, m % 2 = 0⟩
  else ⟨(4 * m - below) * scale, 4 * m * scale, (4 * m + 2) * scale, 1, m % 2 = 0⟩

/-- `n` steps of `10 ^ k` are inside the interval. -/
private def inside (i : Interval) (n : Nat) (k : Int) : Bool :=
  let (lo, d) := inSteps i.low i.denominator k
  let (hi, _) := inSteps i.high i.denominator k
  if i.closed then lo ≤ n * d && n * d ≤ hi else lo < n * d && n * d < hi

/-- The decimal nearest to the value among those of the grid `10 ^ k` that are in the interval. -/
private def onGrid (i : Interval) (k : Int) : Option Nat :=
  let (v, d) := inSteps i.value i.denominator k
  let a := v / d
  match inside i a k, inside i (a + 1) k with
  | false, false => none
  | true, false => some a
  | false, true => some (a + 1)
  | true, true => some (roundDiv v d)

/-- Tries the grids from a coarse one to finer ones. -/
private def search (i : Interval) (e : Int) : Nat → Nat × Int
  | 0 => (i.value / i.denominator, 0)
  | n + 1 =>
    let k := e - (16 - (n : Int))
    match onGrid i k with
    | some d => (d, k)
    | none => search i e n

/-- Takes the zeros off the end of the digits. -/
private def strip (k : Int) : Nat → Nat → Nat × Int
  | 0, d => (d, k)
  | n + 1, d => if d % 10 = 0 && d ≠ 0 then strip (k + 1) n (d / 10) else (d, k)

/-- The digits and the power of ten of the shortest decimal for `m * 2 ^ q`, with `m` not zero. -/
def decimal (m : Nat) (q : Int) : Nat × Int :=
  let i := interval m q
  let (d, k) := search i (log10 i.value i.denominator) 17
  strip k 20 d

/-- How a decimal is written: with a point between these positions of the first digit, else with a
power of ten. -/
structure Layout where
  /-- Written with a point if the point comes at most this many digits before the first one. -/
  zerosAfterPoint : Nat
  /-- Written with a point if it is at most this far behind the first digit. -/
  wholeDigits : Nat
  notANumber : String
  infinite : String

private def zeros (n : Nat) : String := String.ofList (List.replicate n '0')

/-- The text of `d * 10 ^ k`. With a point there is a digit on either side of it; a power of ten
has no sign if it is positive and leaves out the point after a single digit. -/
def Layout.text (l : Layout) (d : Nat) (k : Int) : String :=
  let digits := Nat.toDigits 10 d
  let length := digits.length
  let point : Int := length + k
  if 0 ≤ k && point ≤ l.wholeDigits then
    String.ofList digits ++ zeros k.natAbs ++ ".0"
  else if 0 < point && point ≤ l.wholeDigits then
    String.ofList (digits.take point.natAbs) ++ "." ++ String.ofList (digits.drop point.natAbs)
  else if point ≤ 0 && point.natAbs ≤ l.zerosAfterPoint then
    "0." ++ zeros point.natAbs ++ String.ofList digits
  else
    let fraction := if length = 1 then "" else "." ++ String.ofList (digits.drop 1)
    String.ofList (digits.take 1) ++ fraction ++ "e" ++ toString (point - 1)

/-- The text of a floating-point number. -/
def Layout.format (l : Layout) : Binary64 → String
  | .nan => l.notANumber
  | .infinite negative => if negative then "-" ++ l.infinite else l.infinite
  | .finite negative m q =>
    let sign := if negative then "-" else ""
    if m = 0 then sign ++ "0.0"
    else
      let (d, k) := decimal m q
      sign ++ l.text d k

end Shortest

end StepFlow.Number

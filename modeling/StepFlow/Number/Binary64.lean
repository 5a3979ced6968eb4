/-!
Binary floating-point numbers with 53 bits of precision, as whole numbers times powers of two, and
the nearest such number to a decimal. All of it is exact arithmetic on natural numbers.
-/

namespace StepFlow.Number

/-- A floating-point number. A finite one is `m * 2 ^ q` with a sign, where `m < 2 ^ 53` and
`-1074 ≤ q`, and `q` is as small as that allows. -/
inductive Binary64 where
  | nan
  | infinite (negative : Bool)
  | finite (negative : Bool) (m : Nat) (q : Int)
  deriving DecidableEq, Repr

/-- The whole number nearest to `a / b`; of two that are equally near, the even one. -/
def roundDiv (a b : Nat) : Nat :=
  let d := a / b
  let r := a % b
  if 2 * r < b then d else if b < 2 * r then d + 1 else if d % 2 = 0 then d else d + 1

/-- The fraction `a / b` times the power of two with exponent `-q`. -/
def scaleByPow2 (a b : Nat) (q : Int) : Nat × Nat :=
  if q < 0 then (a * Nat.pow 2 q.natAbs, b) else (a, b * Nat.pow 2 q.natAbs)

namespace Binary64

/-- The smallest exponent. -/
def minExponent : Int := -1074

/-- The exponent for `a / b`, which is not zero: the smallest that leaves at most 53 bits before
the point. -/
def exponentFor (a b : Nat) : Int :=
  let guess : Int := (Nat.log2 a : Int) - (Nat.log2 b : Int) - 53
  let fits (q : Int) : Bool :=
    let (x, y) := scaleByPow2 a b q
    x < y * Nat.pow 2 53
  let q := if fits guess then guess else if fits (guess + 1) then guess + 1 else guess + 2
  max q minExponent

/-- The number nearest to `a / b`, or an infinity if there is none in the range. -/
def ofFraction (negative : Bool) (a b : Nat) : Binary64 :=
  if a = 0 then .finite negative 0 minExponent
  else
    let q := exponentFor a b
    let (x, y) := scaleByPow2 a b q
    let m := roundDiv x y
    let (m, q) := if m = Nat.pow 2 53 then (Nat.pow 2 52, q + 1) else (m, q)
    if q > 971 then .infinite negative else .finite negative m q

/-- The number nearest to `digits * 10 ^ e`. Decimals far out of the range are decided by their
length. -/
def ofDecimal (negative : Bool) (digits : Nat) (e : Int) : Binary64 :=
  let length : Int := (Nat.toDigits 10 digits).length
  if digits = 0 || length + e < -400 then .finite negative 0 minExponent
  else if length + e > 400 then .infinite negative
  else if e < 0 then ofFraction negative digits (Nat.pow 10 e.natAbs)
  else ofFraction negative (digits * Nat.pow 10 e.natAbs) 1

/-- Equality as numbers: the two zeros are equal, and so are all that are no numbers. -/
def same : Binary64 → Binary64 → Bool
  | .finite a m q, .finite b n r => (m = 0 && n = 0) || (a = b && m = n && q = r)
  | x, y => x = y

end Binary64

end StepFlow.Number

import StepFlow.Number.Shortest
import StepFlow.Yaml.Fault
import StepFlow.Yaml.Node

/-!
What the text of a scalar means: null, a truth value, a number or just a text. A value that may be
anything is read by these rules, and the text of a scalar value is written back in one form per
kind.
-/

namespace StepFlow.Yaml

open StepFlow.Number

/-! ### Numbers in texts -/

/-- The number that digits of a base write; there must be at least one. -/
def digits? (base : Nat) (cs : List Char) : Option Nat :=
  let step (acc : Option Nat) (c : Char) : Option Nat := do
    let d ← hexValue? c
    if d < base then return (← acc) * base + d else none
  if cs.isEmpty then none else cs.foldl step (some 0)

private def isSign (c : Char) : Bool := c == '+' || c == '-'

private def startsWithSign (cs : List Char) : Bool := cs.head?.any isSign

private def dropPlus : List Char → List Char
  | '+' :: r => r
  | cs => cs

/-- A leading zero before more digits: such a text is no number. -/
def isZeroPadded (cs : List Char) : Bool :=
  let cs := match cs with
    | c :: r => if isSign c then r else cs
    | [] => []
  cs.length > 1 && cs.head? == some '0' && cs.all Char.isDigit

/-- Digits with one of the base marks `0x`, `0o` and `0b`, behind the mark. -/
private def based? : List Char → Option (Nat × List Char)
  | '0' :: 'x' :: r => some (16, r)
  | '0' :: 'o' :: r => some (8, r)
  | '0' :: 'b' :: r => some (2, r)
  | _ => none

/-- An unsigned whole number: decimal without padding, or with a base mark; a plus sign may stand
in front. -/
def unsigned? (cs : List Char) : Option Nat :=
  let body := dropPlus cs
  match based? body with
  | some (base, r) =>
    if startsWithSign r then none
    else digits? base r
  | none =>
    if startsWithSign body || isZeroPadded cs then none else digits? 10 body

/-- A whole number with a minus sign. -/
def negative? (cs : List Char) : Option Nat :=
  match cs with
  | '-' :: body =>
    match based? body with
    | some (base, r) => digits? base r
    | none => if isZeroPadded cs then none else digits? 10 body
  | _ => none

/-- The power of ten behind an `e`: a number with an optional sign. -/
private def exponent? : List Char → Option Int
  | [] => some 0
  | c :: r =>
    if c == 'e' || c == 'E' then
      match r with
      | '+' :: d => (digits? 10 d).map Int.ofNat
      | '-' :: d => (digits? 10 d).map fun n => -(Int.ofNat n)
      | d => (digits? 10 d).map Int.ofNat
    else none

/-- A decimal: digits with a point among or beside them, and a power of ten. -/
private def decimal? (negative : Bool) (cs : List Char) : Option Binary64 :=
  let whole := cs.takeWhile Char.isDigit
  let rest := cs.drop whole.length
  let (fraction, rest) := match rest with
    | '.' :: r => (r.takeWhile Char.isDigit, r.dropWhile Char.isDigit)
    | r => ([], r)
  let all := whole ++ fraction
  match digits? 10 all, exponent? rest with
  | some d, some e => some (.ofDecimal negative d (e - fraction.length))
  | _, _ => none

/-- A floating-point number: an infinity, the value that is no number, or a finite decimal. -/
def float? (cs : List Char) : Option Binary64 :=
  let body := dropPlus cs
  if cs.head? == some '+' && startsWithSign body then none
  else if body ∈ [".inf".toList, ".Inf".toList, ".INF".toList] then some (.infinite false)
  else if cs ∈ ["-.inf".toList, "-.Inf".toList, "-.INF".toList] then some (.infinite true)
  else if cs ∈ [".nan".toList, ".NaN".toList, ".NAN".toList] then some .nan
  else
    let value := match body with
      | '-' :: r => decimal? true r
      | r => decimal? false r
    match value with
    | some (.finite s m q) => some (.finite s m q)
    | _ => none

/-! ### Values -/

/-- The texts that mean nothing, besides the empty one. -/
def isNullWord (s : String) : Bool := s = "~" || s = "null" || s = "Null" || s = "NULL"

/-- The texts that mean a truth value. -/
def truth? (s : String) : Option Bool :=
  if s = "true" || s = "True" || s = "TRUE" then some true
  else if s = "false" || s = "False" || s = "FALSE" then some false
  else none

/-- A value of any kind. Mappings keep the order of their entries. -/
inductive Value where
  | null
  | bool (b : Bool)
  | int (n : Int)
  | float (x : Binary64)
  | text (s : String)
  | seq (items : List Value)
  | map (entries : List (Value × Value))
  | tagged (tag : String) (v : Value)

namespace Value

/-- A whole number that is written in a text. One that needs more than 64 bits, but no more than
128, is no value; a larger one is read as a floating-point number. -/
def whole? (cs : List Char) : Option (Except Fault Value) :=
  match unsigned? cs, negative? cs with
  | some n, _ =>
    if n < Nat.pow 2 64 then some (.ok (.int n))
    else if n < Nat.pow 2 128 then some (.error .unfit)
    else none
  | none, some n =>
    if n ≤ Nat.pow 2 63 then some (.ok (.int (-(n : Int))))
    else if n ≤ Nat.pow 2 127 then some (.error .unfit)
    else none
  | none, none => none

/-- The value of a plain scalar without a tag. -/
def ofPlain (s : String) : Except Fault Value :=
  if s.isEmpty || isNullWord s then .ok .null
  else
    match truth? s with
    | some b => .ok (.bool b)
    | none =>
      let cs := s.toList
      match whole? cs with
      | some v => v
      | none =>
        match if isZeroPadded cs then none else float? cs with
        | some x => .ok (.float x)
        | none => .ok (.text s)

/-- The tags of the core schema. -/
def coreTag (name : String) : String := "tag:yaml.org,2002:" ++ name

/-- The value of a scalar. A core tag forces the kind; any other tag that is not local makes it a
text. -/
def ofScalar (tag : Option String) (s : String) (style : Style) : Except Fault Value :=
  match tag with
  | none => if style = .plain then ofPlain s else .ok (.text s)
  | some tag =>
    if tag = coreTag "bool" then
      match truth? s with
      | some b => .ok (.bool b)
      | none => .error .unfit
    else if tag = coreTag "int" then (whole? s.toList).getD (.error .unfit)
    else if tag = coreTag "float" then
      match float? s.toList with
      | some x => .ok (.float x)
      | none => .error .unfit
    else if tag = coreTag "null" then if isNullWord s then .ok .null else .error .unfit
    else .ok (.text s)

/-- How floating-point values are written: with a point from five places behind it to sixteen
before it. -/
def floatLayout : Shortest.Layout :=
  { zerosAfterPoint := 4, wholeDigits := 16, notANumber := ".nan", infinite := ".inf" }

/-- The text of a value that is a scalar. -/
def scalarText? : Value → Option String
  | .null => some ""
  | .bool b => some (if b then "true" else "false")
  | .int n => some (toString n)
  | .float x => some (floatLayout.format x)
  | .text s => some s
  | .seq _ | .map _ | .tagged _ _ => none

/-- How deep the collections and tags of a value are nested. -/
def height : Value → Nat
  | .seq items => 1 + heights items
  | .map entries => 1 + entryHeights entries
  | .tagged _ v => 1 + v.height
  | _ => 0
where
  heights : List Value → Nat
  | [] => 0
  | v :: r => max v.height (heights r)
  entryHeights : List (Value × Value) → Nat
  | [] => 0
  | (k, v) :: r => max (max k.height v.height) (entryHeights r)

/-- Equality of values that are nested less than `n` deep. -/
private def sameWithin : Nat → Value → Value → Bool
  | 0, _, _ => false
  | _ + 1, .null, .null => true
  | _ + 1, .bool a, .bool b => a = b
  | _ + 1, .int a, .int b => a = b
  | _ + 1, .float a, .float b => a.same b
  | _ + 1, .text a, .text b => a = b
  | n + 1, .seq xs, .seq ys =>
    xs.length = ys.length && (xs.zip ys).all fun (x, y) => sameWithin n x y
  | n + 1, .map xs, .map ys =>
    xs.length = ys.length && xs.all fun (k, v) =>
      match ys.find? fun (k', _) => sameWithin n k k' with
      | some (_, v') => sameWithin n v v'
      | none => false
  | n + 1, .tagged s v, .tagged t w => s = t && sameWithin n v w
  | _ + 1, _, _ => false

/-- Equality of values: numbers are compared as numbers, and the order of entries does not
matter. -/
def same (v w : Value) : Bool := sameWithin (v.height + 1) v w

end Value

end StepFlow.Yaml

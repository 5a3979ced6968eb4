import StepFlow.Job

/-!
Points in time as texts: date and time of day in UTC, with the milliseconds if there are any.
-/

namespace StepFlow.Timestamp

/-- A date of the Gregorian calendar. -/
structure Date where
  year : Int
  month : Nat
  day : Nat
  deriving DecidableEq, Repr

/-- The date of a day, which is counted from the first of January 1970. Years are taken to begin in
March, so that a leap day ends one, and four hundred of them make an era of equal length. -/
def Date.ofDay (day : Int) : Date :=
  let shifted := day + 719468
  let era := shifted.fdiv 146097
  let ofEra := (shifted - era * 146097).toNat
  let year := (ofEra - ofEra / 1460 + ofEra / 36524 - ofEra / 146096) / 365
  let ofYear := ofEra - (365 * year + year / 4 - year / 100)
  let month := (5 * ofYear + 2) / 153
  let monthOfYear := if month < 10 then month + 3 else month - 9
  { year := era * 400 + year + (if monthOfYear ≤ 2 then 1 else 0)
    month := monthOfYear
    day := ofYear - (153 * month + 2) / 5 + 1 }

/-- A number with zeros before it up to a width. -/
def padded (width n : Nat) : String :=
  let digits := toString n
  String.ofList (List.replicate (width - digits.length) '0') ++ digits

/-- The text of a point in time. -/
def text (t : Time) : String :=
  let day := t.fdiv 86400000
  let ofDay := (t - day * 86400000).toNat
  let date := Date.ofDay day
  let seconds := ofDay / 1000
  let millis := ofDay % 1000
  let fraction := if millis = 0 then "" else "." ++ padded 3 millis
  padded 4 date.year.toNat ++ "-" ++ padded 2 date.month ++ "-" ++ padded 2 date.day ++ "T" ++
    padded 2 (seconds / 3600) ++ ":" ++ padded 2 (seconds / 60 % 60) ++ ":" ++
    padded 2 (seconds % 60) ++ fraction ++ "Z"

end StepFlow.Timestamp

/-
# Duration -- how long a project took

The estimate is the distance between the earliest and the latest modification among the files.  Durations are told in
days, hours, minutes and seconds, and read back from the clock and unit notations of stored records.
-/
import Folio.Value.Order

namespace Folio

namespace Span

/-- The whole seconds of the size of a span, which is taken in seconds as a double. -/
def wholeSeconds (s : Span) : Nat :=
  let (mantissa, exponent) := Decimal.nearest s.micros.natAbs 1000000
  let (n, d) := Decimal.scaledFraction mantissa exponent 0
  n / d

def amount (n : Nat) (unit : String) : String :=
  toString n ++ " " ++ unit ++ (if n != 1 then "s" else "")

/-- The amounts of whole seconds that are not zero, in falling units. -/
def amounts (seconds : Nat) : List (Nat × String) :=
  [(seconds / 86400, "day"), (seconds % 86400 / 3600, "hour"), (seconds % 3600 / 60, "minute"),
    (seconds % 60, "second")].filter fun a => a.1 != 0

def describeSeconds (seconds : Nat) : String :=
  let parts := amounts seconds
  Text.join ", " ((if parts.isEmpty then [(0, "second")] else parts).map fun a => amount a.1 a.2)

def described (s : Span) : String :=
  if s.micros == 0 then "0 seconds"
  else if 0 < s.micros && s.wholeSeconds == 0 then "less than 1 second"
  else (if s.micros < 0 then "-" else "") ++ describeSeconds s.wholeSeconds

/-! ## Reading stored durations -/

def secondNanos : Nat := 1000000000

def unitNanos? (unit : String) : Option Nat :=
  let u := if unit == "D" || unit == "H" || unit == "S" || unit == "T" || unit == "W"
    || unit == "L" || unit == "U" || unit == "N" then unit else Text.lower unit
  if ["w", "W"].contains u then some (7 * 86400 * secondNanos)
  else if ["d", "D", "day", "days"].contains u then some (86400 * secondNanos)
  else if ["h", "H", "hr", "hour", "hours"].contains u then some (3600 * secondNanos)
  else if ["m", "T", "t", "min", "minute", "minutes"].contains u then some (60 * secondNanos)
  else if ["s", "S", "sec", "second", "seconds"].contains u then some secondNanos
  else if ["ms", "L", "l", "milli", "millis", "millisecond", "milliseconds"].contains u then
    some 1000000
  else if ["us", "U", "u", "µs", "micro", "micros", "microsecond", "microseconds"].contains u then
    some 1000
  else if ["ns", "N", "n", "nano", "nanos", "nanosecond", "nanoseconds"].contains u then some 1
  else none

structure Reading where
  negative : Bool := false
  dotted : Bool := false
  valued : Bool := false
  clocked : Bool := false
  colons : Nat := 0
  nanos : Int := 0
  number : List Char := []
  fraction : List Char := []
  unit : List Char := []

namespace Reading

variable (r : Reading)

def digitsOf (ds : List Char) : Nat :=
  ds.reverse.foldl (fun n c => n * 10 + (c.toNat - 48)) 0

def plus (n : Nat) : Reading :=
  { r with nanos := r.nanos + (if r.negative then -(n : Int) else n) }

def closeUnit? : Option Reading := do
  let name := String.ofList r.unit.reverse
  let size ← if ["M", "Y", "y"].contains name then none else unitNanos? name
  let n := digitsOf r.number * size
    + digitsOf r.fraction * size / Nat.pow 10 r.fraction.length
  some { r.plus n with number := [], fraction := [], unit := [] }

def clockNanos (colons : Nat) : Nat :=
  match colons with
  | 0 => 3600 * secondNanos
  | 1 => 60 * secondNanos
  | _ => secondNanos

def step? (c : Char) : Option Reading :=
  if c == ' ' || c == ',' || c == '+' then some r
  else if c == '-' then
    if r.negative || r.valued || r.clocked then none else some { r with negative := true }
  else if c.isDigit then
    if r.dotted then
      if r.unit.isEmpty then some { r with fraction := c :: r.fraction }
      else some { r with number := c :: r.number, dotted := false }
    else if r.unit.isEmpty then some { r with number := c :: r.number }
    else (closeUnit? r).map fun r => { r with number := [c] }
  else if c == ':' then
    let r := if r.valued then { r with negative := false } else r
    if r.number.isEmpty then none
    else
      some { r.plus (digitsOf r.number * clockNanos r.colons) with
        colons := r.colons + 1, clocked := true, number := [], unit := [] }
  else if c == '.' then
    if !r.number.isEmpty && r.colons > 0 then
      some { r.plus (digitsOf r.number * clockNanos r.colons) with
        dotted := true, valued := true, number := [], fraction := [], unit := [] }
    else some { r with dotted := true }
  else some { r with unit := c :: r.unit, valued := true, dotted := false }

def finish? : Option Int :=
  if r.dotted && !r.unit.isEmpty then (closeUnit? r).map (·.nanos)
  else if r.dotted then
    if r.colons == 0 then none
    else
      let ds := (r.fraction.reverse.take 9).reverse
      if ds.isEmpty then none
      else some (r.plus (digitsOf ds * Nat.pow 10 (9 - ds.length))).nanos
  else if r.colons > 0 then
    if r.colons != 2 || r.number.isEmpty then none
    else some (r.plus (digitsOf r.number * secondNanos)).nanos
  else if !r.unit.isEmpty then
    if r.number.isEmpty then none else (closeUnit? r).map (·.nanos)
  else if r.number.isEmpty || r.valued then none
  else some (r.plus (digitsOf r.number)).nanos

end Reading

/-- Read a duration: clock notation, amounts with units, or both; a bare number counts
nanoseconds. -/
def ofText? (s : String) : Option Span :=
  ((s.toList.foldl (fun r c => r.bind (Reading.step? · c)) (some ({} : Reading))).bind
    Reading.finish?).map fun nanos => ⟨nanos.fdiv 1000⟩

def absent : Fault := .met .missingAttribute "there is no duration"

def absentTexts : List String := ["", "NaT", "nat", "NAT", "nan", "NaN", "NAN"]

def ofText (s : String) : Except Fault Span :=
  if absentTexts.contains s then .error absent
  else
    match ofText? s with
    | some d => .ok d
    | none => .error (.met .badValue "unit abbreviation w/o a number")

end Span

namespace Moment

/-- Date and clock as stored records show them; years are not padded. -/
def recordText (t : Moment) : String :=
  let d := t.date
  toString d.year ++ "-" ++ zeroPadded 2 d.month ++ "-" ++ zeroPadded 2 d.day ++ " " ++ t.clockText

end Moment

namespace Value

mutual

def withTextTimes : Value → Value
  | .moment t => .text t.recordText
  | .span d => .text d.text
  | .list xs => .list (withTextTimesItems xs)
  | .object fs => .object (withTextTimesFields fs)
  | v => v

def withTextTimesItems : List Value → List Value
  | [] => []
  | x :: xs => withTextTimes x :: withTextTimesItems xs

def withTextTimesFields : List (String × Value) → List (String × Value)
  | [] => []
  | (k, v) :: fs => (k, withTextTimes v) :: withTextTimesFields fs

end

end Value

namespace Duration

/-! ## The estimate -/

mutual

def marks : Value → Except Fault (List Value)
  | .object fs => marksOfFields fs
  | v => (v.field "children").map fun _ => []

def marksOfFields : List (String × Value) → Except Fault (List Value)
  | [] => .error (.met .missingKey "'children'")
  | (k, v) :: fs => if k == "children" then marksOfChildren v else marksOfFields fs

def marksOfChildren : Value → Except Fault (List Value)
  | .list xs => marksOfItems xs
  | v => do
    match (← v.elements) with
    | [] => .ok []
    | x :: _ => (x.field "type").map fun _ => []

def marksOfItems : List Value → Except Fault (List Value)
  | [] => .ok []
  | x :: xs => do
    let kind ← x.field "type"
    let own ←
      if kind.same "DIR" then marks x
      else do
        let mark ← x.fieldD "modified" .null
        pure (if mark.truthy then [mark] else [])
    .ok (own ++ (← marksOfItems xs))

end

/-- The first element that no other one precedes, by a given order. -/
def firstBy (less : Value → Value → Except Fault Bool) (best : Value) : List Value → Except Fault Value
  | [] => .ok best
  | x :: xs => do firstBy less (if ← less x best then x else best) xs

structure Estimate where
  start : Value
  stop : Value
  delta : Span

def distance (start stop : Value) : Except Fault Span :=
  match start, stop with
  | .moment s, .moment t => .ok ⟨t.instant - s.instant⟩
  | .span s, .span t => .ok ⟨t.micros - s.micros⟩
  | a, b =>
    if a.number?.isSome && b.number?.isSome then .error (.noAttribute b.kindName "total_seconds")
    else .error (.wrongType "unsupported operand type(s) for -")

def ends (hierarchy : Value) : Except Fault (Value × Value) := do
  match ← marks hierarchy with
  | [] => .error (.say .general "No files with valid timestamps. Estimate cannot be made.")
  | m :: ms => do
    let start ← firstBy Value.before m ms
    let stop ← firstBy (fun a b => Value.before b a) m ms
    pure (start, stop)

def estimate (hierarchy : Value) : Except Fault Estimate := do
  let (start, stop) ← ends hierarchy
  pure ⟨start, stop, ← distance start stop⟩

end Duration

end Folio

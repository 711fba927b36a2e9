/-
# Calendar -- moments and spans

A `Span` is a signed number of microseconds.  A `Moment` is a reading of a wall clock, in microseconds from the first of
January of year 1, with the offset of its zone when one is known.

The plain form writes year, month and day with dashes, and after blanks hour, minute and second with colons.  Leading
zeros may be left out except in the year.
-/
import Folio.Pattern
import Folio.Text.Numeral

namespace Folio

structure Span where
  micros : Int
  deriving Repr, DecidableEq

/-- A reading of a wall clock; `offset` is the zone's distance from universal time. -/
structure Moment where
  ticks : Int
  offset : Option Int
  deriving Repr, DecidableEq, Inhabited

structure Date where
  year : Nat
  month : Nat
  day : Nat
  deriving Repr, DecidableEq

namespace Calendar

def microsPerSecond : Int := 1000000
def microsPerDay : Int := 86400 * 1000000

def isLeap (year : Nat) : Bool :=
  year % 4 == 0 && (year % 100 != 0 || year % 400 == 0)

def daysInMonth (year month : Nat) : Nat :=
  match month with
  | 2 => if isLeap year then 29 else 28
  | 4 | 6 | 9 | 11 => 30
  | _ => 31

def daysBeforeYear (year : Nat) : Nat :=
  let y := year - 1
  y * 365 + y / 4 - y / 100 + y / 400

def daysBeforeMonth (year month : Nat) : Nat :=
  ((List.range (month - 1)).map fun m => daysInMonth year (m + 1)).foldl (· + ·) 0

def dayNumber (d : Date) : Nat :=
  daysBeforeYear d.year + daysBeforeMonth d.year d.month + (d.day - 1)

def monthAndDay (year : Nat) : (month fuel n : Nat) → Nat × Nat
  | month, 0, n => (month, n + 1)
  | month, fuel + 1, n =>
    let size := daysInMonth year month
    if n < size then (month, n + 1) else monthAndDay year (month + 1) fuel (n - size)

def dateOf (n : Nat) : Date :=
  let era := n / 146097
  let inEra := n % 146097
  let century := Nat.min (inEra / 36524) 3
  let inCentury := inEra - century * 36524
  let quad := inCentury / 1461
  let inQuad := inCentury % 1461
  let single := Nat.min (inQuad / 365) 3
  let inYear := inQuad - single * 365
  let year := era * 400 + century * 100 + quad * 4 + single + 1
  let (month, day) := monthAndDay year 1 11 inYear
  ⟨year, month, day⟩

def isDate (year month day : Nat) : Bool :=
  1 ≤ year && year ≤ 9999 && 1 ≤ month && month ≤ 12 && 1 ≤ day && day ≤ daysInMonth year month

def weekday (n : Nat) : Nat := n % 7

end Calendar

open Text (padStart)

def zeroPadded (width : Nat) (n : Nat) : String := padStart width '0' (toString n)

namespace Span

def of (days seconds micros : Int) : Span :=
  ⟨days * Calendar.microsPerDay + seconds * Calendar.microsPerSecond + micros⟩

def days (s : Span) : Int := s.micros.fdiv Calendar.microsPerDay

def seconds (s : Span) : Int :=
  (s.micros.fmod Calendar.microsPerDay).fdiv Calendar.microsPerSecond

def microseconds (s : Span) : Int := s.micros.fmod Calendar.microsPerSecond

/-- The clock text `H:MM:SS`, with a fraction when there is one, after the number of days. -/
def text (s : Span) : String :=
  let secs := s.seconds.toNat
  let day :=
    if s.days == 0 then ""
    else toString s.days ++ (if s.days == 1 || s.days == -1 then " day, " else " days, ")
  let fraction :=
    if s.microseconds == 0 then "" else "." ++ zeroPadded 6 s.microseconds.toNat
  day ++ toString (secs / 3600) ++ ":" ++ zeroPadded 2 (secs / 60 % 60) ++ ":"
    ++ zeroPadded 2 (secs % 60) ++ fraction

end Span

namespace Moment

variable (t : Moment) (cs : List Char)

def ofClock (d : Date) (hour minute second micro : Nat) : Moment :=
  ⟨(Calendar.dayNumber d : Int) * Calendar.microsPerDay
      + ((hour * 3600 + minute * 60 + second : Nat) : Int) * Calendar.microsPerSecond + micro,
    none⟩

def date : Date := Calendar.dateOf (t.ticks.fdiv Calendar.microsPerDay).toNat

def ofDay : Nat := (t.ticks.fmod Calendar.microsPerDay).toNat

def hour : Nat := t.ofDay / 3600000000
def minute : Nat := t.ofDay / 60000000 % 60
def second : Nat := t.ofDay / 1000000 % 60
def micro : Nat := t.ofDay % 1000000

def dateText : String :=
  let d := t.date
  zeroPadded 4 d.year ++ "-" ++ zeroPadded 2 d.month ++ "-" ++ zeroPadded 2 d.day

def clockText : String :=
  zeroPadded 2 t.hour ++ ":" ++ zeroPadded 2 t.minute ++ ":" ++ zeroPadded 2 t.second

/-- The zone's distance from universal time as `+HH:MM`, with seconds when there are any. -/
def offsetText (offset : Int) : String :=
  let size := offset.natAbs
  let secs := size / 1000000
  (if offset < 0 then "-" else "+") ++ zeroPadded 2 (secs / 3600) ++ ":"
    ++ zeroPadded 2 (secs / 60 % 60)
    ++ (if size % 60000000 == 0 then "" else ":" ++ zeroPadded 2 (secs % 60))
    ++ (if size % 1000000 == 0 then "" else "." ++ zeroPadded 6 (size % 1000000))

/-- Date and clock with a separator, a fraction when there is one, and the zone when known. -/
def textWith (sep : String) (t : Moment) : String :=
  t.dateText ++ sep ++ t.clockText
    ++ (if t.micro == 0 then "" else "." ++ zeroPadded 6 t.micro)
    ++ (match t.offset with | some o => offsetText o | none => "")

/-- The interchange form `YYYY-MM-DDTHH:MM:SS`. -/
def iso : String := t.textWith "T"

/-- The reading form `YYYY-MM-DD HH:MM:SS`. -/
def text : String := t.textWith " "

def lastTick : Int := 3652059 * Calendar.microsPerDay - 1

def inRange (ticks : Int) : Bool := 0 ≤ ticks && ticks ≤ lastTick

/-- The same moment on the clock of universal time; nothing when that leaves the calendar. A
moment without a zone is taken as universal time already. -/
def toUniversal? : Option Moment :=
  let ticks := t.ticks - t.offset.getD 0
  if inRange ticks then some ⟨ticks, some 0⟩ else none

def instant : Int := t.ticks - t.offset.getD 0

def sinceEpoch : Int := t.instant - 719162 * Calendar.microsPerDay

/-! ## Reading the interchange form -/

def digits? : (n : Nat) → (value : Nat) → List Char → Option (Nat × List Char)
  | 0, value, cs => some (value, cs)
  | _ + 1, _, [] => none
  | n + 1, value, c :: cs =>
    if c.isDigit then digits? n (value * 10 + (c.toNat - 48)) cs else none

def weekDate? (year week day : Nat) : Option Date :=
  let first := Calendar.daysBeforeYear year
  let longYear :=
    Calendar.weekday first == 3 || (Calendar.weekday first == 2 && Calendar.isLeap year)
  if week == 0 || week > 53 || (week == 53 && !longYear) || day == 0 || day > 7 then none
  else
    let firstMonday : Int :=
      (first : Int) - Calendar.weekday first + (if Calendar.weekday first > 3 then 7 else 0)
    let n := firstMonday + ((week - 1) * 7 + (day - 1) : Nat)
    if n < 0 then none else some (Calendar.dateOf n.toNat)

def dateOfChars? : Option Date := do
  let (year, rest) ← digits? 4 0 cs
  let (dashed, rest) := match rest with | '-' :: r => (true, r) | r => (false, r)
  match rest with
  | 'W' :: rest =>
    let (week, rest) ← digits? 2 0 rest
    if rest.isEmpty then
      if year == 0 then none else weekDate? year week 1
    else
      let rest ← if dashed then (match rest with | '-' :: r => some r | _ => none) else some rest
      let (day, _) ← digits? 1 0 rest
      if year == 0 then none else weekDate? year week day
  | _ =>
    let (month, rest) ← digits? 2 0 rest
    let rest ← if dashed then (match rest with | '-' :: r => some r | _ => none) else some rest
    let (day, _) ← digits? 2 0 rest
    if Calendar.isDate year month day then some ⟨year, month, day⟩ else none

def dateSize : Nat :=
  let n := cs.length
  let char (i : Nat) : Char := cs.getD i (Char.ofNat 0)
  if n == 7 then 7
  else if char 4 == '-' then
    if char 5 == 'W' then
      if n > 8 && char 8 == '-' then
        if n > 10 && (char 10).isDigit then 8 else 10
      else 8
    else 10
  else if char 4 == 'W' then
    let stop := 7 + ((cs.drop 7).takeWhile Char.isDigit).length
    if stop < 9 then stop else if stop % 2 == 0 then 7 else 8
  else 8

def fractionOfChars? (numbers : List Nat) (cs : List Char) : Option (List Nat × Nat × Bool) := do
  let size := Nat.min cs.length 6
  let (value, rest) ← digits? size 0 cs
  let rest := rest.dropWhile Char.isDigit
  some (numbers, value * Nat.pow 10 (6 - size), !rest.isEmpty)

/-- Up to three two-digit numbers and a fraction; the last component says whether something
was left over. -/
def clockOfChars? : (left : Nat) → (first separated : Bool) → (numbers : List Nat) →
    List Char → Option (List Nat × Nat × Bool)
  | 0, _, _, numbers, cs => fractionOfChars? numbers cs
  | left + 1, first, separated, numbers, cs => do
    let (value, rest) ← digits? 2 0 cs
    let numbers := numbers ++ [value]
    match rest with
    | [] => some (numbers, 0, false)
    | c :: more =>
      let separated := if first then c == ':' else separated
      if more.isEmpty then some (numbers, 0, true)
      else if separated && c == ':' then clockOfChars? left false separated numbers more
      else if c == '.' || c == ',' then fractionOfChars? numbers more
      else if !separated then clockOfChars? left false separated numbers rest
      else none

def opensZone (c : Char) : Bool := c == '+' || c == '-' || c == 'Z'

/-- The zone at the end of a time: nothing when it is malformed. -/
def zoneOfChars? : List Char → Option (Option Int)
  | [] => some none
  | 'Z' :: rest => if rest.isEmpty then some (some 0) else none
  | sign :: rest => do
    let (numbers, micros, left) ← clockOfChars? 3 true true [] rest
    if left then none
    else
      let secs := numbers.getD 0 0 * 3600 + numbers.getD 1 0 * 60 + numbers.getD 2 0
      let size : Int := if secs == 0 then 0 else (secs * 1000000 + micros : Nat)
      if size.natAbs ≥ 86400000000 then none
      else some (some (if sign == '-' then -size else size))

def ofIso? (s : String) : Option Moment := do
  let cs := s.toList
  if s.utf8ByteSize < 7 then none
  else
    let size := dateSize cs
    let date ← dateOfChars? (cs.take size)
    let rest := cs.drop (size + 1)
    if rest.isEmpty then some (ofClock date 0 0 0 0)
    else
      let clock := rest.takeWhile (!opensZone ·)
      let zone := rest.dropWhile (!opensZone ·)
      let (numbers, micros, left) ← clockOfChars? 3 true true [] clock
      if left && zone.isEmpty then none
      else
        let offset ← zoneOfChars? zone
        let hour := numbers.getD 0 0
        let minute := numbers.getD 1 0
        let second := numbers.getD 2 0
        if hour > 23 || minute > 59 || second > 59 then none
        else some { ofClock date hour minute second micros with offset := offset }

end Moment

end Folio

namespace Folio.Moment

open Pattern (sequence choice lit)

def digitIn (low high : Char) : Pattern := .char fun c => low ≤ c && c ≤ high

def anyDigit : Pattern := .char Text.isDecimalDigit

def datePart : Pattern := sequence [
  .group 1 (Pattern.digits 4), lit "-",
  .group 2 (choice [.seq (lit "1") (digitIn '0' '2'), .seq (lit "0") (digitIn '1' '9'),
    digitIn '1' '9']),
  lit "-",
  .group 3 (choice [.seq (lit "3") (digitIn '0' '1'), .seq (digitIn '1' '2') anyDigit,
    .seq (lit "0") (digitIn '1' '9'), digitIn '1' '9', .seq (lit " ") (digitIn '1' '9')])]

def clockPart : Pattern :=
  let sixty := choice [.seq (digitIn '0' '5') anyDigit, anyDigit]
  sequence [
    .group 4 (choice [.seq (lit "2") (digitIn '0' '3'), .seq (digitIn '0' '1') anyDigit, anyDigit]),
    lit ":", .group 5 sixty, lit ":",
    .group 6 (choice [.seq (lit "6") (digitIn '0' '1'), sixty])]

def groupNumber (m : Pattern.Match) (n : Nat) : Nat :=
  ((Text.wholeNumber? (m.group n)).getD 0).toNat

def dateOfMatch? (m : Pattern.Match) : Option Date :=
  let date : Date := ⟨groupNumber m 1, groupNumber m 2, groupNumber m 3⟩
  if m.stop.after.isEmpty && Calendar.isDate date.year date.month date.day then some date else none

def ofPlain? (s : String) : Option Moment := do
  let m ← (sequence [datePart, Pattern.gap, clockPart]).matchHead? s
  let date ← dateOfMatch? m
  let second := groupNumber m 6
  if second > 59 then none else some (ofClock date (groupNumber m 4) (groupNumber m 5) second 0)

def plainDate? (s : String) : Option Date := (datePart.matchHead? s).bind dateOfMatch?

end Folio.Moment

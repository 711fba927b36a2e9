/-
# Insight.Figures -- lenient readings of stored figures

The log holds figures that people and tools wrote, in several forms.  Each reading gives a usual value for what it
cannot make sense of.
-/
import Folio.Value.Order

namespace Folio.Insight

open Moment Text

variable (v : Value) (t : Moment)

def cut {α : Type} [LT α] [DecidableLT α] (low high x : α) : α :=
  let y := if x < high then x else high
  if low < y then y else low

def tooLarge : Fault := .met .overflow "int too large to convert to float"

def toDouble (i : Int) : Except Fault Float :=
  let x := Decimal.ofInt i
  if x.isInf then .error tooLarge else .ok x

def numberToDouble : Number → Except Fault Float
  | .int i => toDouble i
  | .real x => .ok x

/-- A share in percent, kept between 0 and 100; nothing when the value tells none. -/
def percent? : Except Fault (Option Float) :=
  match v with
  | .text s =>
    let words := trim (trimEndChars "%" (trim s))
    .ok ((realNumber? words).map (cut 0.0 100.0))
  | v =>
    match v.number? with
    | some n => do return some (cut 0.0 100.0 (← numberToDouble n))
    | none => .ok none

def count : Int :=
  match v with
  | .text s => (wholeNumber? s).getD 0
  | .real x => (Decimal.truncate? x).getD 0
  | .int i => i
  | .bool b => if b then 1 else 0
  | _ => 0

/-- The time at which a file changed, in the interchange form or the plain one. -/
def changeTime? : Option Moment :=
  match v with
  | .text s => (ofIso? s).or (ofPlain? s)
  | _ => none

def inUniversalTime : Moment := { t with offset := some (t.offset.getD 0) }

/-- The first moment of the calendar, which stands for an unknown time. -/
def earliest : Moment := ⟨0, some 0⟩

def analysisTime : Moment :=
  match v with
  | .text s => ((ofIso? s).map inUniversalTime).getD earliest
  | _ => earliest

def outsideCalendar : Fault := .met .overflow "date value out of range"

def onUniversalClock : Except Fault Moment :=
  match t.toUniversal? with
  | some u => .ok u
  | none => .error outsideCalendar

/-- A date or moment on the clock of universal time; nothing when the value tells none. -/
def dateTime? : Except Fault (Option Moment) :=
  match v with
  | .text s =>
    match ofIso? s with
    | some t => do return some (← onUniversalClock t)
    | none => .ok none
  | _ => .ok none

def stamp : Except Fault String := do return (← onUniversalClock t).iso

end Folio.Insight

/-
# Text.Numeral -- numbers written as text

A numeral may stand between blanks, carry a sign and use the decimal digits of any script; a low line may separate two
digits.  A whole numeral has at most 4300 digits.
-/
import Folio.Decimal.Binary
import Folio.Text.Case
import Folio.Text.Pieces

namespace Folio.Text

open Char

def digitValue? (c : Char) : Option Nat :=
  if c.isDigit then some (c.toNat - 48)
  else
    (zeros.find? fun zero => zero ≤ c.toNat && c.toNat < zero + 10).map fun zero => c.toNat - zero

def withPlainDigits (cs : List Char) : List Char :=
  cs.map fun c =>
    match digitValue? c with
    | some n => ofNat (48 + n)
    | none => c

/-- Leave out the low lines between digits; nothing when one stands elsewhere. -/
def withoutSeparators? (afterDigit : Bool) : List Char → Option (List Char)
  | [] => some []
  | '_' :: c :: cs =>
    if afterDigit && c.isDigit then (withoutSeparators? true cs).map (c :: ·) else none
  | ['_'] => none
  | c :: cs => (withoutSeparators? c.isDigit cs).map (c :: ·)

def numeralChars? (s : String) : Option (List Char) :=
  withoutSeparators? false (withPlainDigits (trim s).toList)

def splitSign : List Char → Bool × List Char
  | '-' :: cs => (true, cs)
  | '+' :: cs => (false, cs)
  | cs => (false, cs)

def digitsValue (cs : List Char) : Nat := cs.foldl (fun n c => n * 10 + (c.toNat - 48)) 0

def digitLimit : Nat := 4300

def wholeNumber? (s : String) : Option Int := do
  let (negative, cs) := splitSign (← numeralChars? s)
  if cs.isEmpty || !cs.all isDigit || cs.length > digitLimit then none
  else
    let n : Int := digitsValue cs
    some (if negative then -n else n)

def exponent? : List Char → Option Int
  | [] => some 0
  | e :: cs =>
    if e == 'e' || e == 'E' then
      let (negative, ds) := splitSign cs
      if ds.isEmpty || !ds.all isDigit then none
      else
        let n : Int := digitsValue ds
        some (if negative then -n else n)
    else none

def realNumber? (s : String) : Option Float := do
  let (negative, cs) := splitSign (← numeralChars? s)
  let signed (x : Float) : Float := if negative then -x else x
  let word := lower (String.ofList cs)
  if word == "inf" || word == "infinity" then some (signed (1.0 / 0.0))
  else if word == "nan" then some (signed (0.0 / 0.0))
  else
    let whole := cs.takeWhile isDigit
    let (fraction, rest) :=
      match cs.dropWhile isDigit with
      | '.' :: r => (r.takeWhile isDigit, r.dropWhile isDigit)
      | r => ([], r)
    if whole.isEmpty && fraction.isEmpty then none
    else
      let power ← exponent? rest
      some (signed (Decimal.toFloat (digitsValue (whole ++ fraction)) (power - fraction.length)))

end Folio.Text

/-
# Decimal.Binary -- a double as a mantissa and a power of two

All decimal work is done on that exact reading with natural numbers, so that no step rounds twice.  Rounding to a fixed
number of places takes the nearest multiple of the last place, and of two the even one.
-/

namespace Folio.Decimal

variable (places : Nat) (x : Float)

inductive Binary where
  /-- The number `mantissa * 2 ^ exponent` with its sign. -/
  | finite (negative : Bool) (mantissa : Nat) (exponent : Int)
  | infinite (negative : Bool)
  | undefined
  deriving Repr, DecidableEq

def Binary.ofFloat : Binary :=
  let bits := x.toBits.toNat
  let negative := bits / Nat.pow 2 63 == 1
  let exponent : Nat := bits / Nat.pow 2 52 % 2048
  let fraction := bits % Nat.pow 2 52
  if exponent == 2047 then
    if fraction == 0 then .infinite negative else .undefined
  else if exponent == 0 then .finite negative fraction (-1074)
  else .finite negative (fraction + Nat.pow 2 52) ((exponent : Int) - 1075)

/-- The quotient rounded to the nearest whole number, a tie to the even one. -/
def roundDiv (num den : Nat) : Nat :=
  let q := num / den
  let r := num % den
  if 2 * r < den then q else if den < 2 * r then q + 1 else q + q % 2

/-- `mantissa * 2 ^ exponent` times `10 ^ places`, as a fraction. -/
def scaledFraction (mantissa : Nat) (exponent : Int) (places : Nat) : Nat × Nat :=
  match exponent with
  | .ofNat e => (mantissa * Nat.pow 2 e * Nat.pow 10 places, 1)
  | .negSucc e => (mantissa * Nat.pow 10 places, Nat.pow 2 (e + 1))

def toFloat (digits : Nat) (exponent : Int) : Float :=
  let size := (Nat.toDigits 10 digits).length
  if digits == 0 then 0.0
  else if (size : Int) + exponent > 400 then 1.0 / 0.0
  else if (size : Int) + exponent < -400 then 0.0
  else
    match exponent with
    | .ofNat e => Float.ofScientific digits false e
    | .negSucc e => Float.ofScientific digits true (e + 1)

/-- The weight of the leading bit of a quotient of positive numbers, as a power of two. -/
def leading (num den : Nat) : Int :=
  if den ≤ num then (num / den).log2 else -(((den - 1) / num).log2 + 1 : Nat)

/-- The mantissa and the exponent of the double nearest to a quotient of positive numbers; a tie goes
to the even mantissa. -/
def nearest (num den : Nat) : Nat × Int :=
  let exponent := max (leading num den - 52) (-1074)
  match exponent with
  | .ofNat e => (roundDiv num (den * Nat.pow 2 e), exponent)
  | .negSucc e => (roundDiv (num * Nat.pow 2 (e + 1)) den, exponent)

/-- The double nearest to the quotient of two natural numbers, the second not zero. -/
def ratio (num den : Nat) : Float :=
  if num == 0 then 0.0
  else
    let (mantissa, exponent) := nearest num den
    -- A mantissa that was rounded up to the next power of two carries into the exponent.
    .ofBits (.ofNat (Nat.min ((exponent + 1074).toNat * Nat.pow 2 52 + mantissa) (2047 * Nat.pow 2 52)))

def quotient (a b : Int) : Float :=
  let size := ratio a.natAbs b.natAbs
  if (a < 0) == (b < 0) then size else if a == 0 then size else -size

def ofInt (a : Int) : Float := quotient a 1

def roundTo : Float :=
  match Binary.ofFloat x with
  | .finite negative mantissa exponent =>
    let (n, d) := scaledFraction mantissa exponent places
    let y := toFloat (roundDiv n d) (-(places : Int))
    if negative then -y else y
  | _ => x

/-- The whole part, cut toward zero; nothing for an infinite or undefined value. -/
def truncate? : Option Int :=
  match Binary.ofFloat x with
  | .finite negative mantissa exponent =>
    let (n, d) := scaledFraction mantissa exponent 0
    some (if negative then -((n / d : Nat) : Int) else ((n / d : Nat) : Int))
  | _ => none

def placePoint (n : Nat) : String :=
  let ds := Nat.toDigits 10 n
  let ds := List.replicate (places + 1 - ds.length) '0' ++ ds
  let whole := String.ofList (ds.take (ds.length - places))
  if places == 0 then whole else whole ++ "." ++ String.ofList (ds.drop (ds.length - places))

def fixed : String :=
  match Binary.ofFloat x with
  | .undefined => "nan"
  | .infinite negative => if negative then "-inf" else "inf"
  | .finite negative mantissa exponent =>
    let (n, d) := scaledFraction mantissa exponent places
    (if negative then "-" else "") ++ placePoint places (roundDiv n d)

end Folio.Decimal

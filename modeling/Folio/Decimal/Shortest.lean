/-
# Decimal.Shortest -- the fewest digits that read back

The reals that round to `m * 2 ^ q` form an interval around it, whose ends belong to it when `m` is even.  For one
digit, two digits and so on, the two neighbours of the value on that decimal grid are tried; the first grid with a hit
wins, and of two hits the nearer.
-/
import Folio.Decimal.Binary

namespace Folio.Decimal

open String

/-- Four times the value and the half-widths of its interval, over a common denominator:
`(value, below, above, den)` with everything scaled by four. -/
structure Interval where
  value : Nat
  low : Nat
  high : Nat
  den : Nat
  closed : Bool

def interval (mantissa : Nat) (exponent : Int) : Interval :=
  let edge := mantissa == Nat.pow 2 52 && exponent != -1074
  let value := 4 * mantissa
  let low := if edge then value - 1 else value - 2
  let high := value + 2
  match exponent with
  | .ofNat e => ⟨value * Nat.pow 2 e, low * Nat.pow 2 e, high * Nat.pow 2 e, 4, mantissa % 2 == 0⟩
  | .negSucc e => ⟨value, low, high, 4 * Nat.pow 2 (e + 1), mantissa % 2 == 0⟩

def Interval.holds (i : Interval) (digits : Nat) (place : Int) : Bool :=
  let (n, d) :=
    match place with
    | .ofNat p => (digits * Nat.pow 10 p * i.den, 1)
    | .negSucc p => (digits * i.den, Nat.pow 10 (p + 1))
  if i.closed then i.low * d ≤ n && n ≤ i.high * d else i.low * d < n && n < i.high * d

/-- The whole part of the value in units of `10 ^ place`, and whether the upper neighbour is
nearer than the lower one. -/
def Interval.below (i : Interval) (place : Int) : Nat × Bool :=
  let (n, d) :=
    match place with
    | .ofNat p => (i.value, i.den * Nat.pow 10 p)
    | .negSucc p => (i.value * Nat.pow 10 (p + 1), i.den)
  let q := n / d
  (q, d < 2 * (n % d) || (2 * (n % d) == d && q % 2 == 1))

def Interval.search (i : Interval) : (fuel : Nat) → (place : Int) → Nat × Int
  | 0, place => ((i.below place).1, place)
  | fuel + 1, place =>
    let (q, up) := i.below place
    let lower := i.holds q place
    let upper := i.holds (q + 1) place
    if lower && upper then (if up then q + 1 else q, place)
    else if lower then (q, place)
    else if upper then (q + 1, place)
    else i.search fuel (place - 1)

def digitCount (n : Nat) : Nat := (Nat.toDigits 10 n).length

def stripZeros : (fuel : Nat) → Nat → Int → Nat × Int
  | 0, n, p => (n, p)
  | fuel + 1, n, p => if n != 0 && n % 10 == 0 then stripZeros fuel (n / 10) (p + 1) else (n, p)

def shortest (mantissa : Nat) (exponent : Int) : Nat × Int :=
  let i := interval mantissa exponent
  let top : Int :=
    if i.value ≥ i.den then (digitCount (i.value / i.den) : Int)
    else 1 - (digitCount (i.den / i.value) : Int) + 1
  let (digits, place) := i.search 400 top
  stripZeros 400 digits place

/-- How a number is written: below which and from which power of ten on the scientific form is
used. -/
structure NumberForm where
  least : Int
  limit : Int

/-- Positional between 0.0001 and 10^16, with a point always. -/
def plain : NumberForm := ⟨-4, 16⟩

/-- The text of digits `ds` whose first digit has the weight `10 ^ weight`. -/
def layout (form : NumberForm) (ds : List Char) (weight : Int) : String :=
  if weight < form.least || weight ≥ form.limit then
    let size := toString weight.natAbs
    let size := if size.length < 2 then "0" ++ size else size
    let tail := ds.drop 1
    ofList (ds.take 1 ++ (if tail.isEmpty then [] else '.' :: tail))
      ++ (if weight < 0 then "e-" else "e+") ++ size
  else if weight < 0 then
    "0." ++ ofList (List.replicate (weight.natAbs - 1) '0' ++ ds)
  else
    let whole := weight.natAbs + 1
    let padded := ds ++ List.replicate (whole - ds.length) '0'
    let rest := padded.drop whole
    ofList (padded.take whole) ++ "." ++ (if rest.isEmpty then "0" else ofList rest)

/-- The shortest text of a double; `1.0`, `1e+16`, `-0.0`, `inf`, `nan`. -/
def text (x : Float) : String :=
  match Binary.ofFloat x with
  | .undefined => "nan"
  | .infinite negative => if negative then "-inf" else "inf"
  | .finite negative mantissa exponent =>
    (if negative then "-" else "")
      ++ if mantissa == 0 then "0.0"
        else
          let (digits, place) := shortest mantissa exponent
          let ds := Nat.toDigits 10 digits
          layout plain ds (place + ds.length - 1)

end Folio.Decimal

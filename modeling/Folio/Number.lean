/-
# Number -- whole numbers and doubles side by side

Documents hold whole numbers of any size and doubles, and keep them apart: a sum of whole
numbers stays whole, and one double makes the result a double.  Comparison is exact across the
two kinds.
-/
import Folio.Fault
import Folio.Decimal.Shortest

namespace Folio

open Decimal

inductive Number where
  | int (i : Int)
  | real (x : Float)

namespace Number

instance (n : Nat) : OfNat Number n := ⟨.int n⟩

def toFloat : Number → Float
  | .int i => ofInt i
  | .real x => x

def lift (onInt : Int → Int → Int) (onReal : Float → Float → Float) : Number → Number → Number
  | .int a, .int b => .int (onInt a b)
  | a, b => .real (onReal a.toFloat b.toFloat)

def add : Number → Number → Number := lift (· + ·) (· + ·)
def sub : Number → Number → Number := lift (· - ·) (· - ·)
def mul : Number → Number → Number := lift (· * ·) (· * ·)

instance : Add Number := ⟨add⟩
instance : Sub Number := ⟨sub⟩
instance : Mul Number := ⟨mul⟩

def isZero : Number → Bool
  | .int i => i == 0
  | .real x => x == 0.0

/-- The least whole number that is too large for a double: half the way from the last double,
`(2 ^ 53 - 1) * 2 ^ 971`, to the power of two after it. -/
def ceiling : Nat := (Nat.pow 2 54 - 1) * Nat.pow 2 970

def outgrows (a b : Int) : Bool := ceiling * b.natAbs ≤ a.natAbs

def unfit : Fault := .met .overflow "int too large to convert to float"

def double : Number → Except Fault Float
  | .int i => if outgrows i 1 then .error unfit else .ok (ofInt i)
  | .real x => .ok x

def undivided : Fault := .met .divisionByZero "division by zero"

def outgrown : Fault := .met .overflow "integer division result too large for a float"

/-- The quotient as a double, and a fault when the second number is zero or a double is too small. -/
def div : Number → Number → Except Fault Float
  | .int a, .int b =>
    if b == 0 then .error undivided
    else if outgrows a b then .error outgrown
    else .ok (quotient a b)
  | .real x, .int b =>
    if b == 0 then .error undivided
    else do
      let y ← double (.int b)
      .ok (x / y)
  | a, .real y => do
    let x ← a.double
    if y == 0.0 then .error undivided else .ok (x / y)

def fraction? : Number → Option (Int × Nat)
  | .int i => some (i, 1)
  | .real x =>
    match Decimal.Binary.ofFloat x with
    | .finite negative mantissa exponent =>
      let (n, d) := scaledFraction mantissa exponent 0
      some (if negative then -(n : Int) else n, d)
    | _ => none

def lt (a b : Number) : Bool :=
  match a.fraction?, b.fraction? with
  | some (n, d), some (m, e) => n * e < m * d
  | _, _ => a.toFloat < b.toFloat

def eq (a b : Number) : Bool :=
  match a.fraction?, b.fraction? with
  | some (n, d), some (m, e) => n * e == m * d
  | _, _ => a.toFloat == b.toFloat

def le (a b : Number) : Bool := lt a b || eq a b

instance : BEq Number := ⟨eq⟩
instance : LT Number := ⟨(lt · ·)⟩
instance : LE Number := ⟨(le · ·)⟩
instance : DecidableLT Number := fun a b => inferInstanceAs (Decidable (lt a b))
instance : DecidableLE Number := fun a b => inferInstanceAs (Decidable (le a b))
instance : OfScientific Number := ⟨fun m s e => .real (.ofScientific m s e)⟩

def max (a b : Number) : Number := if lt a b then b else a

def text : Number → String
  | .int i => toString i
  | .real x => Decimal.text x

def fixed (places : Nat) : Number → String
  | .int i =>
    (if i < 0 then "-" else "") ++ placePoint places (i.natAbs * Nat.pow 10 places)
  | .real x => Decimal.fixed places x

def sum (xs : List Number) : Number := xs.foldl add (.int 0)

end Number

end Folio

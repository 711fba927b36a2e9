/-
# Code.Score -- one number for object orientation

The score is a weighted sum of ratios, held between 0 and 1.  It falls into one of three bands,
and the band decides the rating and the wording.  The arithmetic is stated for any numbers, so
that it can be read exactly as well as run on doubles.
-/
import Folio.Decimal.Binary

namespace Folio.Code

inductive Band where
  | low
  | medium
  | high
  deriving Repr, DecidableEq

def Band.between {α : Type} [LT α] [DecidableLT α] (lower upper x : α) : Band :=
  if x < lower then .low else if x < upper then .medium else .high

def Band.of {α : Type} [LT α] [DecidableLT α] [OfScientific α] (x : α) : Band := .between 0.3 0.6 x

/-- The band by the bounds that a number reaches; what reaches none is low. -/
def Band.reached {α : Type} [LE α] [DecidableLE α] [OfScientific α] (x : α) : Band :=
  if 0.6 ≤ x then .high else if 0.3 ≤ x then .medium else .low

def weigh {α : Type} [Add α] [Mul α] [OfNat α 0] (terms : List (α × α)) : α :=
  terms.foldl (fun acc t => acc + t.1 * t.2) 0

/-- The smaller of two numbers; the first one when neither is smaller. -/
def lesser {α : Type} [LT α] [DecidableLT α] (x y : α) : α := if y < x then y else x

def greater {α : Type} [LT α] [DecidableLT α] (x y : α) : α := if x < y then y else x

def clamp {α : Type} [LT α] [DecidableLT α] [OfNat α 0] [OfNat α 1] (x : α) : α :=
  greater 0 (lesser 1 x)

def ratio (a b : Nat) : Float := if b == 0 then 0.0 else Decimal.quotient a b

structure Wording where
  none : String
  low : String
  medium : String
  high : String

def Wording.verdict (w : Wording) (hasClasses : Bool) (score : Float) : String × String :=
  if !hasClasses then ("none", w.none)
  else
    match Band.of score with
    | .low => ("low", w.low)
    | .medium => ("medium", w.medium)
    | .high => ("high", w.high)

def Wording.classes : Wording where
  none := "No classes were found in this project, so OOP usage appears minimal or absent."
  low := "The project shows limited use of object-oriented design. There are some classes, "
    ++ "but inheritance, encapsulation, and polymorphism are either absent or lightly used."
  medium := "The project demonstrates moderate OOP usage. Classes and methods are present, with "
    ++ "some inheritance or encapsulation, but there is still room to deepen abstraction "
    ++ "and polymorphism."
  high := "The project exhibits strong object-oriented design: classes are well-used, "
    ++ "encapsulation is present, and inheritance with method overriding provides clear "
    ++ "polymorphic behavior and expressive interfaces."

def Wording.structs : Wording where
  none := "No structs were found in this project, so OOP-like patterns appear minimal or absent."
  low := "The project shows limited use of object-oriented patterns. There are some structs, but "
    ++ "encapsulation and polymorphism are minimal."
  medium := "The project demonstrates moderate OOP-like design with structs, function pointers, "
    ++ "and some encapsulation patterns."
  high := "The project exhibits strong object-oriented design patterns: vtables, opaque pointers, "
    ++ "and clear lifecycle management."

end Folio.Code

/-
# Value.Order -- documents in order, and documents read as numbers, parts and lines

Texts, numbers, moments, spans and lists each have an order of their own; documents of different
kinds have none, and sorting them is a fault.
-/
import Folio.Value.Quoted

namespace Folio.Value

variable (v : Value) (xs : List Value)

def incomparable (a b : Value) : Fault :=
  .wrongType ("'<' not supported between instances of '" ++ a.kindName ++ "' and '"
    ++ b.kindName ++ "'")

mutual

def before : Value → Value → Except Fault Bool
  | .moment s, .moment t =>
    if s.offset.isSome == t.offset.isSome then .ok (s.instant < t.instant)
    else .error (.wrongType "can't compare offset-naive and offset-aware datetimes")
  | .text s, .text t => .ok (s < t)
  | .span s, .span t => .ok (s.micros < t.micros)
  | .list xs, .list ys => beforeItems xs ys
  | a, b =>
    match a.number?, b.number? with
    | some x, some y => .ok (x.lt y)
    | _, _ => .error (incomparable a b)

/-- Lists by their first difference, a shorter one before its continuations. -/
def beforeItems : List Value → List Value → Except Fault Bool
  | [], ys => .ok !ys.isEmpty
  | _ :: _, [] => .ok false
  | x :: xs, y :: ys => if same x y then beforeItems xs ys else before x y

end

def insertBy {α : Type} (less : α → α → Except Fault Bool) (x : α) : List α → Except Fault (List α)
  | [] => .ok [x]
  | y :: ys => do
    if ← less x y then return x :: y :: ys
    return y :: (← insertBy less x ys)

def sortBy {α : Type} (less : α → α → Except Fault Bool) (xs : List α) : Except Fault (List α) :=
  xs.foldlM (fun done x => insertBy less x done) []

def sorted : Except Fault (List Value) := sortBy before xs

def sortedElements : Except Fault (List Value) := do
  if v.truthy then sorted (← v.elements) else .ok []

def isKey : Value → Bool
  | .list _ => false
  | .object _ => false
  | _ => true

def members : Except Fault (List Value) :=
  match xs.find? (!·.isKey) with
  | some v => .error (.wrongType ("unhashable type: '" ++ v.kindName ++ "'"))
  | none => .ok (xs.foldl (fun seen x => if seen.contains x then seen else seen ++ [x]) [])

def pair? : Except Fault (Value × Value) :=
  match v with
  | .list [k, w] => .ok (k, w)
  | .text s =>
    match s.toList with
    | [a, b] => .ok (.text (String.singleton a), String.singleton b)
    | _ => .error (.met .badValue "dictionary update sequence element has the wrong length")
  | .object [a, b] => .ok (.text a.1, b.1)
  | .list _ | .object _ =>
    .error (.met .badValue "dictionary update sequence element has the wrong length")
  | _ => .error (.wrongType "cannot convert dictionary update sequence element to a sequence")

def toFields : Except Fault Fields :=
  match v with
  | .object fs => .ok fs
  | v => do
    let pairs ← (← v.elements).mapM pair?
    match pairs.find? (!·.1.isKey) with
    | some p => .error (.wrongType ("unhashable type: '" ++ p.1.kindName ++ "'"))
    | none => .ok (Fields.setAll [] (pairs.map fun p => (shown p.1, p.2)))

def toInt : Except Fault Int :=
  match v with
  | .bool b => .ok (if b then 1 else 0)
  | .int i => .ok i
  | .real x =>
    match Decimal.truncate? x with
    | some i => .ok i
    | none =>
      if x.isNaN then .error (.met .badValue "cannot convert float NaN to integer")
      else .error (.met .overflow "cannot convert float infinity to integer")
  | .text s =>
    match Text.wholeNumber? s with
    | some i => .ok i
    | none => .error (.met .badValue "invalid literal for int() with base 10")
  | v => .error (.wrongType ("int() argument must be a string, a bytes-like object or a real number, not '"
      ++ v.kindName ++ "'"))

def piece : Except Fault String :=
  match v with
  | .text s => .ok s
  | v => .error (.wrongType ("sequence item: expected str instance, " ++ v.kindName ++ " found"))

/-- The elements of a value in one line; all of them have to be texts. -/
def joined (sep : String) (v : Value) : Except Fault String := do
  return Text.join sep (← (← v.elements).mapM piece)

def head (n : Nat) (v : Value) : Except Fault Value :=
  match v with
  | .list xs => .ok (.list (xs.take n))
  | .text s => .ok (Text.takeChars n s)
  | .object _ => .error (.wrongType "unhashable type: 'slice'")
  | v => .error (.wrongType ("'" ++ v.kindName ++ "' object is not subscriptable"))

/-- Whether a value holds a text: as an element, as a name or as a part. -/
def holds (key : String) : Except Fault Bool :=
  match v with
  | .list xs => .ok (xs.contains key)
  | .object fs => .ok (Fields.has fs key)
  | .text s => .ok (Text.contains s key)
  | v => .error (.wrongType ("argument of type '" ++ v.kindName ++ "' is not iterable"))

def unhashable (v : Value) : Fault := .wrongType ("unhashable type: '" ++ v.kindName ++ "'")

def isMember : Except Fault Bool :=
  if v.isKey then .ok (xs.contains v) else .error (unhashable v)

/-- The value of a field that counts as present, or else what `other` gives. -/
def presentOr (other : Except Fault Value) : Except Fault Value :=
  if v.truthy then .ok v else other

end Folio.Value

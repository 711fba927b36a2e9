/-
# Value.Basic -- stored documents

An object is a list of named fields in the order in which they arrived; writing a field that is there keeps its place.
Reading a document can fail: a field may not be there, or a value be of the wrong kind.
-/
import Folio.Number
import Folio.Calendar

namespace Folio

open Number

inductive Value where
  | null
  | bool (b : Bool)
  | int (i : Int)
  | real (x : Float)
  | text (s : String)
  | list (items : List Value)
  | object (fields : List (String × Value))
  | moment (t : Moment)
  | span (d : Span)
  deriving Inhabited

abbrev Fields := List (String × Value)

namespace Fields

variable (fs : Fields) (key : String)

def get? : Option Value := fs.lookup key

def has : Bool := (fs.lookup key).isSome

/-- Write a field: in its old place when the name is there, at the end otherwise. -/
def set : Fields → String → Value → Fields
  | [], key, v => [(key, v)]
  | (k, old) :: rest, key, v => if k == key then (k, v) :: rest else (k, old) :: set rest key v

def erase : Fields := fs.filter fun f => f.1 != key

def setAll (fs more : Fields) : Fields := more.foldl (fun acc f => set acc f.1 f.2) fs

def keys : List String := fs.map (·.1)

end Fields

namespace Value

variable (v : Value) (key : String)

instance : Coe String Value := ⟨.text⟩
instance : Coe Bool Value := ⟨.bool⟩
instance : Coe Int Value := ⟨.int⟩

def nat (n : Nat) : Value := .int n

def texts (xs : List String) : Value := .list (xs.map .text)

instance : Coe Nat Value := ⟨nat⟩
instance : Coe (List String) Value := ⟨texts⟩

def textOrNull : Option String → Value
  | some s => .text s
  | none => .null

def ofNumber : Number → Value
  | .int i => .int i
  | .real x => .real x

def kindName : Value → String
  | .null => "NoneType"
  | .bool _ => "bool"
  | .int _ => "int"
  | .real _ => "float"
  | .text _ => "str"
  | .list _ => "list"
  | .object _ => "dict"
  | .moment _ => "datetime.datetime"
  | .span _ => "datetime.timedelta"

/-- Values that count as present: not nothing, not false, not zero and not empty. -/
def truthy : Value → Bool
  | .null => false
  | .bool b => b
  | .int i => i != 0
  | .real x => !(x == 0.0)
  | .text s => s != ""
  | .list xs => !xs.isEmpty
  | .object fs => !fs.isEmpty
  | .moment _ => true
  | .span d => d.micros != 0

def isNull : Value → Bool
  | .null => true
  | _ => false

def isObject : Value → Bool
  | .object _ => true
  | _ => false

def number? : Value → Option Number
  | .bool b => some (.int (if b then 1 else 0))
  | .int i => some (.int i)
  | .real x => some (.real x)
  | _ => none

def text? : Value → Option String
  | .text s => some s
  | _ => none

def fields? : Value → Option Fields
  | .object fs => some fs
  | _ => none

def items? : Value → Option (List Value)
  | .list xs => some xs
  | _ => none

def fieldsOrEmpty : Fields := v.fields?.getD []

def itemsOrEmpty : List Value := v.items?.getD []

def textOrEmpty : String := v.text?.getD ""

def orElse (other : Value) : Value := if v.truthy then v else other

/-! ## Equality -/

mutual

/-- Equality of documents: numbers by value, objects without regard to order. -/
def same : Value → Value → Bool
  | .null, .null => true
  | .text a, .text b => a == b
  | .list xs, .list ys => sameItems xs ys
  | .object fs, .object gs => fs.length == gs.length && sameFields fs gs
  | .moment a, .moment b =>
    match a.offset, b.offset with
    | some _, some _ => a.instant == b.instant
    | none, none => a.ticks == b.ticks
    | _, _ => false
  | .span a, .span b => a == b
  | .bool a, .bool b => a == b
  | .bool a, .int b => (if a then 1 else 0) == b
  | .int a, .bool b => a == (if b then 1 else 0)
  | .bool a, .real b => eq (.int (if a then 1 else 0)) (.real b)
  | .real a, .bool b => eq (.real a) (.int (if b then 1 else 0))
  | .int a, .int b => a == b
  | .int a, .real b => eq (.int a) (.real b)
  | .real a, .int b => eq (.real a) (.int b)
  | .real a, .real b => a == b
  | _, _ => false

def sameItems : List Value → List Value → Bool
  | [], [] => true
  | x :: xs, y :: ys => same x y && sameItems xs ys
  | _, _ => false

def sameFields : List (String × Value) → List (String × Value) → Bool
  | [], _ => true
  | (k, v) :: fs, gs =>
    (match gs.lookup k with
      | some w => same v w
      | none => false)
      && sameFields fs gs

end

instance : BEq Value := ⟨same⟩

/-! ## Reading -/

def get? : Option Value :=
  match v with
  | .object fs => Fields.get? fs key
  | _ => none

def getOrNull : Value := (v.get? key).getD .null

def field : Except Fault Value :=
  match v with
  | .object fs =>
    match Fields.get? fs key with
    | some w => .ok w
    | none => .error (.met .missingKey ("'" ++ key ++ "'"))
  | .list _ => .error (.wrongType "list indices must be integers or slices, not str")
  | .text _ => .error (.wrongType "string indices must be integers, not 'str'")
  | v => .error (.wrongType ("'" ++ v.kindName ++ "' object is not subscriptable"))

/-- The value of a field, or a substitute; only objects have fields. -/
def fieldD (fallback : Value) : Except Fault Value :=
  match v with
  | .object fs => .ok ((Fields.get? fs key).getD fallback)
  | v => .error (.noAttribute v.kindName "get")

def asObject (operation : String) : Except Fault Fields :=
  match v with
  | .object fs => .ok fs
  | v => .error (.noAttribute v.kindName operation)

/-- What iteration goes through: the items of a list, the names of an object, the characters of
a text. -/
def elements : Except Fault (List Value) :=
  match v with
  | .list xs => .ok xs
  | .object fs => .ok (fs.map fun f => .text f.1)
  | .text s => .ok (s.toList.map fun c => .text (String.singleton c))
  | v => .error (.wrongType ("'" ++ v.kindName ++ "' object is not iterable"))

def size : Except Fault Nat :=
  match v with
  | .list xs => .ok xs.length
  | .object fs => .ok fs.length
  | .text s => .ok s.length
  | v => .error (.wrongType ("object of type '" ++ v.kindName ++ "' has no len()"))

def asNumber : Except Fault Number :=
  match v.number? with
  | some n => .ok n
  | none => .error (.wrongType ("unsupported operand type(s): '" ++ v.kindName ++ "'"))

def asText (operation : String) : Except Fault String :=
  match v with
  | .text s => .ok s
  | v => .error (.noAttribute v.kindName operation)

def set (w : Value) : Value :=
  match v with
  | .object fs => .object (Fields.set fs key w)
  | v => v

def erase : Value :=
  match v with
  | .object fs => .object (Fields.erase fs key)
  | v => v

end Value

end Folio

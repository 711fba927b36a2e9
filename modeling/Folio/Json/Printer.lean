/-
# Json.Printer -- documents as JSON text

A `Layout` says how a document is written: on one line or indented, with characters beyond the
basic ones escaped or as they are, and how numbers and undefined values look.
-/
import Folio.Json.Reader
import Folio.Value.Quoted

namespace Folio.Value

mutual

/-- Apply a change to every part of a document, inner parts first; `name` changes the names of the
fields. -/
def transform (name : String → String) (change : Value → Value) : Value → Value
  | .list xs => change (.list (transformItems name change xs))
  | .object fs => change (.object (transformFields name change fs))
  | v => change v

def transformItems (name : String → String) (change : Value → Value) : List Value → List Value
  | [] => []
  | x :: xs => transform name change x :: transformItems name change xs

def transformFields (name : String → String) (change : Value → Value) : List (String × Value) → List (String × Value)
  | [] => []
  | (k, v) :: fs => (name k, transform name change v) :: transformFields name change fs

end

def mapTexts (f : String → String) (v : Value) : Value :=
  v.transform f fun
    | .text s => .text (f s)
    | w => w

end Folio.Value

namespace Folio.Json

variable (layout : Layout)

structure Layout where
  /-- Blanks per level; nothing writes one line. -/
  indent : Option Nat
  /-- Whether characters beyond the basic ones are escaped. -/
  ascii : Bool
  /-- Whether fields are written in the order of their names. -/
  sorted : Bool
  /-- Whether undefined and infinite numbers are written as `null`. -/
  strict : Bool
  deriving Repr, DecidableEq

def Layout.line : Layout := ⟨none, true, false, false⟩

def Layout.pretty : Layout := ⟨some 2, true, false, false⟩

def Layout.exact : Layout := ⟨some 2, false, false, true⟩

def escapeUnit (n : Nat) : String := "\\u" ++ Value.hex 4 n

def escapeChar (ascii : Bool) (c : Char) : String :=
  let n := c.toNat
  if c == '"' then "\\\""
  else if c == '\\' then "\\\\"
  else if c == '\n' then "\\n"
  else if c == '\r' then "\\r"
  else if c == '\t' then "\\t"
  else if n == 8 then "\\b"
  else if n == 12 then "\\f"
  else if n < 32 then escapeUnit n
  else if !ascii || n < 127 then String.singleton c
  else if n < 65536 then escapeUnit n
  else escapeUnit (0xD800 + (n - 65536) / 1024) ++ escapeUnit (0xDC00 + (n - 65536) % 1024)

def string (ascii : Bool) (s : String) : String :=
  "\"" ++ String.join (s.toList.map (escapeChar ascii)) ++ "\""

/-- The strict layout's numbers: no sign and no zeros in a positive exponent. -/
def strictNumber (x : Float) : String :=
  match Decimal.Binary.ofFloat x with
  | .finite negative mantissa exponent =>
    (if negative then "-" else "")
      ++ if mantissa == 0 then "0.0"
        else
          let (digits, place) := Decimal.shortest mantissa exponent
          let ds := Nat.toDigits 10 digits
          let weight := place + ds.length - 1
          if weight < -5 || weight ≥ 16 then
            let tail := ds.drop 1
            String.ofList (ds.take 1 ++ (if tail.isEmpty then [] else '.' :: tail)) ++ "e"
              ++ toString weight
          else Decimal.layout ⟨-5, 16⟩ ds weight
  | _ => "null"

def real (x : Float) : String :=
  if layout.strict then strictNumber x
  else
    match Decimal.Binary.ofFloat x with
    | .undefined => "NaN"
    | .infinite negative => if negative then "-Infinity" else "Infinity"
    | _ => Decimal.text x

def Layout.breakAt (depth : Nat) : String :=
  match layout.indent with
  | some n => "\n" ++ Text.repeated (n * depth) " "
  | none => ""

def Layout.comma (depth : Nat) : String :=
  match layout.indent with
  | some _ => "," ++ layout.breakAt depth
  | none => ", "

def Layout.order (fs : List (String × String)) : List (String × String) :=
  if layout.sorted then fs.mergeSort fun a b => Text.le a.1 b.1 else fs

mutual

def write (layout : Layout) (depth : Nat) : Value → String
  | .null => "null"
  | .bool b => if b then "true" else "false"
  | .int i => toString i
  | .real x => real layout x
  | .text s => string layout.ascii s
  | .list [] => "[]"
  | .list (x :: xs) =>
    "[" ++ layout.breakAt (depth + 1)
      ++ Text.join (layout.comma (depth + 1)) (writeItems layout (depth + 1) (x :: xs))
      ++ layout.breakAt depth ++ "]"
  | .object [] => "\x7b\x7d"
  | .object (f :: fs) =>
    "\x7b" ++ layout.breakAt (depth + 1)
      ++ Text.join (layout.comma (depth + 1))
        ((layout.order (writeFields layout (depth + 1) (f :: fs))).map fun kv =>
          string layout.ascii kv.1 ++ ": " ++ kv.2)
      ++ layout.breakAt depth ++ "\x7d"
  | .moment t => string layout.ascii (if layout.strict then t.iso else t.text)
  | .span d => string layout.ascii d.text

def writeItems (layout : Layout) (depth : Nat) : List Value → List String
  | [] => []
  | x :: xs => write layout depth x :: writeItems layout depth xs

def writeFields (layout : Layout) (depth : Nat) : List (String × Value) → List (String × String)
  | [] => []
  | (k, v) :: fs => (k, write layout depth v) :: writeFields layout depth fs

end

def render (v : Value) : String := write layout 0 v

mutual

/-- Whether a document holds JSON values only: no moments and no spans. -/
def isPlain : Value → Bool
  | .moment _ => false
  | .span _ => false
  | .list xs => isPlainItems xs
  | .object fs => isPlainFields fs
  | _ => true

def isPlainItems : List Value → Bool
  | [] => true
  | x :: xs => isPlain x && isPlainItems xs

def isPlainFields : List (String × Value) → Bool
  | [] => true
  | (_, v) :: fs => isPlain v && isPlainFields fs

end

/-! ## The strict layout -/

mutual

/-- Whether every part has a strict form: whole numbers fit 64 bits, and no part is a span. -/
def fitsStrict : Value → Bool
  | .int i => -0x8000000000000000 ≤ i && i < 0x10000000000000000
  | .span _ => false
  | .list xs => fitsStrictItems xs
  | .object fs => fitsStrictFields fs
  | _ => true

def fitsStrictItems : List Value → Bool
  | [] => true
  | x :: xs => fitsStrict x && fitsStrictItems xs

def fitsStrictFields : List (String × Value) → Bool
  | [] => true
  | (_, v) :: fs => fitsStrict v && fitsStrictFields fs

end

mutual

def depth : Value → Nat
  | .list xs => depthItems xs + 1
  | .object fs => depthFields fs + 1
  | _ => 0

def depthItems : List Value → Nat
  | [] => 0
  | x :: xs => max (depth x) (depthItems xs)

def depthFields : List (String × Value) → Nat
  | [] => 0
  | (_, v) :: fs => max (depth v) (depthFields fs)

end

def strictDepth : Nat := 255

def strictRefusal? (v : Value) : Option String :=
  if !fitsStrict v then some "Integer exceeds 64-bit range"
  else if depth v > strictDepth then some "Recursion limit reached"
  else none

/-- A document as the strict layout writes it: numbers without a written form are nothing, and a
moment is its interchange form. -/
def finite : Value → Value := Value.transform id fun
  | .real x => if isNumber x then .real x else .null
  | .moment t => .text t.iso
  | v => v

end Folio.Json

/-
# Json.Reader -- documents from JSON text

The lenient reader also takes `NaN` and the infinities, whole numbers of any size and half of a pair of characters that
stands alone; the strict one reads a whole number beyond 64 bits as a double.  When a name occurs twice in an object the
last value stands, in the place of the first.
-/
import Folio.Value.Basic

namespace Folio.Json

open Char

variable (strict : Bool) (cs : List Char) (s : String)

def isSpace (c : Char) : Bool := c == ' ' || c == '\t' || c == '\n' || c == '\r'

def skipSpace : List Char := cs.dropWhile isSpace

def hexValue? (c : Char) : Option Nat :=
  if c.isDigit then some (c.toNat - 48)
  else if 'a' ≤ c && c ≤ 'f' then some (c.toNat - 87)
  else if 'A' ≤ c && c ≤ 'F' then some (c.toNat - 55)
  else none

def unit? : List Char → Option (Nat × List Char)
  | a :: b :: c :: d :: rest => do
    some (((← hexValue? a) * 16 + (← hexValue? b)) * 256
      + (← hexValue? c) * 16 + (← hexValue? d), rest)
  | _ => none

def loneHalf : Char := ofNat 0xFFFD

/-- The rest of a string after its opening quote; `out` is what was read, reversed. -/
def stringRest (strict : Bool) : (fuel : Nat) → (out : List Char) → List Char → Option (String × List Char)
  | 0, _, _ => none
  | _ + 1, _, [] => none
  | _ + 1, out, '"' :: rest => some (String.ofList out.reverse, rest)
  | fuel + 1, out, '\\' :: rest =>
    match rest with
    | '"' :: r => stringRest strict fuel ('"' :: out) r
    | '\\' :: r => stringRest strict fuel ('\\' :: out) r
    | '/' :: r => stringRest strict fuel ('/' :: out) r
    | 'b' :: r => stringRest strict fuel (ofNat 8 :: out) r
    | 'f' :: r => stringRest strict fuel (ofNat 12 :: out) r
    | 'n' :: r => stringRest strict fuel ('\n' :: out) r
    | 'r' :: r => stringRest strict fuel ('\r' :: out) r
    | 't' :: r => stringRest strict fuel ('\t' :: out) r
    | 'u' :: r => do
      let (n, r) ← unit? r
      if 0xD800 ≤ n && n < 0xDC00 then
        match r with
        | '\\' :: 'u' :: more =>
          let (m, after) ← unit? more
          if 0xDC00 ≤ m && m < 0xE000 then
            stringRest strict fuel (ofNat (0x10000 + (n - 0xD800) * 1024 + (m - 0xDC00)) :: out) after
          else if strict then none else stringRest strict fuel (loneHalf :: out) r
        | _ => if strict then none else stringRest strict fuel (loneHalf :: out) r
      else if 0xDC00 ≤ n && n < 0xE000 then
        if strict then none else stringRest strict fuel (loneHalf :: out) r
      else stringRest strict fuel (ofNat n :: out) r
    | _ => none
  | fuel + 1, out, c :: rest => if c.toNat < 32 then none else stringRest strict fuel (c :: out) rest

def digitsValue : Nat := cs.foldl (fun n c => n * 10 + (c.toNat - 48)) 0

def isNumber (x : Float) : Bool := !(x.isNaN || x.isInf)

def double? (x : Float) : Option Value :=
  if strict && !isNumber x then none else some (.real x)

structure Numeral where
  negative : Bool
  whole : List Char
  fraction : Option (List Char)
  exponent : Option Int

def numeral? : Option (Numeral × List Char) :=
  let (negative, cs) := match cs with | '-' :: r => (true, r) | r => (false, r)
  let whole := cs.takeWhile isDigit
  let whole := if whole.head? == some '0' then ['0'] else whole
  let rest := cs.drop whole.length
  if whole.isEmpty then none
  else
    let (fraction, rest) :=
      match rest with
      | '.' :: r =>
        let ds := r.takeWhile isDigit
        if ds.isEmpty then (none, rest) else (some ds, r.drop ds.length)
      | _ => (none, rest)
    let (exponent, rest) : Option Int × List Char :=
      match rest with
      | e :: r =>
        if e == 'e' || e == 'E' then
          let (minus, r) :=
            match r with
            | '-' :: r => (true, r)
            | '+' :: r => (false, r)
            | r => (false, r)
          let ds := r.takeWhile isDigit
          if ds.isEmpty then (none, rest)
          else
            let n : Int := digitsValue ds
            (some (if minus then -n else n), r.drop ds.length)
        else (none, rest)
      | [] => (none, rest)
    some (⟨negative, whole, fraction, exponent⟩, rest)

/-- The number that is written: a whole one without fraction and exponent, or else a double. -/
def Numeral.value? (n : Numeral) : Option Value :=
  match n.fraction, n.exponent with
  | none, none =>
    let size : Int := digitsValue n.whole
    let i := if n.negative then -size else size
    if strict && !(-0x8000000000000000 ≤ i && i < 0x10000000000000000) then double? strict (Decimal.ofInt i)
    else some (.int i)
  | _, _ =>
    let ds := n.fraction.getD []
    let x := Decimal.toFloat (digitsValue (n.whole ++ ds)) (n.exponent.getD 0 - ds.length)
    double? strict (if n.negative then -x else x)

def number? : Option (Value × List Char) := do
  let (n, rest) ← numeral? cs
  return (← n.value? strict, rest)

def keyword? : Option (Value × List Char) :=
  let try_ (w : String) (v : Value) : Option (Value × List Char) :=
    (Text.dropHead? w.toList cs).map fun rest => (v, rest)
  (try_ "null" .null) <|> (try_ "true" true) <|> (try_ "false" false)
    <|> (if strict then none
      else (try_ "NaN" (.real (0.0 / 0.0))) <|> (try_ "Infinity" (.real (1.0 / 0.0)))
        <|> (try_ "-Infinity" (.real (-1.0 / 0.0))))

mutual

def value? (strict : Bool) : (fuel : Nat) → List Char → Option (Value × List Char)
  | 0, _ => none
  | fuel + 1, cs =>
    match cs with
    | '"' :: rest => (stringRest strict (rest.length + 1) [] rest).map fun r => (.text r.1, r.2)
    | '[' :: rest =>
      match skipSpace rest with
      | ']' :: after => some (.list [], after)
      | rest => items? strict fuel [] rest
    | '\x7b' :: rest =>
      match skipSpace rest with
      | '\x7d' :: after => some (.object [], after)
      | rest => fields? strict fuel [] rest
    | _ => (keyword? strict cs) <|> (number? strict cs)

def items? (strict : Bool) : (fuel : Nat) → (out : List Value) → List Char → Option (Value × List Char)
  | 0, _, _ => none
  | fuel + 1, out, cs =>
    match value? strict fuel cs with
    | none => none
    | some (v, rest) =>
      match skipSpace rest with
      | ',' :: more => items? strict fuel (v :: out) (skipSpace more)
      | ']' :: after => some (.list (v :: out).reverse, after)
      | _ => none

def fields? (strict : Bool) : (fuel : Nat) → (out : Fields) → List Char → Option (Value × List Char)
  | 0, _, _ => none
  | fuel + 1, out, cs =>
    match cs with
    | '"' :: rest =>
      match stringRest strict (rest.length + 1) [] rest with
      | none => none
      | some (key, rest) =>
        match skipSpace rest with
        | ':' :: rest =>
          match value? strict fuel (skipSpace rest) with
          | none => none
          | some (v, rest) =>
            match skipSpace rest with
            | ',' :: more => fields? strict fuel (out.set key v) (skipSpace more)
            | '\x7d' :: after => some (.object (out.set key v), after)
            | _ => none
        | _ => none
    | _ => none

end

def parseWith? : Option Value :=
  let cs := s.toList
  match value? strict (cs.length + 1) (skipSpace cs) with
  | some (v, rest) => if (skipSpace rest).isEmpty then some v else none
  | none => none

def parse? : Option Value := parseWith? false s

def parseStrict? : Option Value := parseWith? true s

def malformed : Fault := .met .malformed "Expecting value"

def parse (s : String) : Except Fault Value :=
  match parse? s with
  | some v => .ok v
  | none => .error malformed

def parseStrict (s : String) : Except Fault Value :=
  match parseStrict? s with
  | some v => .ok v
  | none => .error malformed

end Folio.Json

/-
# Value.Quoted -- the text of a document in messages

Messages show a text as it is, and everything else in a notation of its own: texts inside lists and objects stand in
quotes, nothing is `None`, truth values are `True` and `False`.  The quote is single unless the text holds a single
quote and no double one.  In quotes a character stands for itself when it is printable: neither a control, a format or a
private character, nor unassigned, nor a separator other than the plain space.
-/
import Folio.Value.Basic

namespace Folio.Text

/-- Runs of printable characters from 128 on, up to alphanumeric ones. -/
def printableRuns : List Nat := [
  33,12,1,714,6,2,4,7,107,314,42,49,2,3,1,55,43,2,17,22,1,192,1,48,3,58,91,12,57,16,2,49,2,15,26,3,2,1,41,7,9,74,1,
  161,56,9,2,2,2,4,8,1,10,2,14,13,2,3,56,1,1,5,4,2,2,3,3,1,30,7,10,3,56,10,1,3,1,3,20,2,12,2,8,6,1,3,56,9,2,2,2,3,7,3,
  10,2,12,8,10,2,58,5,3,3,1,4,9,1,27,8,5,13,47,9,1,3,1,4,7,2,11,2,19,22,47,9,1,3,1,4,7,2,11,2,28,13,46,10,1,3,1,6,7,
  13,21,7,1,3,70,1,4,6,1,1,1,8,18,3,60,10,4,29,85,13,10,6,51,71,41,39,1,36,1,15,1,13,80,155,53,334,276,32,19,10,102,
  640,27,2,78,14,25,4,28,5,27,2,30,2,64,42,34,14,1,11,107,38,117,12,4,12,4,1,3,42,112,62,2,65,1,29,2,11,22,14,2,31,49,
  77,13,37,1,116,8,60,3,15,52,11,55,8,8,43,197,342,167,8,8,7,9,19,13,2,17,24,8,47,27,21,17,33,15,33,15,140,4,663,25,
  11,81,1752,2,32,1,349,5,45,74,1,14,24,73,126,34,26,1,89,12,214,26,12,5,63,89,103,144,84,28,31,11,29283,3,55,55,302,
  67,137,8,203,55,43,9,4,58,4,8,70,8,12,6,116,11,30,3,78,16,33,42,14,12,11,14,103,27,25,100,17,119,11,20272,25,123,17,
  379,82,63,1,44,30,6,51,1,19,1,4,149,190,33,7,1,7,13,2,258,3,52,88,1,13,3,1,47,46,226,28,122,5,36,37,12,6,409,12,732,
  72,128,27,5,1,193,3,1,2,5,8,36,3,4,10,7,9,38,33,40,31,9,7,66,29,67,4,391,4,387,3,152,20,40,8,118,78,34,6,9,62,1,5,
  61,53,11,8,43,4,9,96,76,19,106,1,53,12,21,4,55,10,2,2,2,3,9,1,10,2,2,7,3,5,192,39,1,5,78,24,231,7,2,38,82,21,27,13,
  62,15,99,15,16,11,229,16,244,6,1,2,2,12,138,7,2,11,28,71,9,82,396,8,1,14,42,32,2,22,1,14,122,6,3,1,1,2,1,9,66,5,1,2,
  1,6,346,6,220,29,13,923,214,5,2940,2,14971,81,49,6,58,22,849,4,180,57,7,17,66,3,11,2,19626,4,4704,46,2,23,9,116,60,
  246,10,39,2,74,8,112,21,70,186,87,874,267,52,652,15,5,1,15,1360,7,1,17,2,7,1,2,1,5,261,14,17,1,350,1,61,14,5,1,1488,
  7,109,8,18,2,844,9,121,16,434,2,270,44,4,100,12,15,2,15,1,15,1,37,23,161,56,29,13,44,4,9,7,2,14,6,154,984,5,16,3,13,
  3,116,12,89,7,12,4,1,15,12,4,56,8,10,6,40,8,30,2,2,78,340,12,14,2,5,3,5,3,7,9,29,3,11,5,6,10,10,6,8,8,7,9,147,1,55,
  787765,240]

def isPrintable (c : Char) : Bool :=
  if c.toNat < 128 then 32 ≤ c.toNat && c.toNat < 127 else isAlnum c || inRuns printableRuns (c.toNat - 128)

end Folio.Text

namespace Folio.Value

open String Text

def hex (width n : Nat) : String :=
  padStart width '0' (ofList (Nat.toDigits 16 n))

def quotedChar (quote c : Char) : String :=
  if c == quote || c == '\\' then "\\" ++ singleton c
  else if c == '\n' then "\\n"
  else if c == '\r' then "\\r"
  else if c == '\t' then "\\t"
  else if isPrintable c then singleton c
  else if c.toNat < 256 then "\\x" ++ hex 2 c.toNat
  else if c.toNat < 65536 then "\\u" ++ hex 4 c.toNat
  else "\\U" ++ hex 8 c.toNat

def quoted (s : String) : String :=
  let cs := s.toList
  let quote := if cs.contains '\'' && !cs.contains '"' then '"' else '\''
  singleton quote ++ join (cs.map (quotedChar quote)) ++ singleton quote

def quotedMoment (t : Moment) : String :=
  let d := t.date
  let parts := [d.year, d.month, d.day, t.hour, t.minute]
    ++ (if t.micro != 0 then [t.second, t.micro] else if t.second != 0 then [t.second] else [])
  let zone :=
    match t.offset with
    | none => ""
    | some 0 => ", tzinfo=datetime.timezone.utc"
    | some o => ", tzinfo=datetime.timezone(datetime.timedelta(seconds="
        ++ toString (o / 1000000) ++ "))"
  "datetime.datetime(" ++ join ", " (parts.map toString) ++ zone ++ ")"

def quotedSpan (d : Span) : String :=
  let parts := [("days", d.days), ("seconds", d.seconds), ("microseconds", d.microseconds)]
  let shown := (parts.filter fun p => p.2 != 0).map fun p => p.1 ++ "=" ++ toString p.2
  "datetime.timedelta(" ++ (if shown.isEmpty then "0" else join ", " shown) ++ ")"

mutual

def notated : Value → String
  | .null => "None"
  | .bool b => if b then "True" else "False"
  | .int i => toString i
  | .real x => Decimal.text x
  | .text s => quoted s
  | .list xs => "[" ++ join ", " (notatedItems xs) ++ "]"
  | .object fs => "\x7b" ++ join ", " (notatedFields fs) ++ "\x7d"
  | .moment t => quotedMoment t
  | .span d => quotedSpan d

def notatedItems : List Value → List String
  | [] => []
  | x :: xs => notated x :: notatedItems xs

def notatedFields : List (String × Value) → List String
  | [] => []
  | (k, v) :: fs => (quoted k ++ ": " ++ notated v) :: notatedFields fs

end

def shown : Value → String
  | .text s => s
  | .moment t => t.text
  | .span d => d.text
  | v => notated v

instance : ToString Value := ⟨shown⟩

end Folio.Value

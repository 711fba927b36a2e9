/-
# Bytes.Utf8 -- text and bytes

Reading UTF-8 is strict (other bytes are a fault), lenient (they are passed over) or byte by byte.
-/
import Folio.Text.Pieces

namespace Folio

abbrev Bytes := List UInt8

namespace Bytes

def ofText (s : String) : Bytes := s.toUTF8.toList

def text? (bs : Bytes) : Option String := String.fromUTF8? ⟨bs.toArray⟩

def within (lo hi : UInt8) (b : UInt8) : Bool := lo ≤ b && b ≤ hi

/-- The ranges of the bytes that may follow a first byte; nothing when it opens no character. -/
def followers? (b : UInt8) : Option (List (UInt8 × UInt8)) :=
  let any : UInt8 × UInt8 := (0x80, 0xBF)
  if b < 0x80 then some []
  else if within 0xC2 0xDF b then some [any]
  else if b == 0xE0 then some [(0xA0, 0xBF), any]
  else if b == 0xED then some [(0x80, 0x9F), any]
  else if within 0xE1 0xEF b then some [any, any]
  else if b == 0xF0 then some [(0x90, 0xBF), any, any]
  else if b == 0xF4 then some [(0x80, 0x8F), any, any]
  else if within 0xF1 0xF3 b then some [any, any, any]
  else none

def fitting : List (UInt8 × UInt8) → Bytes → Nat
  | [], _ => 0
  | _ :: _, [] => 0
  | r :: rs, b :: bs => if within r.1 r.2 b then fitting rs bs + 1 else 0

/-- The bytes of whole characters; what belongs to none is passed over.  `skip` counts bytes
that are already settled, `keep` says whether they are part of a character. -/
def wholeFrom : (skip : Nat) → (keep : Bool) → Bytes → Bytes
  | _, _, [] => []
  | n + 1, keep, b :: bs => if keep then b :: wholeFrom n keep bs else wholeFrom n keep bs
  | 0, _, b :: bs =>
    match followers? b with
    | none => wholeFrom 0 false bs
    | some ranges =>
      let n := fitting ranges bs
      if n == ranges.length then b :: wholeFrom n true bs else wholeFrom n false bs

def textLenient (bs : Bytes) : String := (text? (wholeFrom 0 false bs)).getD ""

def textBytewise (bs : Bytes) : String := String.ofList (bs.map fun b => Char.ofNat b.toNat)

end Bytes

end Folio

/-
# Bytes.Sha256 -- the fingerprint of a file's content
-/
import Folio.Bytes.Utf8
import Folio.Value.Quoted

namespace Folio.Bytes

/-- The round constants: the first 32 bits of the fractional parts of the cube roots of the
first 64 primes. -/
def roundConstants : List UInt32 := [
  0x428a2f98, 0x71374491, 0xb5c0fbcf, 0xe9b5dba5, 0x3956c25b, 0x59f111f1, 0x923f82a4, 0xab1c5ed5,
  0xd807aa98, 0x12835b01, 0x243185be, 0x550c7dc3, 0x72be5d74, 0x80deb1fe, 0x9bdc06a7, 0xc19bf174,
  0xe49b69c1, 0xefbe4786, 0x0fc19dc6, 0x240ca1cc, 0x2de92c6f, 0x4a7484aa, 0x5cb0a9dc, 0x76f988da,
  0x983e5152, 0xa831c66d, 0xb00327c8, 0xbf597fc7, 0xc6e00bf3, 0xd5a79147, 0x06ca6351, 0x14292967,
  0x27b70a85, 0x2e1b2138, 0x4d2c6dfc, 0x53380d13, 0x650a7354, 0x766a0abb, 0x81c2c92e, 0x92722c85,
  0xa2bfe8a1, 0xa81a664b, 0xc24b8b70, 0xc76c51a3, 0xd192e819, 0xd6990624, 0xf40e3585, 0x106aa070,
  0x19a4c116, 0x1e376c08, 0x2748774c, 0x34b0bcb5, 0x391c0cb3, 0x4ed8aa4a, 0x5b9cca4f, 0x682e6ff3,
  0x748f82ee, 0x78a5636f, 0x84c87814, 0x8cc70208, 0x90befffa, 0xa4506ceb, 0xbef9a3f7, 0xc67178f2]

structure HashState where
  a : UInt32
  b : UInt32
  c : UInt32
  d : UInt32
  e : UInt32
  f : UInt32
  g : UInt32
  h : UInt32

def initialState : HashState :=
  ⟨0x6a09e667, 0xbb67ae85, 0x3c6ef372, 0xa54ff53a, 0x510e527f, 0x9b05688c, 0x1f83d9ab, 0x5be0cd19⟩

def rotr (n : UInt32) (x : UInt32) : UInt32 := (x >>> n) ||| (x <<< (32 - n))

def hashRound (s : HashState) (kw : UInt32 × UInt32) : HashState :=
  let s1 := rotr 6 s.e ^^^ rotr 11 s.e ^^^ rotr 25 s.e
  let ch := (s.e &&& s.f) ^^^ ((~~~ s.e) &&& s.g)
  let t1 := s.h + s1 + ch + kw.1 + kw.2
  let s0 := rotr 2 s.a ^^^ rotr 13 s.a ^^^ rotr 22 s.a
  let maj := (s.a &&& s.b) ^^^ (s.a &&& s.c) ^^^ (s.b &&& s.c)
  ⟨t1 + s0 + maj, s.a, s.b, s.c, s.d + t1, s.e, s.f, s.g⟩

/-- Extend the schedule by one word; the words stand in an array, the oldest first. -/
def extendSchedule (w : Array UInt32) : Array UInt32 :=
  let n := w.size
  let at_ (i : Nat) : UInt32 := w.getD (n - i) 0
  let x := at_ 15
  let y := at_ 2
  let s0 := rotr 7 x ^^^ rotr 18 x ^^^ (x >>> 3)
  let s1 := rotr 17 y ^^^ rotr 19 y ^^^ (y >>> 10)
  w.push (at_ 16 + s0 + at_ 7 + s1)

def wordsOf : Bytes → List UInt32
  | a :: b :: c :: d :: rest =>
    ((a.toUInt32 <<< 24) ||| (b.toUInt32 <<< 16) ||| (c.toUInt32 <<< 8) ||| d.toUInt32)
      :: wordsOf rest
  | _ => []

def hashBlock (s : HashState) (block : List UInt32) : HashState :=
  let schedule := (List.range 48).foldl (fun w _ => extendSchedule w) block.toArray
  let t := (roundConstants.zip schedule.toList).foldl hashRound s
  ⟨s.a + t.a, s.b + t.b, s.c + t.c, s.d + t.d, s.e + t.e, s.f + t.f, s.g + t.g, s.h + t.h⟩

def hashBlocks : (fuel : Nat) → HashState → List UInt32 → HashState
  | 0, s, _ => s
  | fuel + 1, s, ws =>
    if ws.isEmpty then s else hashBlocks fuel (hashBlock s (ws.take 16)) (ws.drop 16)

def padded (bs : Bytes) : Bytes :=
  let n := bs.length
  let zeros := (55 + 64 - n % 64) % 64
  let bits := n * 8
  bs ++ 0x80 :: List.replicate zeros 0
    ++ (List.range 8).map fun i => UInt8.ofNat (bits / Nat.pow 256 (7 - i))

def sha256 (bs : Bytes) : String :=
  let ws := wordsOf (padded bs)
  let s := hashBlocks (ws.length + 1) initialState ws
  String.join ([s.a, s.b, s.c, s.d, s.e, s.f, s.g, s.h].map fun w => Value.hex 8 w.toNat)

end Folio.Bytes

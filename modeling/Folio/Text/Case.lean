/-
# Text.Case -- small letters, capitals and title case

The case maps of the character database.  A map sends a character to the characters that spell
it: nearly always one, sometimes several (the capital of a sharp s is two letters).  Text is
mapped character by character, with one rule that looks around: a capital sigma at the end of a
word becomes the final small sigma.
-/
import Folio.Text.Alnum

namespace Folio.Text

open Char String

variable (c : Char) (s : String)

/-- Runs `(first, last, step, shift)` of characters from code point `n` on, told by the gap before each run, how many
characters it has after the first, and their shift.  In a run of shift one every other character counts. -/
def runsFrom (n : Nat) : List (Nat × Nat × Int) → List (Nat × Nat × Nat × Int)
  | [] => []
  | (gap, more, shift) :: rest =>
    let step := if shift == 1 then 2 else 1
    (n + gap, n + gap + more * step, step, shift) :: runsFrom (n + gap + more * step + 1) rest

/-- Runs of characters from 128 on whose small form is one character. -/
def lowerRuns : List (Nat × Nat × Nat × Int) := runsFrom 128 [
  (64,22,32),(1,6,32),(33,23,1),(3,2,1),(2,7,1),(2,22,1),(1,0,-121),(0,2,1),(3,0,210),(0,1,1),(1,0,206),(0,0,1),
  (1,1,205),(0,0,1),(2,0,79),(0,0,202),(0,0,203),(0,0,1),(1,0,205),(0,0,207),(1,0,211),(0,0,209),(0,0,1),(3,0,211),
  (0,0,213),(1,0,214),(0,2,1),(1,0,218),(0,0,1),(1,0,218),(2,0,1),(1,0,218),(0,0,1),(1,1,217),(0,1,1),(1,0,219),
  (0,0,1),(3,0,1),(7,0,2),(0,0,1),(1,0,2),(0,0,1),(1,0,2),(0,8,1),(2,8,1),(2,0,2),(0,1,1),(1,0,-97),(0,0,-56),
  (0,19,1),(1,0,-130),(1,8,1),(7,0,10795),(0,0,1),(1,0,-163),(0,0,10792),(2,0,1),(1,0,-195),(0,0,69),(0,0,71),(0,4,1),
  (289,1,1),(3,0,1),(8,0,116),(6,0,38),(1,2,37),(1,0,64),(1,1,63),(1,16,32),(1,8,32),(35,0,8),(8,11,1),(5,0,-60),
  (2,0,1),(1,0,-7),(0,0,1),(2,2,-130),(0,15,80),(0,31,32),(48,16,1),(9,26,1),(1,0,15),(0,6,1),(2,47,1),(2,37,48),
  (2889,37,7264),(1,0,7264),(5,0,7264),(722,79,38864),(0,5,8),(2202,42,-3008),(2,2,-3008),(320,74,1),(9,0,-7615),
  (1,47,1),(9,7,-8),(8,5,-8),(10,7,-8),(8,7,-8),(8,5,-8),(11,0,-8),(1,0,-8),(1,0,-8),(1,0,-8),(8,7,-8),(24,7,-8),
  (8,7,-8),(8,7,-8),(8,1,-8),(0,1,-74),(0,0,-9),(11,3,-86),(0,0,-9),(11,1,-8),(0,1,-100),(12,1,-8),(0,1,-112),
  (0,0,-7),(11,1,-128),(0,1,-126),(0,0,-9),(297,0,-7517),(3,0,-8383),(0,0,-8262),(6,0,28),(45,15,16),(19,0,1),
  (818,25,26),(1840,47,48),(48,0,1),(1,0,-10743),(0,0,-3814),(0,0,-10727),(2,2,1),(1,0,-10780),(0,0,-10749),
  (0,0,-10783),(0,0,-10782),(1,0,1),(2,0,1),(8,1,-10815),(0,49,1),(8,1,1),(4,0,1),(31053,22,1),(19,13,1),(135,6,1),
  (3,30,1),(10,1,1),(1,0,-35332),(0,4,1),(4,0,1),(1,0,-42280),(2,1,1),(3,9,1),(1,0,-42308),(0,0,-42319),(0,0,-42315),
  (0,0,-42305),(0,0,-42308),(1,0,-42258),(0,0,-42282),(0,0,-42261),(0,0,928),(0,7,1),(1,0,-48),(0,0,-42307),
  (0,0,-35384),(0,1,1),(6,0,1),(5,1,1),(28,0,1),(22315,25,32),(1221,39,40),(136,35,40),(156,10,39),(1,14,39),(1,6,39),
  (1,1,39),(1770,50,64),(3053,31,32),(21888,31,32),(31392,33,34)]

/-- Runs of small characters from 128 on that their capital form does not have for its own small form. -/
def capitalRuns : List (Nat × Nat × Nat × Int) := runsFrom 128 [
  (53,0,743),(123,0,-232),(77,0,-300),(69,0,-1),(2,0,-1),(2,0,-1),(38,0,-1),(338,0,84),(124,0,-31),(13,0,-62),
  (0,0,-57),(3,0,-47),(0,0,-54),(25,0,-86),(0,0,-80),(3,0,-96),(6282,0,-6254),(0,0,-6253),(0,0,-6244),(0,1,-6242),
  (0,0,-6243),(0,0,-6236),(0,0,-6181),(0,0,35266),(530,0,-59),(290,0,-7205)]

/-- Runs of characters from 128 on whose capital form is one character: nearly always the one whose small form they
are. -/
def upperRuns : List (Nat × Nat × Nat × Int) :=
  capitalRuns ++ lowerRuns.map fun (first, last, step, shift) =>
    ((first + shift).toNat, (last + shift).toNat, step, -shift)

/-- Runs of characters whose capital form is another character and a capital iota. -/
def iotaRuns : List (Nat × Nat × Nat × Int) := [
  (8064, 8071, 1, -120), (8072, 8079, 1, -128), (8080, 8087, 1, -104), (8088, 8095, 1, -112),
  (8096, 8103, 1, -56), (8104, 8111, 1, -64)]

/-- Other characters whose capital form is spelled with several characters. -/
def upperSpelled : List (Nat × List Nat) := [
  (223,[83,83]),(329,[700,78]),(496,[74,780]),(912,[921,776,769]),(944,[933,776,769]),(1415,[1333,1362]),
  (7830,[72,817]),(7831,[84,776]),(7832,[87,778]),(7833,[89,778]),(7834,[65,702]),(8016,[933,787]),
  (8018,[933,787,768]),(8020,[933,787,769]),(8022,[933,787,834]),(8114,[8122,921]),(8115,[913,921]),(8116,[902,921]),
  (8118,[913,834]),(8119,[913,834,921]),(8124,[913,921]),(8130,[8138,921]),(8131,[919,921]),(8132,[905,921]),
  (8134,[919,834]),(8135,[919,834,921]),(8140,[919,921]),(8146,[921,776,768]),(8147,[921,776,769]),(8150,[921,834]),
  (8151,[921,776,834]),(8162,[933,776,768]),(8163,[933,776,769]),(8164,[929,787]),(8166,[933,834]),
  (8167,[933,776,834]),(8178,[8186,921]),(8179,[937,921]),(8180,[911,921]),(8182,[937,834]),(8183,[937,834,921]),
  (8188,[937,921]),(64256,[70,70]),(64257,[70,73]),(64258,[70,76]),(64259,[70,70,73]),(64260,[70,70,76]),
  (64261,[83,84]),(64262,[83,84]),(64275,[1348,1350]),(64276,[1348,1333]),(64277,[1348,1339]),(64278,[1358,1350]),
  (64279,[1348,1341])]

/-- Runs of characters whose form at the head of a word is one character, and not their capital form. -/
def titleRuns : List (Nat × Nat × Nat × Int) := runsFrom 128 [
  (324,0,1),(0,0,0),(0,0,-1),(0,0,1),(0,0,0),(0,0,-1),(0,0,1),(0,0,0),(0,0,-1),(36,0,1),(0,0,0),(0,0,-1),(3804,42,0),
  (2,2,0),(3712,7,8),(0,7,0),(0,7,8),(0,7,0),(0,7,8),(0,7,0),(3,0,9),(8,0,0),(6,0,9),(8,0,0),(38,0,9),(8,0,0)]

/-- Runs of characters from 128 on that have case, up to those whose small or capital form is another. -/
def casedRuns : List Nat := [
  42,1,15,1,125,131,3,2,97,115,1,36,7,2,30,5,149,4,84,36,6,134,222,41,6007,192,220,122,347,1,13,1,16,13,101,1,4,1,2,
  10,1,1,3,5,6,1,3,1,3,2,1,6,4,1,2,4,5,5,2855,116,31159,2,146,88,6,1,6,54,8,1,1,5,30,3,821,43,1,13,23575,1,2,3,1,42,1,
  9,52293,85,1,71,1,2,2,1,2,2,2,4,1,12,1,1,1,7,1,65,1,4,2,8,1,7,1,28,1,4,1,5,1,1,3,7,1,340,2,25,1,25,1,31,1,25,1,31,1,
  25,1,31,1,25,1,31,1,25,1,8,1844,10,1,20,4625,26,6,26,6,26]

/-- The character at code point `n` moved by the shift of the first run that holds it. -/
def shifted? (runs : List (Nat × Nat × Nat × Int)) (n : Nat) : Option Char :=
  (runs.find? fun r => r.1 ≤ n && n ≤ r.2.1 && (n - r.1) % r.2.2.1 == 0).map fun r =>
    ofNat ((n : Int) + r.2.2.2).toNat

def lowerChar : Char :=
  if c.toNat < 128 then c.toLower
  else if c.toNat == 304 then 'i'
  else (shifted? lowerRuns c.toNat).getD c

def lowerSpelling : List Char :=
  if c.toNat == 304 then ['i', ofNat 775] else [lowerChar c]

def upperSpelling : List Char :=
  if c.toNat < 128 then [c.toUpper]
  else
    match upperSpelled.lookup c.toNat, shifted? iotaRuns c.toNat with
    | some points, _ => points.map ofNat
    | none, some bare => [bare, ofNat 921]
    | none, none => [(shifted? upperRuns c.toNat).getD c]

/-- At the head of a word the first character is a capital, and the rest are small; an iota after it stands below. -/
def titleSpelling : List Char :=
  match shifted? titleRuns c.toNat, upperSpelling c with
  | some t, _ => [t]
  | none, first :: rest => first ::
    -- An apostrophe is no capital: the letter after it is.
    if c.toNat == 329 then rest else rest.map fun x => if x.toNat == 921 then ofNat 837 else lowerChar x
  | none, [] => []

def isCased : Bool :=
  if c.toNat < 128 then c.isAlpha
  else inRuns casedRuns (c.toNat - 128) || lowerChar c != c || upperSpelling c != [c]

/-- Characters that a word's end looks through when it is sought. -/
def isCaseIgnorable : Bool :=
  c == '\'' || c == '.' || c == ':' || c == '^' || c.toNat == 96 || c.toNat == 173
    || (768 ≤ c.toNat && c.toNat ≤ 879)

/-- Whether a capital sigma between `before` (nearest first) and `after` ends a word. -/
def isFinalSigma (before after : List Char) : Bool :=
  (match before.dropWhile isCaseIgnorable with
    | c :: _ => isCased c
    | [] => false)
    && (match after.dropWhile isCaseIgnorable with
      | c :: _ => !isCased c
      | [] => true)

/-- Small forms of the characters of a text whose reversed past is `before`. -/
def lowerCharsFrom (before : List Char) : List Char → List Char
  | [] => []
  | c :: rest =>
    (if c.toNat == 931 then
        [ofNat (if isFinalSigma before rest then 962 else 963)]
      else lowerSpelling c)
      ++ lowerCharsFrom (c :: before) rest

def lower : String :=
  if s.toList.all fun c => c.toNat < 128 then ofList (s.toList.map toLower)
  else ofList (lowerCharsFrom [] s.toList)

def upper : String :=
  ofList (s.toList.flatMap upperSpelling)

/-- Title case from a state that says whether the last character had case. -/
def titleCharsFrom (before : List Char) (inWord : Bool) : List Char → List Char
  | [] => []
  | c :: rest =>
    (if inWord then
        if c.toNat == 931 then [ofNat (if isFinalSigma before rest then 962 else 963)]
        else lowerSpelling c
      else titleSpelling c)
      ++ titleCharsFrom (c :: before) (isCased c) rest

/-- Every word starts with its title form and goes on in small letters; a word is a run of
characters that have case. -/
def title : String :=
  ofList (titleCharsFrom [] false s.toList)

end Folio.Text

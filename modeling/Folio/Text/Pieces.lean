/-
# Text.Pieces -- cutting, trimming and joining text

Text is cut, trimmed, searched and joined by code points.  Every operation is a function on
lists of characters with a short form on `String`, so that laws are stated on the lists and
callers stay readable.
-/
import Folio.Text.Alnum

namespace Folio.Text

open String

variable (n : Nat) (s : String)

/-! ## Blanks -/

def isBlank (c : Char) : Bool :=
  let n := c.toNat
  (9 ≤ n && n ≤ 13) || (28 ≤ n && n ≤ 32) || n == 133 || n == 160 || n == 5760
    || (8192 ≤ n && n ≤ 8202) || n == 8232 || n == 8233 || n == 8239 || n == 8287 || n == 12288

def dropEndWhile (p : Char → Bool) (cs : List Char) : List Char :=
  (cs.reverse.dropWhile p).reverse

def trimWhile (p : Char → Bool) (cs : List Char) : List Char :=
  dropEndWhile p (cs.dropWhile p)

def trim : String := ofList (trimWhile isBlank s.toList)

def trimStartChars (marks : String) (s : String) : String :=
  ofList (s.toList.dropWhile (marks.toList.contains ·))

def trimEndChars (marks : String) (s : String) : String :=
  ofList (dropEndWhile (marks.toList.contains ·) s.toList)

def isEmpty : Bool := s == ""

def isBlankText : Bool := s.toList.all isBlank

/-! ## Searching -/

def dropHead? : (needle text : List Char) → Option (List Char)
  | [], text => some text
  | _ :: _, [] => none
  | a :: as, b :: bs => if a == b then dropHead? as bs else none

def startsWithChars (needle text : List Char) : Bool := (dropHead? needle text).isSome

def containsChars (needle : List Char) : List Char → Bool
  | [] => needle.isEmpty
  | c :: cs => startsWithChars needle (c :: cs) || containsChars needle cs

def contains (s needle : String) : Bool := containsChars needle.toList s.toList

def startsWith (s head : String) : Bool := startsWithChars head.toList s.toList

def endsWith (s tail : String) : Bool := startsWithChars tail.toList.reverse s.toList.reverse

def indexOfChars? (needle : List Char) (pos : Nat) : List Char → Option Nat
  | [] => if needle.isEmpty then some pos else none
  | c :: cs =>
    if startsWithChars needle (c :: cs) then some pos else indexOfChars? needle (pos + 1) cs

def indexFrom? (s needle : String) (start : Nat) : Option Nat :=
  if start > s.length then none else indexOfChars? needle.toList start (s.toList.drop start)

def indexOf? (s needle : String) : Option Nat := indexOfChars? needle.toList 0 s.toList

def containsAny (needles : List String) : Bool :=
  let cs := s.toList
  needles.any fun n => containsChars n.toList cs

/-- Cut at every occurrence of a separator, from left to right.  `skip` counts the characters
of the current separator that are still to be passed; `piece` is the current piece, reversed. -/
def cutFrom (sep : List Char) (skip : Nat) (piece : List Char) : List Char → List (List Char)
  | [] => [piece.reverse]
  | c :: cs =>
    match skip with
    | n + 1 => cutFrom sep n piece cs
    | 0 =>
      if startsWithChars sep (c :: cs) then piece.reverse :: cutFrom sep (sep.length - 1) [] cs
      else cutFrom sep 0 (c :: piece) cs

def splitOn (s sep : String) : List String :=
  (cutFrom sep.toList 0 [] s.toList).map ofList

def count (s needle : String) : Nat := (cutFrom needle.toList 0 [] s.toList).length - 1

def replace (s old new : String) : String := intercalate new (splitOn s old)

def splitFirst? (s sep : String) : Option (String × String) :=
  match splitOn s sep with
  | first :: second :: rest => some (first, intercalate sep (second :: rest))
  | _ => none

def splitLast? (s sep : String) : Option (String × String) :=
  match (splitOn s sep).reverse with
  | last :: second :: rest => some (intercalate sep (second :: rest).reverse, last)
  | _ => none

def wordsFrom (piece : List Char) : List Char → List (List Char)
  | [] => if piece.isEmpty then [] else [piece.reverse]
  | c :: cs =>
    if isBlank c then
      if piece.isEmpty then wordsFrom [] cs else piece.reverse :: wordsFrom [] cs
    else wordsFrom (c :: piece) cs

def words : List String := (wordsFrom [] s.toList).map ofList

/-! ## Lines -/

def isLineBreak (c : Char) : Bool :=
  let n := c.toNat
  (10 ≤ n && n ≤ 13) || (28 ≤ n && n ≤ 30) || n == 133 || n == 8232 || n == 8233

/-- Lines of a text; `afterReturn` says that the last character was a carriage return whose
line feed, if one follows, belongs to it. -/
def linesFrom (afterReturn : Bool) (piece : List Char) : List Char → List (List Char)
  | [] => if piece.isEmpty then [] else [piece.reverse]
  | c :: cs =>
    if afterReturn && c == '\n' then linesFrom false piece cs
    else if isLineBreak c then piece.reverse :: linesFrom (c == '\r') [] cs
    else linesFrom false (c :: piece) cs

/-- The lines of a text without their ends; a break at the very end opens no further line. -/
def lines : List String := (linesFrom false [] s.toList).map ofList

/-- Line ends as a text reader delivers them: a carriage return, alone or with its line feed,
becomes one line feed. -/
def unifyLineEnds : List Char → List Char
  | [] => []
  | '\r' :: '\n' :: cs => '\n' :: unifyLineEnds cs
  | '\r' :: cs => '\n' :: unifyLineEnds cs
  | c :: cs => c :: unifyLineEnds cs

def withUnifiedLineEnds : String :=
  if s.toList.contains '\r' then ofList (unifyLineEnds s.toList) else s

/-! ## Parts and padding -/

def takeChars : String := ofList (s.toList.take n)

def dropChars : String := ofList (s.toList.drop n)

def slice (start stop : Nat) : String :=
  ofList ((s.toList.take stop).drop start)

def dropTail (s tail : String) : String :=
  if endsWith s tail then ofList (s.toList.take (s.length - tail.length)) else s

def repeated : String := join (List.replicate n s)

def padStart (width : Nat) (fill : Char) (s : String) : String :=
  ofList (List.replicate (width - s.length) fill) ++ s

def join (sep : String) (parts : List String) : String := intercalate sep parts

def le (a b : String) : Bool := decide (a < b) || a == b

def sorted (xs : List String) : List String := xs.mergeSort le

def collapsed : String := join " " (words s)

def uniqueBy {α β : Type} [BEq β] (key : α → β) (xs : List α) : List α :=
  (xs.foldl (fun (acc : List β × List α) x =>
    if acc.1.contains (key x) then acc else (key x :: acc.1, x :: acc.2)) ([], [])).2.reverse

def unique {α : Type} [BEq α] (xs : List α) : List α :=
  xs.foldl (fun seen x => if seen.contains x then seen else seen ++ [x]) []

end Folio.Text

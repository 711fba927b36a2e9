/-
# Path -- places in a directory tree

A path is a root mark and a list of names.  Empty names and single dots are dropped when a path
is read, so equal places that differ only in such marks have one form.
-/
import Folio.Text.Case
import Folio.Text.Pieces

namespace Folio

/-- A place in a directory tree: `root` is empty for a relative path. -/
structure Path where
  root : String
  parts : List String
  deriving Repr, DecidableEq, Inhabited

namespace Path

variable (p : Path)

/-- Read a path.  Two leading slashes, and no more, are kept apart from one. -/
def ofString (s : String) : Path :=
  let slashes := (s.toList.takeWhile (· == '/')).length
  let root := if slashes == 0 then "" else if slashes == 2 then "//" else "/"
  ⟨root, (Text.splitOn s "/").filter fun p => p != "" && p != "."⟩

def text : String :=
  if p.root == "" && p.parts.isEmpty then "." else p.root ++ Text.join "/" p.parts

def isAbsolute : Bool := p.root != ""

def join (p q : Path) : Path :=
  if q.isAbsolute then q else ⟨p.root, p.parts ++ q.parts⟩

def child (s : String) : Path := p.join (ofString s)

def entry (name : String) : Path := ⟨p.root, p.parts ++ [name]⟩

def parent : Path := ⟨p.root, p.parts.dropLast⟩

def name : String := p.parts.getLast?.getD ""

def suffixStart? (name : String) : Option Nat :=
  let tail := (name.toList.reverse.takeWhile (· != '.')).length
  let n := name.length
  if tail == 0 || tail + 1 ≥ n then none else some (n - tail - 1)

/-- The suffix of a name with its dot; empty when the only dot is at an end. -/
def nameSuffix (name : String) : String :=
  match suffixStart? name with
  | some i => Text.dropChars i name
  | none => ""

def nameStem (name : String) : String :=
  match suffixStart? name with
  | some i => Text.takeChars i name
  | none => name

def suffix : String := nameSuffix p.name

def stem : String := nameStem p.name

def allParts : List String :=
  if p.root == "" then p.parts else p.root :: p.parts

def isUnder (p base : Path) : Bool :=
  p.root == base.root && base.parts.isPrefixOf p.parts

def relativeTo? (p base : Path) : Option Path :=
  if p.isUnder base then some ⟨"", p.parts.drop base.parts.length⟩ else none

def withName (name : String) : Path := ⟨p.root, p.parts.dropLast ++ [name]⟩

def withSuffix (suffix : String) : Path := p.withName (p.stem ++ suffix)

def normalParts (parts : List String) : List String :=
  (parts.foldl (fun acc x =>
    if x == ".." then acc.drop 1 else x :: acc) []).reverse

def le (p q : Path) : Bool :=
  let rec go : List String → List String → Bool
    | [], _ => true
    | _ :: _, [] => false
    | a :: as, b :: bs => if a == b then go as bs else decide (a < b)
  go p.allParts q.allParts

end Path

end Folio

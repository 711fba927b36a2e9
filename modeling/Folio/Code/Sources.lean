/-
# Code.Sources -- from files to parsed sources

Parsing is left to the parsers of the languages, which are given as functions.  Here the files of a project are found,
read and handed to them.  In the names that are looked for a star stands for any stretch, a question mark for any
character, and brackets for one character of a set, or of none of it after an exclamation mark.
-/
import Folio.Code.Report
import Folio.Code.Tree
import Folio.Disk

namespace Folio.Text

inductive GlobPiece where
  | stretch
  | any
  | oneOf (negated : Bool) (ranges : List (Char × Char))
  | exactly (c : Char)
  deriving Repr, DecidableEq

/-- The ranges inside brackets; a bar at an end stands for itself. -/
def globRanges : List Char → List (Char × Char)
  | a :: '-' :: b :: rest => (a, b) :: globRanges rest
  | a :: rest => (a, a) :: globRanges rest
  | [] => []

/-- The text inside brackets and what follows them; the first character never closes them. -/
def bracketed? (cs : List Char) : Option (Bool × List Char × List Char) :=
  let (negated, body) := match cs with | '!' :: rest => (true, rest) | _ => (false, cs)
  match body with
  | [] => none
  | first :: rest =>
    let inner := rest.takeWhile (· != ']')
    match rest.drop inner.length with
    | _ :: after => some (negated, first :: inner, after)
    | [] => none

def globPieces : (fuel : Nat) → List Char → List GlobPiece
  | 0, _ => []
  | _, [] => []
  | fuel + 1, '*' :: rest => .stretch :: globPieces fuel rest
  | fuel + 1, '?' :: rest => .any :: globPieces fuel rest
  | fuel + 1, '[' :: rest =>
    match bracketed? rest with
    | some (negated, inner, after) => .oneOf negated (globRanges inner) :: globPieces fuel after
    | none => .exactly '[' :: globPieces fuel rest
  | fuel + 1, c :: rest => .exactly c :: globPieces fuel rest

def GlobPiece.fits : GlobPiece → Char → Bool
  | .stretch, _ => true
  | .any, _ => true
  | .oneOf negated ranges, c => (ranges.any fun r => r.1 ≤ c && c ≤ r.2) != negated
  | .exactly a, c => a == c

def rests : List Char → List (List Char)
  | [] => [[]]
  | c :: cs => (c :: cs) :: rests cs

def globCovers : List GlobPiece → List Char → Bool
  | [], cs => cs.isEmpty
  | .stretch :: ps, cs => (rests cs).any (globCovers ps)
  | p :: ps, c :: cs => p.fits c && globCovers ps cs
  | _ :: _, [] => false

def matchesGlob (glob name : String) : Bool :=
  globCovers (globPieces (glob.length + 1) glob.toList) name.toList

end Folio.Text

namespace Folio.Code

variable (d : Disk) (root : Path)

/-- The parsers of the languages.  A parser may refuse a text; only one of them says why. -/
structure Parsers where
  python : String → Option Ast
  java : String → Except String Ast
  javascript : String → Option Ast
  cpp : String → Option Tree
  csharp : String → Option Tree

def Parsers.refusing : Parsers :=
  ⟨fun _ => .none, fun _ => .error "", fun _ => .none, fun _ => .none, fun _ => .none⟩

def toolDirs : List String := [".git", "__pycache__", ".venv", "venv", "env"]

def named (suffix : String) : List Path :=
  (d.below root).filter fun p => Text.matchesGlob ("*" ++ suffix) p.name

def Parsers.parsePython (ps : Parsers) (d : Disk) (p : Path) : Parsed Ast :=
  match d.text p with
  | .error _ => .unreadable
  | .ok s =>
    match ps.python s with
    | some t => .tree t
    | none => .rejected

def Parsers.parseJavaScript (ps : Parsers) (d : Disk) (p : Path) : Parsed Ast :=
  match d.content p with
  | .error _ => .unreadable
  | .ok c =>
    match ps.javascript c.textLenient with
    | some t => .tree t
    | none => .rejected

def pythonFiles : List Path :=
  (named d root ".py").filter fun p => !isAmong toolDirs p

def javaScriptFiles : List Path :=
  (named d root ".js").filter fun p => !isAmong ["node_modules", ".git", "dist", "build"] p

end Folio.Code

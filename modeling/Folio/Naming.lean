/-
# Naming -- names that are safe to use for files

A display name becomes part of a file name: blanks at its ends go, spaces and unsafe characters
become low lines, runs of low lines shrink to one, and dots and low lines at the ends go.  What
is left may be nothing; then a fallback name stands in.
-/
import Folio.Text.Pieces

namespace Folio.Naming

def isUnsafeMark (c : Char) : Bool := "<>:\"/\\|?*".toList.contains c

def isUnsafe (c : Char) : Bool := isUnsafeMark c || c.toNat < 32

def squeeze : List Char → List Char
  | '_' :: '_' :: cs => squeeze ('_' :: cs)
  | c :: cs => c :: squeeze cs
  | [] => []
termination_by cs => cs.length

def isFringe (c : Char) : Bool := c == '.' || c == '_'

def safeChars (bad : Char → Bool) (cs : List Char) : List Char :=
  let trimmed := Text.trimWhile Text.isBlank cs
  let marked := trimmed.map fun c => if c == ' ' || bad c then '_' else c
  Text.trimWhile isFringe (squeeze marked)

/-- A safe name, or the fallback when nothing is left. -/
def safeWith (bad : Char → Bool) (fallback name : String) : String :=
  let out := safeChars bad name.toList
  if out.isEmpty then fallback else String.ofList out

def project (name : String) : String := safeWith isUnsafe "project" name

def document (name : String) : String := safeWith isUnsafe "document" name

/-- A part of the name of a rendered file; control characters are kept. -/
def component (name : String) : String := safeWith isUnsafeMark "document" name

/-- The file stem of a thumbnail: unsafe marks become low lines, dots and spaces at the ends go,
and at most 200 characters are kept. -/
def thumbnail (name : String) : String :=
  let marked := name.toList.map fun c => if isUnsafeMark c then '_' else c
  String.ofList ((Text.trimWhile (fun c => c == '.' || c == ' ') marked).take 200)

def internalFiles : List String :=
  ["UserConfigs.json", "project_insights.json", "dedup_index.json",
    "representation_preferences.json"]

end Folio.Naming

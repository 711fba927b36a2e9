/-
# Store -- projects with all their versions

The store holds two tables: one entry per project, which says which version is current, and one row per version.
Writing a project adds a version; deleting a project deletes its versions with it; old versions can be dropped.

An entry is known by its name together with the second in which the project was first written, and a version refers to
its entry by both.  A version without such an entry is a fault, and so is a second version with the same reference and
number.
-/
import Folio.Bytes.Utf8
import Folio.Value.Basic

namespace Folio

namespace Store

/-- The entry of a project: its newest content, the bytes it was written from, the second in which
the project was first written and the number of the current version. -/
structure Entry where
  name : String
  content : Value
  blob : Bytes
  uploaded : Int
  current : Nat

structure Version where
  name : String
  uploaded : Int
  number : Nat
  content : Value
  blob : Bytes

def Version.refersTo (v : Version) (e : Entry) : Bool :=
  v.name == e.name && v.uploaded == e.uploaded

end Store

structure Store where
  entries : List Store.Entry
  versions : List Store.Version

namespace Store

variable (s : Store) (e : Entry) (now : Int) (name : String)

def empty : Store := ⟨[], []⟩

def find? : Option Entry := s.entries.find? (·.name == name)

def has : Bool := s.entries.any (·.name == name)

def versionsNamed : List Version := s.versions.filter (·.name == name)

def versionsOf : List Version := s.versions.filter (·.refersTo e)

def newest : Nat :=
  ((s.versionsNamed name).map (·.number)).foldl Nat.max 0

def numberTaken : Fault := .met .notUnique "UNIQUE constraint failed"

def noEntry : Fault := .met .notUnique "FOREIGN KEY constraint failed"

def addVersion (v : Version) : Except Fault Store :=
  if s.versions.any fun w => w.name == v.name && w.uploaded == v.uploaded && w.number == v.number then
    .error numberTaken
  else if s.entries.any v.refersTo then .ok { s with versions := s.versions ++ [v] }
  else .error noEntry

def putEntry : Store :=
  if s.has e.name then
    { s with entries := s.entries.map fun x => if x.name == e.name then e else x }
  else { s with entries := s.entries ++ [e] }

def uploadOf (now : Int) : Int :=
  ((s.find? name).map (·.uploaded)).getD now

def writeAs (number : Nat) (content : Value) (blob : Bytes) : Except Fault Store :=
  let uploaded := s.uploadOf name now
  (s.putEntry ⟨name, content, blob, uploaded, number⟩).addVersion
    ⟨name, uploaded, number, content, blob⟩

/-- Write a project, new or known; the second component says whether it was known. -/
def insert (content : Value) (blob : Bytes) : Except Fault (Store × Bool) := do
  return (← s.writeAs now name (s.newest name + 1) content blob, s.has name)

def update? (content : Value) (blob : Bytes) : Except Fault (Option Store) :=
  match s.find? name with
  | none => .ok none
  | some e => do return some (← s.writeAs now name (e.current + 1) content blob)

def delete : Store :=
  let gone := s.entries.filter (·.name == name)
  ⟨s.entries.filter (·.name != name), s.versions.filter fun v => !gone.any v.refersTo⟩

def numbers : List Nat :=
  ((s.versionsOf e).map (·.number)).mergeSort fun a b => b ≤ a

/-- The version numbers that pruning keeps: the `keep` highest, or all for a negative `keep`. -/
def keptNumbers (keep : Int) : List Nat :=
  if keep < 0 then s.numbers e else (s.numbers e).take keep.toNat

/-- Drop all but the newest versions of a project, none when none would be left; the second
component counts the dropped ones. -/
def prune (keep : Int) : Store × Nat :=
  match s.find? name with
  | none => (s, 0)
  | some e =>
    let kept := s.keptNumbers e keep
    if kept.isEmpty then (s, 0)
    else
      let rest := s.versions.filter fun v => !v.refersTo e || kept.contains v.number
      ({ s with versions := rest }, s.versions.length - rest.length)

def content? : Option Value := (s.find? name).map (·.content)

def blob? : Option Bytes := (s.find? name).map (·.blob)

def version? (number : Int) : Option Version :=
  (s.versionsNamed name).find? fun v => (v.number : Int) == number

structure VersionLine where
  number : Nat
  isCurrent : Bool
  deriving Repr, DecidableEq

def VersionLine.toValue (l : VersionLine) : Value :=
  .object [("version_number", l.number), ("is_current", l.isCurrent)]

structure ProjectLine where
  name : String
  current : Nat
  versions : Nat
  deriving Repr, DecidableEq

def ProjectLine.toValue (l : ProjectLine) : Value := .object [
  ("project_name", l.name), ("current_version", l.current),
  ("total_versions", l.versions)]

def projectLines : List ProjectLine :=
  s.entries.map fun e => ⟨e.name, e.current, (s.versionsOf e).length⟩

def versionLines : List VersionLine :=
  match s.find? name with
  | none => []
  | some e => (s.numbers e).map fun n => ⟨n, n == e.current⟩

def count : Nat := (s.entries.filter (·.name == name)).length

def names : List String := s.entries.map (·.name)

end Store

end Folio

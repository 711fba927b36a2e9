/-
# Dedup -- files that were seen before

The index remembers, by the fingerprint of its content, in which project and at which path a file was first seen.  A
file whose content was noted for another project is a duplicate and may be deleted.  Within one project the note follows
the last path.  Fingerprints are expensive, so the index also remembers for every path what the file looked like; while
it looks the same its fingerprint is not computed again.
-/
import Folio.Bytes.Sha256
import Folio.Workspace

namespace Folio.Dedup

open Action Fields

structure Note where
  path : Value
  project : Value

structure Index where
  notes : Fields
  looks : Fields

def looksKey : String := "__file_cache__"

namespace Index

def empty : Index := ⟨[], []⟩

def ofValue : Value → Index
  | .object fs =>
    ⟨fs.filter fun f => f.1 != looksKey && f.2.isObject, ((get? fs looksKey).getD .null).fieldsOrEmpty⟩
  | _ => empty

def toValue (i : Index) : Value := .object (set i.notes looksKey (.object i.looks))

end Index

structure Look where
  size : Nat
  modified : Int
  changed : Nat
  head : String
  deriving Repr, DecidableEq

def headSize : Nat := 4096

/-- The look of a file; the time of its last change is told in nanoseconds since 1970. -/
def lookOf (f : File) : Look :=
  ⟨f.content.size, f.modified.sinceEpoch * 1000, f.changed,
    Bytes.sha256 (f.content.toBytes.take headSize)⟩

def fingerprint (f : File) : String := Bytes.sha256 f.content.toBytes

def Look.toValue (l : Look) (digest : String) : Value := .object [
  ("size", l.size),
  ("mtime_ns", .int l.modified),
  ("ctime_ns", l.changed),
  ("partial_hash", l.head),
  ("hash", digest)]

/-- The fingerprint that the looks hold for a path, when the file still looks the same. -/
def known? (looks : Fields) (key : String) (l : Look) : Option String :=
  match get? looks key with
  | some (.object fs) =>
    let is (name : String) (v : Value) : Bool := (get? fs name).getD .null == v
    if is "size" l.size && is "mtime_ns" (.int l.modified) && is "ctime_ns" l.changed
        && is "partial_hash" l.head then
      (get? fs "hash").bind (·.text?)
    else none
  | _ => none

def digest (looks : Fields) (key : String) (f : File) : String × Fields :=
  let l := lookOf f
  match known? looks key l with
  | some h => (h, looks)
  | none =>
    let h := fingerprint f
    (h, set looks key (l.toValue h))

structure Duplicate where
  path : Path
  first : Note
  removed : Bool

def Duplicate.toValue (d : Duplicate) : Value := .object [
  ("path", d.path.text),
  ("original", d.first.path),
  ("project", d.first.project),
  ("removed", d.removed)]

structure Scan where
  disk : Disk
  index : Index
  unique : Nat
  duplicates : List Duplicate

def noteOf (project : String) (p : Path) : Value :=
  .object [("path", p.text), ("project", project)]

def Scan.note (s : Scan) (project digest : String) (p : Path) : Scan :=
  { s with
    index := { s.index with notes := set s.index.notes digest (noteOf project p) }
    unique := s.unique + 1 }

def Scan.report (s : Scan) (remove : Bool) (first : Note) (p : Path) : Scan :=
  match (if remove then (s.disk.unlink p).toOption else none) with
  | some d =>
    { s with
      disk := d
      index := { s.index with looks := erase s.index.looks (d.resolved p).text }
      duplicates := s.duplicates ++ [⟨p, first, true⟩] }
  | none => { s with duplicates := s.duplicates ++ [⟨p, first, false⟩] }

def Scan.visit (remove : Bool) (project : String) (s : Scan) (p : Path) : Scan :=
  match s.disk.file p with
  | .error _ => s
  | .ok f =>
    let (h, looks) := digest s.index.looks (s.disk.resolved p).text f
    let s := { s with index := { s.index with looks } }
    match get? s.index.notes h with
    | some note =>
      if !note.truthy || note.getOrNull "project" == .text project then s.note project h p
      else s.report remove ⟨note.getOrNull "path", note.getOrNull "project"⟩ p
    | none => s.note project h p

def scan (d : Disk) (index : Index) (remove : Bool) (root : Path) : Scan :=
  (d.below root).foldl (Scan.visit remove root.name) ⟨d, index, 0, []⟩

structure Outcome where
  unique : Nat
  duplicates : List Duplicate
  indexSize : Nat

namespace Outcome

def none : Outcome := ⟨0, [], 0⟩

def removed (o : Outcome) : Nat := (o.duplicates.filter (·.removed)).length

def toValue (o : Outcome) : Value := .object [
  ("unique_files", o.unique),
  ("duplicate_files", o.duplicates.length),
  ("duplicates", .list (o.duplicates.map (·.toValue))),
  ("index_size", o.indexSize),
  ("removed", o.removed)]

end Outcome

/-- The stored index; a file that cannot be read counts as empty. -/
def load (d : Disk) (file : Path) : Except Fault Index := do
  if ← d.exists? file then
    match d.document file with
    | .ok v => return Index.ofValue v
    | .error _ => return .empty
  else return .empty

/-- The layout of the stored index: on several lines, names in order. -/
def layout : Json.Layout := ⟨some 2, true, true, false⟩

def lockOf (file : Path) : Path := file.withName (file.name ++ ".lock")

/-- Scan a project with the stored index; `locked` says that someone else holds the index for too
long, and then nothing is done. -/
def run (root file : Path) (remove locked : Bool) : Action Outcome := do
  if locked then return .none
  makeDirs (lockOf file).parent
  writeText (lockOf file) ""
  let index ← ask fun d => load d file
  let s := scan (← disk) index remove root
  modify fun w => { w with disk := s.disk }
  store file layout s.index.toValue
  return ⟨s.unique, s.duplicates, s.index.notes.length⟩

end Folio.Dedup

/-
# Saved.Export -- saving an analysis with its history

Analyses are saved in the directory of the application, in older versions one directory up.  Some
files there are the application's own and are never offered or deleted.

Saving an analysis keeps what earlier analyses of the same project found: the file holds a snapshot
of every analysis, and its skills and frameworks are those of all of them.  The store receives the
same document.
-/
import Folio.Duration
import Folio.Insight.Figures
import Folio.Naming
import Folio.Saved.Summary
import Folio.Store.Session

namespace Folio.Saved

open Action Fields Store.Session Value

variable (d : Disk) (dir : Path) (file : String) (name : String)

def isInternal : Bool := Naming.internalFiles.contains (Path.ofString file).name

def documentsIn : List Path :=
  (((d.list dir).toOption.getD []).filter fun e => Text.endsWith e.1 ".json").map fun e => dir.entry e.1

def files : Except Fault (List Path) := do
  let here ← if ← d.exists? dir then pure [dir] else pure []
  let above ← if (← d.exists? dir.parent) && !(here.contains dir.parent)
    then pure [dir.parent] else pure []
  let all := (here ++ above).flatMap (documentsIn d)
  return (Text.uniqueBy (fun p => (d.resolved p).text) all).filter fun p => !isInternal p.name

def directory : Action Path := do
  let dir ← Context.required (← get).context.saveDir
  return (← disk).resolved dir

/-- The directory that saved analyses are looked for in: a home mark is expanded first. -/
def searchDir (w : Workspace) : Except Fault Path := do
  return w.disk.resolved (← w.services.expanded (← Context.required w.context.saveDir))

def searched : Action Path := do searchDir (← get)

def placesOf : List Path := [dir.child file, dir.parent.child file]

def firstThere? (d : Disk) : List Path → Except Fault (Option Path)
  | [] => .ok none
  | p :: ps => do if ← d.exists? p then return some p else firstThere? d ps

def find? : Action (Option Path) := do
  let dir ← searched
  ask fun d => firstThere? d (placesOf dir file)

/-- Delete the file of a saved analysis that the store does not know; says whether it was done. -/
def deleteFile : Action Bool := do
  if isInternal file then return false
  match ← find? file with
  | none => return false
  | some p =>
    match ← attempt (count file) with
    | .ok 0 =>
      match ← attempt (change fun d => d.unlink p) with
      | .ok _ => return true
      | .error _ => return false
    | _ => return false

def save (v : Value) : Action Unit := do
  if !Json.isPlain v then throw unwritable
  makeDirs dir
  write (dir.child (name ++ ".json")) (.document .pretty v)

/-- A stored duration as a span of time; a bare number counts nanoseconds. -/
def durationOf (v : Value) : Except Fault Span :=
  match v with
  | .text s => Span.ofText s
  | .int n => .ok ⟨n.fdiv 1000⟩
  | .real x => if x.isNaN then .error Span.absent else return ⟨(← v.toInt).fdiv 1000⟩
  | .null => .error Span.absent
  | v => .error (.met .badValue ("Value must be a duration, a text or a number, not " ++ v.kindName))

def load (file : Path) : Action Value := do
  let v ← ask (·.document file)
  if !(← v.holds "duration") then return v
  return v.set "duration" (.span (← durationOf (← v.field "duration")))

def page (file : Path) (name : String) : Action String := do
  match (← disk).document file with
  | .ok v => Summary.page name v
  | .error f => return "[ERROR] Could not read " ++ name ++ ": " ++ f.text ++ "\n"

def pageByName : Action String := do
  let file := name ++ ".json"
  page ((← searched).child file) file

open Action

def snapshot (now : String) (payload : Value) : Except Fault Value := do
  let resume := (← payload.fieldD "resume_item" .null).orElse (.object [])
  let part (key : String) : String × Value := (key, payload.getOrNull key)
  return .object [("analyzed_at", now), part "project_root", part "duration_estimate",
    ("resume_item", resume), part "project_type", part "dedup", part "contributors"]

def namesIn (resume : Value) (key : String) : Except Fault (List Value) := do
  members (← (← resume.fieldD key (.list [])).elements)

def union (xs ys : List Value) : Except Fault (List Value) := do
  sorted (← members (xs ++ ys))

def knownNames (document : Value) : Except Fault (List Value × List Value) := do
  let resume ← document.fieldD "resume_item" (.object [])
  return (← namesIn resume "skills", ← namesIn resume "frameworks")

def withEarlier (skills frameworks : List Value) (resume : Fields) : Except Fault Fields := do
  let seen (key : String) : Fields → Fields := fun fs =>
    if has fs key then fs else set fs key (.list [])
  let resume := seen "frameworks" (seen "skills" resume)
  let resume := set resume "skills" (.list (← union skills (← namesIn (.object resume) "skills")))
  return set resume "frameworks"
    (.list (← union frameworks (← namesIn (.object resume) "frameworks")))

def earlierSnapshots (now : String) (earlier : Value) : Except Fault (List Value) := do
  let kept := earlier.getOrNull "snapshots"
  if kept.truthy then return kept.itemsOrEmpty
  return [← snapshot now earlier]

/-- The document to save: the analysis over what was saved before, with all snapshots. -/
def record (now : String) (earlier : Option Value) (analysis : Value) : Except Fault (Value × List Value) := do
  match earlier with
  | some (.object old) =>
    let snapshots ← earlierSnapshots now (.object old)
    let (skills, frameworks) ← knownNames (.object old)
    let resume ← (← analysis.fieldD "resume_item" (.object [])).asObject "setdefault"
    let analysis := analysis.set "resume_item" (.object (← withEarlier skills frameworks resume))
    let snapshots := snapshots ++ [← snapshot now analysis]
    return (analysis.set "snapshots" (.list snapshots), snapshots)
  | _ =>
    let snapshots := [← snapshot now analysis]
    return (analysis.set "snapshots" (.list snapshots), snapshots)

/-- Save the record of an analysis over an earlier one, in a directory and in the store; gives the snapshots. -/
def keepRecord (stem : String) (earlier : Option Value) (analysis : Value) : Action (List Value) := do
  let (document, snapshots) ← record (← Insight.stamp (← now)) earlier analysis
  save dir stem document
  let file := stem ++ ".json"
  match ← attempt (insert file document none) with
  | .ok (some true) =>
    print ("[INFO] Project '" ++ file ++ "' already exists - updated with new version")
  | _ => pure ()
  return snapshots

def exportAnalysis (analysis : Value) : Action (List Value) := do
  let dir ← directory
  makeDirs dir
  let stem := Naming.project name
  let place := dir.child (stem ++ ".json")
  let earlier ← if ← ask (·.exists? place)
    then pure ((← disk).document place).toOption else pure none
  keepRecord dir stem earlier analysis

def exportAnswer (snapshots : List Value) : Value :=
  .object [("skipped", false), ("snapshots", .list snapshots)]

end Folio.Saved

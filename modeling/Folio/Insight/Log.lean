/-
# Insight.Log -- the stored list of insights

A log that is no list is put aside under another name and taken for empty; one that the system does not let us read is
taken for empty too, and stays where it is.  Whatever changes a log looks at its entries first and then stores all of
them again.
-/
import Folio.Insight.History
import Folio.Workspace

namespace Folio.Insight.Log

open Action

variable (look : Action (List Value)) (file : Path) (id : Value) (picture : Path)

def asideName (now : Moment) (name : String) : String :=
  let d := now.date
  name ++ ".corrupt-" ++ zeroPadded 4 d.year ++ zeroPadded 2 d.month ++ zeroPadded 2 d.day ++ "T"
    ++ zeroPadded 2 now.hour ++ zeroPadded 2 now.minute ++ zeroPadded 2 now.second ++ "Z"

def putAside : Action Unit := do
  let name := asideName (← now) file.name
  match (← disk).rename file (file.withName name) with
  | .ok d => modify fun w => { w with disk := d }
  | .error _ => pure ()

def entriesOf : Except Fault Value → Action (List Value)
  | .ok (.list es) => return es
  | .ok _ => do
    putAside file
    return []
  | .error f => do
    if f.cause == .malformed then
      putAside file
      return []
    else if f.cause.isSystem then return []
    else throw f

def entries : Action (List Value) := do
  if !(← ask (·.exists? file)) then return []
  entriesOf file ((← disk).document file)

def store (es : List Value) : Action Unit :=
  Action.store file .pretty (.list es)

def read (entry : Value) : Action Insight := do
  let rest ← Insight.ofEntry (← now) entry
  rest (← freshId)

def list : Action (List Insight) := do
  let is ← (← entries file).mapM read
  return chronological is

structure Note where
  contributors : Value := .null
  analyzedAt : Option Moment := none
  id : Option String := none
  label : Value := .null

def recordAfter (analysis : Value) (note : Note) : Action Insight := do
  let d ← draft analysis note.contributors
  let id ← match note.id with
    | some s => if s == "" then freshId else pure s
    | none => freshId
  let i ← ofDraft d id (note.analyzedAt.getD (← now)) note.label
  let es ← look
  store file (es ++ [i.toValue])
  return i

def record (analysis : Value) (note : Note) : Action Insight :=
  recordAfter (entries file) file analysis note

def changeFirst? (id : Value) (change : Value → Value) : List Value → Except Fault (Option (List Value))
  | [] => .ok none
  | e :: es => do
    if (← e.fieldD "id" .null) == id then return some (change e :: es)
    return (← changeFirst? id change es).map (e :: ·)

/-- Change the first entry with an identifier, after a look at the entries, and say whether there was
one. -/
def changeAfter (step : Value → Value) : Action Bool := do
  match ← changeFirst? id step (← look) with
  | some es => store file es; return true
  | none => return false

def pictureNote (added : String) : Value := .object [
  ("path", picture.text),
  ("filename", picture.name),
  ("exists", true),
  ("added_at", added)]

def setThumbnailAfter : Action Bool := do
  let current ← stamp (← now)
  changeAfter look file id fun e => e.set "thumbnail" (pictureNote picture current)

def setThumbnail : Action Bool :=
  setThumbnailAfter (entries file) file id picture

def clearThumbnail : Action Bool :=
  changeAfter (entries file) file id fun e => e.set "thumbnail" .null

def ofOthers (name : Value) (es : List Value) : Except Fault (List Value) :=
  es.filterM fun e => return !((← e.fieldD "project_name" .null) == name)

def removeProjectAfter (name : Value) : Action Nat := do
  let es ← look
  let kept ← ofOthers name es
  let removed := es.length - kept.length
  if removed > 0 then store file kept
  return removed

def removeProject (name : Value) : Action Nat :=
  removeProjectAfter (entries file) file name

def topCards (who : Option String) (limit : Int) (allowed : Option (List Value)) : Action (List Card) := do
  if limit ≤ 0 then return []
  Insight.topCards (← list file) who limit allowed

def thumbnail? (i : Insight) : Action (Option Path) := do
  match i.thumbnail.get? "path" with
  | some v =>
    if !v.truthy then return none
    match v with
    | .text s =>
      let p := Path.ofString s
      if ← ask (·.exists? p) then return some p else return none
    | v => throw (.wrongType ("expected a path, not " ++ v.kindName))
  | none => return none

end Folio.Insight.Log

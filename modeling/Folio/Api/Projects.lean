/-
# Api.Projects -- saved projects and their thumbnails

A client uploads archives, sees, corrects and deletes saved projects, and gives them thumbnails.  A project has a
thumbnail by the identifier of one of its insights; a client may name it by that or by the project's name.
-/
import Folio.Analysis
import Folio.Api.Route
import Folio.Thumbnail

namespace Folio.Api.Projects

open Action Context Insight.Log Path Saved Store.Session Text Thumbnail

variable (r : Request) (f : SentFile) (dirs : List Path) (file : String)

/-! ## Uploads -/

def uploads : Action Path := return (← get).temp.entry "devdoc_uploads"

def sentPath : Path :=
  ofString (match f.name with
    | some s => if s == "" then "uploaded_project.zip" else s
    | none => "uploaded_project.zip")

def orUsual (s usual : String) : String := if s == "" then usual else s

def uploadedName : String := orUsual (sentPath f).stem "uploaded_project"

def keepUpload : Action Path := do
  let dir ← uploads
  makeDirs dir
  let mark := takeChars 8 (← freshId)
  let file := dir.entry (uploadedName f ++ "_" ++ mark ++ orUsual (sentPath f).suffix ".zip")
  write file f.content
  return file

def upload (r : Request) : Action Value := do
  let f := r.file.getD default
  if (Archive.ofContent? f.content).isNone then throw (.reject 400 "file is not a zip file")
  let file ← keepUpload f
  let name := uploadedName f
  modify fun w => { w with context := { w.context with
    upload := some (.place file), projectName := some name } }
  return .object [("status", "ok"), ("filename", .textOrNull f.name),
    ("stored_path", file.text), ("project_name", name)]

/-! ## Saved projects -/

def savedFiles : Action (List Path) := do
  let dir ← required (← get).context.saveDir
  ask fun d => files d dir

def names : Action (List String) := return (← savedFiles).map (·.stem)

def list (_ : Request) : Action Value := return .texts (← names)

def fileOf (id : String) : String := if endsWith id ".json" then id else id ++ ".json"

def readSaved (file : Path) : Action Value :=
  telling 500 ("Failed to parse saved project file '" ++ file.name ++ "': ")
    (ask (·.document file))

def view : Action Value := do
  let file := fileOf (r.text "id")
  let stem := (ofString file).stem
  let answer (source : String) (analysis : Value) : Value := .object [
    ("project_name", stem), ("source", source), ("analysis", analysis)]
  match ← fetch? file with
  | some v => return answer "database" v
  | none =>
    let dir ← required (← get).context.saveDir
    match ← ask fun d => firstThere? d (placesOf dir file) with
    | some p => return answer "filesystem" (← readSaved p)
    | none => throw (.reject 404 ("Project '" ++ stem ++ "' was not found."))

def deletion (store disk : String) : Value :=
  .object [("dbstatus", store), ("status", disk)]

def liesIn (d : Disk) (dirs : List Path) (p : Path) : Bool :=
  let place := (d.resolved p.parent).entry p.name
  dirs.any fun dir => (place.relativeTo? dir).isSome

def allowedDirs : Action (List Path) := do
  let dir ← searched
  return [dir, (← disk).resolved dir.parent]

def objection? (w : Workspace) (dirs : List Path) (file : String) (place : Path) : Except Fault (Option String) := do
  if isInternal place.name then
    return some ("[INFO] '" ++ place.name ++ "' is an internal artifact and cannot be deleted.")
  if place.name != file then
    return some ("[WARNING] save_path filename '" ++ place.name ++ "' must match requested project '"
      ++ file ++ "'.")
  -- Only this check expands a home mark; the deletion takes the path as it is.
  if !liesIn w.disk dirs (← w.services.expanded place) then
    return some ("[WARNING] Refusing to delete '" ++ place.name ++ "' outside allowed save directories: "
      ++ join ", " (dirs.map (·.text)) ++ ".")
  return none

def chosenPlace : Option Path :=
  (r.text? "save_path").bind fun s => if s == "" then none else some (ofString s)

/-- Why nothing is deleted; a project without a place of the client's choice is not objected to. -/
def objectionTo : Option Path → Action (Option String)
  | some p => do objection? (← get) dirs file p
  | none => return none

def deleteStored : Action String := do
  match ← attempt (delete file) with
  | .ok true => return "[SUCCESS] Deleted DB records for '" ++ file ++ "'."
  | .ok false => return "[INFO] No DB records were found."
  | .error f => return "[WARNING] Could not query database: " ++ f.text

def deleteSaved (place : Option Path) : Action String := do
  let done := "[SUCCESS] Deleted '" ++ file ++ "' from filesystem!"
  match place with
  | some p =>
    match ← attempt (change fun d => d.unlink p) with
    | .ok _ => return done
    | .error f =>
      return "[WARNING] Unexpected error while attempting to delete file '" ++ file ++ "': " ++ f.text
  | none =>
    if ← deleteFile file then return done
    else return "[INFO] No local file was deleted for '" ++ file ++ "'."

def log : Action Path :=
  return (← required (← get).context.filesDir).entry "project_insights.json"

def forget (stem : String) : Action Unit :=
  discard (attempt do removeProject (← log) stem)

def erase (place : Option Path) : Action Value := do
  let stored ← deleteStored file
  let saved ← deleteSaved file place
  forget (ofString file).stem
  return deletion stored saved

def delete : Action Value := do
  let file := fileOf (r.text "id")
  if isInternal file then
    return deletion ("[INFO] '" ++ file ++ "' is an internal artifact. DB deletion skipped.")
      ("[INFO] '" ++ file ++ "' is an internal artifact and cannot be deleted.")
  match ← objectionTo (← allowedDirs) file (chosenPlace r) with
  | some words => return deletion ("[INFO] '" ++ file ++ "' DB deletion skipped.") words
  | none => erase file (chosenPlace r)

/-! ## Corrections -/

def storedRecord : Action Value := do
  match ← fetch? file with
  | some v => if v.truthy then return v else throw (.reject 404 ("Project " ++ file ++ " not found"))
  | none => throw (.reject 404 ("Project " ++ file ++ " not found"))

def assigned (v : Value) (key : String) (w : Value) : Except Fault Value :=
  match v with
  | .object _ => .ok (v.set key w)
  | _ => .error (.wrongType ("'" ++ v.kindName ++ "' object does not support item assignment"))

def setKind : Action Value := do
  let file := fileOf (r.text "id")
  let kind := r.value "project_type"
  let record ← storedRecord file
  let item ← assigned (← record.field "resume_item") "project_type" kind
  discard (update file (.document (record.set "resume_item" item)))
  return .object [("message", "Updated successfully"), ("type", kind)]

/-- The time between two dates; a day that ends as it starts is a whole day. -/
def timeBetween (start stop : String) : Except Fault Span := do
  let day (s : String) : Except Fault Int :=
    match Moment.plainDate? s with
    | some d => .ok (Calendar.dayNumber d)
    | none => .error (.met .badValue ("time data '" ++ s ++ "' does not match format '%Y-%m-%d'"))
  let stop ← day stop
  let start ← day start
  if start != stop then return .of (stop - start) 0 0
  if !Moment.inRange ((stop + 1) * Calendar.microsPerDay) then
    throw (.met .overflow "date value out of range")
  return .of 1 0 0

def setDuration : Action Value := do
  let file := fileOf (r.text "id")
  let record ← storedRecord file
  let (span, changed) ← telling 400 "" (do
    let span ← timeBetween (r.text "start") (r.text "end")
    return (span, ← assigned record "duration_estimate" span.described) : Action (Span × Value))
  if span.micros < 0 then throw (.reject 400 "Start date must be before end date")
  discard (update file (.document changed))
  return .object [("message", "Updated successfully"), ("dur", span.described)]

/-! ## Thumbnails -/

def insightOf (name : String) : Action Insight := do
  let all ← Insight.Log.list (← log)
  let byId := all.find? fun i => i.id == .text name
  match byId.orElse fun _ => all.find? (·.projectName == name) with
  | some i => return i
  | none =>
    throw (.reject 404 ("Project '" ++ name ++ "' was not found in insights. "
      ++ "Analyze the project first to create an insight record."))

def thumbnails : Action Path := do
  let dir := (← required (← get).context.filesDir).entry "thumbnails"
  makeDirs dir
  return dir

def thumbnailFields (i : Insight) (file : Path) : Fields := [
  ("project_id", i.id), ("project_name", i.projectName),
  ("thumbnail", .object [("path", file.text), ("filename", file.name)])]

def refused : Thumbnail.Refusal → Fault
  | .unprocessed => .met (.rejected 400) Thumbnail.Refusal.unprocessed.message
  | r => .reject 400 r.message

def setThumbnail : Action Value := do
  let i ← insightOf (r.text "id")
  let f := r.file.getD default
  let suffix := lower (ofString (f.name.getD "")).suffix
  if suffix == "" then
    throw (.reject 400 "Thumbnail filename must include an image extension.")
  let temp := (← get).temp
  makeDirs temp
  let file := temp.entry ("picture" ++ suffix)
  write file f.content
  let work : Action Value := do
    match ← add (← thumbnails) i.id.shown file (r.flag "resize" true) with
    | .error refusal => throw (refused refusal)
    | .ok place =>
      if !(← Insight.Log.setThumbnail (← log) i.id place) then
        throw (.reject 500 ("Thumbnail file was saved but could not be linked to the project insight."))
      return .object ([("status", .text "Thumbnail uploaded successfully")] ++ thumbnailFields i place)
  let done ← attempt work
  change fun d => .ok ((d.unlink file).toOption.getD d)
  done

def thumbnailFile (i : Insight) : Action Path := do
  let dir ← thumbnails
  let byId ← ask fun d => find? d dir i.id.shown
  match ← if byId.isSome then pure byId else ask fun d => find? d dir i.projectName with
  | some p => return p
  | none => throw (.reject 404 ("No thumbnail found for project '" ++ i.projectName ++ "'."))

def thumbnail : Action Value := do
  let i ← insightOf (r.text "id")
  return .object (thumbnailFields i (← thumbnailFile i))

def thumbnailImage : Action Value := do
  let i ← insightOf (r.text "id")
  return .object [("path", .text (← thumbnailFile i).text)]

def deleteThumbnail : Action Value := do
  let i ← insightOf (r.text "id")
  let dir ← thumbnails
  let byId ← remove dir i.id.shown
  let gone ← if byId then pure true else remove dir i.projectName
  if !gone then throw (.reject 404 ("No thumbnail found for project '" ++ i.projectName ++ "'."))
  discard (clearThumbnail (← log) i.id)
  return .object [("status", "Thumbnail deleted successfully"), ("project_id", i.id),
    ("project_name", i.projectName)]

end Folio.Api.Projects

/-
# Api.Documents -- resumes and portfolios as a client sees them

A client makes a document, gets an identifier that is the name of its file, and from then on asks by that identifier.
-/
import Folio.Api.Route
import Folio.Cv.Projects

namespace Folio.Api.Documents

open Action Cv.Editing Pattern Text

open Cv (Kind Editing Format Part)
open Cv.Editing (document)

variable (kind : Kind) (r : Request) (id : String)

def idKey : Kind → String
  | .resume => "id"
  | .portfolio => "portfolio_id"

def word : String := lower kind.label

def idOf : String := r.text (idKey kind)

def opened {α : Type} (kind : Kind) (id : String) (work : Editing α) : Action α :=
  within { kind } do
    rejecting (·.cause == .noSuchFile)
      (.reject 404 (kind.label ++ " '" ++ id ++ "' not found")) (discard (load (some id)))
    work

/-! ## The list of documents -/

structure Listed where
  id : String
  name : String
  createdAt : String

def Listed.toValue (x : Listed) : Value :=
  .object [("id", x.id), ("name", x.name), ("created_at", x.createdAt)]

/-- The mark that tells identifiers of one name apart. -/
def mark : Pattern :=
  .seq (.lit "_") (.span true 8 (some 8) fun c => c.isDigit || ('a' ≤ c && c ≤ 'f'))

def day : Pattern := .sequence [
  .group 1 (.digits 4), .lit "_", .group 2 (.digits 2), .lit "_", .group 3 (.digits 2)]

def dayAndTime : Pattern := .sequence [
  .lit "(", day, .lit "_", .group 4 (.digits 2), .group 5 (.digits 2), .lit ")", atTextEnd]

def dayOnly : Pattern := .sequence [.lit "(", day, .lit ")", atTextEnd]

def withoutEnding (ending : Pattern) (id : String) : String :=
  (sequence [mark, .lit "_", ending]).replaceAll "" id

def withoutLast : String := ((splitLast? id "_").map (·.1)).getD id

def listed (changed : Moment) : Listed :=
  let shown (s : String) : String := replace s "_" " "
  match kind, dayAndTime.search? id, dayOnly.search? id with
  | .resume, some m, _ =>
    let g := m.group
    ⟨id, shown (withoutEnding dayAndTime id),
      g 1 ++ "-" ++ g 2 ++ "-" ++ g 3 ++ "T" ++ g 4 ++ ":" ++ g 5 ++ ":00"⟩
  | .resume, none, some _ => ⟨id, shown (withoutEnding dayOnly id), changed.iso⟩
  | _, _, _ => ⟨id, shown (withoutLast id), changed.iso⟩

def fileEnding : String := "_" ++ kind.fileSuffix ++ ".yaml"

def saved : Action Value := do
  let w ← get
  let dir := directory w.context.home
  let files := ((w.disk.list dir).toOption.getD []).filter fun e => endsWith e.1 (fileEnding kind)
  let all := files.map fun e =>
    let changed := ((w.disk.file (dir.entry e.1)).toOption.map (·.modified)).getD w.now
    listed kind (dropTail e.1 (fileEnding kind)) changed
  return .list ((all.mergeSort fun a b => le b.createdAt a.createdAt).map (·.toValue))

/-! ## Making and showing -/

def newId (name : String) : Action String := do
  let mark := takeChars 8 (← freshId)
  let base := Naming.document name ++ "_" ++ mark
  match kind with
  | .portfolio => return base
  | .resume =>
    let t ← now
    let two := zeroPadded 2
    return base ++ "_(" ++ zeroPadded 4 t.date.year ++ "_" ++ two t.date.month ++ "_"
      ++ two t.date.day ++ "_" ++ two t.hour ++ two t.minute ++ ")"

def alreadyThere (name id : String) : Fault :=
  match kind with
  | .resume => .reject 409 ("Resume '" ++ name ++ "' already exists. Set overwrite=true to replace it.")
  | .portfolio => .reject 409 ("Portfolio " ++ id ++ " already exists. Set overwrite=true to replace it")

def choosingTheme {α : Type} (work : Editing α) : Editing α :=
  tryCatch work fun f => throw (if f.cause == .badValue then .wrap (.rejected 400) f.text f else f)

def writeDown : Editing Unit := do
  let d ← document
  match d.file with
  | none => pure ()
  | some file =>
    tryCatch (writeRecord file d.data : Editing Unit) fun f =>
      throw (if f.cause.isSystem
        then rejectedAs 500 (kind.label ++ " generated but failed to save metadata: ") f else f)

def make : Action Value := do
  let name := (r.body.getOrNull "name").textOrEmpty
  let theme := (r.body.get? "theme").getD "sb2nov"
  let id ← newId kind name
  within { kind } do
    if !(← generate id (r.body.getOrNull "overwrite").truthy) then
      throw (alreadyThere kind name id)
    discard (load (some id))
    discard (edit (.contact [("name", name)]))
    if theme.truthy && theme != "sb2nov" then
      choosingTheme (discard (edit (.theme theme)))
    writeDown kind
  return .object [(word kind ++ "_id", id), ("status", kind.label ++ " created successfully")]

def shownParts : Kind → List (String × Part)
  | .resume => [("experience", .experience), ("education", .education), ("projects", .projects),
      ("skills", .skills), ("awards", .awards), ("connections", .connections)]
  | .portfolio => [("projects", .projects), ("skills", .skills), ("connections", .connections)]

def view : Action Value :=
  opened kind (idOf kind r) do
    let d ← document
    let contact ← d.contact
    let theme ← d.designTheme
    let summary ← d.summaryText
    let parts ← (shownParts kind).mapM fun (key, p) => do return (key, ← d.list p)
    return .object ([("name", .text (idOf kind r)), ("contact", contact), ("theme", theme),
      ("summary", summary)] ++ parts)

def delete (kind : Kind) (r : Request) : Action Value :=
  opened kind (idOf kind r) do
    match (← document).file with
    | none => pure ()
    | some file =>
      tryCatch (change (fun d => d.unlink file) : Editing Unit) fun f =>
        throw (if f.cause.isSystem
          then rejectedAs 500 ("Failed to delete " ++ word kind ++ ": ") f else f)
    return status ("Successfully deleted " ++ word kind ++ " '" ++ idOf kind r ++ "'")

/-! ## Rendering -/

def formatOf (name : String) : Except Fault Format :=
  match Format.ofName? name with
  | some f => .ok f
  | none => .error (.reject 400 (Format.unsupported name))

def rendered (format : Format) (finish : Path → Action Value) : Action Value :=
  opened kind id do
    let done ← render (.texts [format.label])
    match done.output? format with
    | none => throw (.reject 500 done.status)
    | some file =>
      let answer ← (finish file : Action Value)
      change fun d => .ok (d.removeTree file.parent)
      return answer

def mediaType : Format → String
  | .pdf => "application/pdf"
  | .html => "text/html"
  | .markdown => "text/markdown"

def renderedName (f : Format) : String :=
  word kind ++ "_" ++ id ++ "." ++ f.extension

def renderTo (id formatName : String) : Action Value := do
  let format ← formatOf formatName
  rendered kind id format fun file => return .object [
    ("path", file.text), ("media_type", mediaType format),
    ("filename", renderedName kind id format),
    ("headers", .object [("X-" ++ kind.label ++ "-ID", id)])]

def render : Action Value := renderTo kind (idOf kind r) (r.text "format")

def renderPages : Action Value := renderTo kind (idOf kind r) "pdf"

def storeIn (format : Format) (dir : Path) (prepare : Action Unit) : Action Value :=
  rendered kind id format fun file => do
    prepare
    let target := dir.child (renderedName kind id format)
    copy file target
    return .object [("status", "Saved successfully"), ("path", target.text)]

def store : Action Value := do
  let format ← formatOf (r.text "format")
  let dir := (directory (← get).context.home).entry "rendered_outputs"
  storeIn kind (idOf kind r) format dir (makeDirs dir)

def storeAt : Action Value := do
  let format ← formatOf (r.text "format")
  let wanted := (r.body.getOrNull "path").textOrEmpty
  let dir := (← disk).resolved (← (← services).expanded (Path.ofString wanted))
  if !(← ask (·.isDir? dir)) then
    throw (.reject 400 ("Directory '" ++ wanted ++ "' does not exist"))
  storeIn kind (idOf kind r) format dir (pure ())

end Folio.Api.Documents

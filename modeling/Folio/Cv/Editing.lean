/-
# Cv.Editing -- documents and their files

What work on a document changed stays changed when the work fails later.  A document is generated from a template,
loaded from its file, and saved after every edit unless that is switched off.
-/
import Folio.Cv.Edit
import Folio.Workspace

namespace Folio.Cv

open Action ExceptT

/-! ## The record of a new document -/

namespace Template

def text (fields : List (String × String)) : Fields := fields.map fun f => (f.1, f.2)

def summary : String × Value :=
  ("summary", .texts ["A brief summary about yourself and your professional background."])

def education : String × Value := ("education", .list [.object (text [
    ("institution", "University Name"), ("area", "Field of Study"), ("degree", "BS"),
    ("start_date", "2020-09"), ("end_date", "2024-05"), ("location", "City, State")]
  ++ [("highlights", .texts ["GPA: X.XX/4.00"])])])

def experience : String × Value := ("experience", .list [.object (text [
    ("company", "Company Name"), ("position", "Position Title"), ("start_date", "2023-06"),
    ("end_date", "2023-07"), ("location", "City, State")]
  ++ [("highlights", .texts ["Accomplishment 1", "Accomplishment 2"])])])

def projects : String × Value := ("projects", .list [.object (text [
    ("name", "Project Name"), ("start_date", "2023-01"), ("end_date", "2024-05"),
    ("summary", "Brief description of the project")]
  ++ [("highlights", .texts ["Key feature 1", "Key feature 2"])])])

def skills (groups : List (String × String)) : String × Value :=
  ("skills", .list (groups.map fun g => .object (text [("label", g.1), ("details", g.2)])))

def sections : Kind → Fields
  | .resume => [summary, education, experience, projects, skills [
      ("Languages", "Python, JavaScript"), ("Frameworks", "React, Django"), ("Tools", "Git, Docker")]]
  | .portfolio => [summary, projects, skills [
      ("Languages", "Python, JavaScript"), ("Technologies", "React, Docker, AWS"),
      ("Tools", "Git, VS Code")]]

def record (kind : Kind) (name : String) (theme : Value) : Value := .object [
  ("cv", .object (text [
      ("name", Text.replace name "_" " "), ("location", "City, State"),
      ("email", "your.email@example.com"), ("phone", "+1 234 567 8901"),
      ("website", "https://yourwebsite.com")]
    ++ [("social_networks", .list (["LinkedIn", "GitHub"].map fun n =>
          .object (text [("network", n), ("username", "")]))),
        ("sections", .object (sections kind))])),
  ("design", .object [("theme", theme)]),
  ("locale", .object (text [("language", "english")]))]

end Template

/-! ## Work on a document -/

abbrev Editing := ExceptT Fault (StateM (Document × Workspace))

namespace Editing

variable (d : Document) (name : String)

def ofAction {α : Type} (a : Action α) : Editing α :=
  mk fun (d, w) =>
    let (r, w) := a.outcome w
    (r, (d, w))

instance : MonadLift Action Editing := ⟨ofAction⟩

instance : MonadLift (Except Fault) Editing := ⟨fun r => mk (pure r)⟩

def document : Editing Document := mk fun s => (.ok s.1, s)

def setDocument : Editing Unit := mk fun s => (.ok (), (d, s.2))

/-- Work on a given document: how it ended, and the document then. -/
def on {α : Type} (d : Document) (e : Editing α) : Action (Except Fault α × Document) :=
  mk fun w =>
    let (r, (d, w)) := e.run.run (d, w)
    (.ok (r, d), w)

def within {α : Type} (d : Document) (e : Editing α) : Action α := do
  match (← e.on d).1 with
  | .ok a => return a
  | .error f => throw f

/-! ## Files -/

def directory (home : Path) : Path :=
  (Context.usualFilesDir home).entry "Generate_render_CV_files"

def ownDirectory : Editing Path := ofAction (do return directory (← get).context.home)

def fileName : String := Text.replace name " " "_"

def setName : Editing Path := do
  let d ← document
  let dir ← ownDirectory
  let name := fileName name
  let file := dir.child (name ++ "_" ++ d.kind.fileSuffix ++ ".yaml")
  setDocument { d with name := some name, file := some file }
  return file

def writeTemplate (file : Path) (name : String) : Editing Bool := do
  let d ← document
  writeRecord file (Template.record d.kind name d.theme)
  return true

def generate (overwrite : Bool) : Editing Bool := do
  let d ← document
  setDocument { d with name := some (fileName name) }
  makeDirs (← ownDirectory)
  let file ← setName name
  if ← ask (·.exists? file) then
    if overwrite then change (·.unlink file)
    else return false
  writeTemplate file (fileName name)

/-- The end of a document's name that tells it from others: a mark, and maybe a date. -/
def nameEnding : Pattern :=
  .sequence [.lit "_", .span true 8 (some 8) fun c => c.isDigit || ('a' ≤ c && c ≤ 'f'),
    .optional (.sequence [.lit "_(", .span false 0 none Pattern.notNewline, .lit ")"]),
    Pattern.atTextEnd]

def shownName : String :=
  Text.replace (nameEnding.replaceAll "" name) "_" " "

def adopt (p : Part) : Document :=
  d.setSlot p (if ((d.place p).get? p.key).isSome then .live else .kept (.list []))

def adopted : Kind → List Part
  | .resume => Part.all
  | .portfolio => Part.all.filter (!·.resumeOnly)

def settle : Document :=
  let d := (adopted d.kind).foldl adopt { d.keepLists with sections := .live }
  { d with summary := if (d.sectionsValue.get? "summary").isSome then .live else .kept (.list []) }

def named : Document :=
  if (d.header.getOrNull "name").truthy then d
  else d.putHeader (d.header.set "name" (shownName (d.name.getD "None")))

def takeIn (data : Value) : Editing Value := do
  setDocument { (← document).keepSections with data }
  if (← data.fieldD "cv" .null).isNull then
    throw (.say .badValue "Invalid YAML structure: missing required 'cv' key")
  let sections ← (← data.field "cv").field "sections"
  setDocument { (← document).keepLists with sections := .live }
  discard (sections.fieldD "projects" .null)
  setDocument (named (settle (← document)))
  return (← document).data

def load (name : Option String) : Editing Value := do
  match name with
  | some n => if n != "" then discard (setName n)
  | none => pure ()
  let place := (← document).file
  let known ← match place with
    | some file => ask (·.exists? file)
    | none => pure false
  match place, known with
  | some file, true => takeIn (← ask (·.record file))
  | place, _ =>
    throw (.say .noSuchFile ("YAML file " ++ (place.map (·.text)).getD "None" ++ " not found"))

def target : Option String → Option Path
  | some s => if s == "" then d.file else some (Path.ofString s)
  | none => d.file

def save (file : Option String) : Editing Value := do
  let d ← document
  if d.data.isNull then throw (.say .badValue "No data loaded")
  match target d file with
  | some p =>
    writeRecord p d.data
    return .text p.text
  | none => throw (.wrongType "the file is not set")

def edit (e : Edit) : Editing Reply := do
  let d ← document
  let edited ← d.apply e
  setDocument edited.document
  if edited.changed && d.autoSave then discard (save none)
  match edited.reply with
  | .failed f => throw f
  | reply => return reply

end Editing

end Folio.Cv

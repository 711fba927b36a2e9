/-
# Resume.Item -- a project as an item of a resume

The item says what kind of project it is and how that was found out, its languages, frameworks and skills, one sentence,
highlights, and the evidence.
-/
import Folio.Project.Skills
import Folio.Resume.Evidence
import Folio.Workspace

namespace Folio.Resume

open Action Project Text

/-! ## Sentences about a project -/

/-- Several things in one phrase, with a comma before the last of three or more. -/
def enumeration : List String → String
  | [] => ""
  | [x] => x
  | [x, y] => x ++ " and " ++ y
  | x :: y :: z :: rest =>
    join ", " (x :: y :: (z :: rest).dropLast) ++ ", and " ++ (z :: rest).getLastD ""

def stackPhrase (lead : String) (languages frameworks : List String) : String :=
  let noun := if frameworks.length > 1 then "frameworks " else "framework "
  let parts := (if languages.isEmpty then [] else [enumeration languages])
    ++ (if frameworks.isEmpty then [] else [noun ++ enumeration frameworks])
  if parts.isEmpty then "" else lead ++ join "; " parts

def persona : String → String
  | "collaborative" => "Collaborated to deliver"
  | "individual" => "Built"
  | _ => "Developed"

def sentence (name kind : String) (languages frameworks : List String) (tracked : Bool) : String :=
  persona kind ++ " " ++ name ++ stackPhrase " with " languages frameworks
    ++ (if tracked then ", leveraging Git-backed collaboration" else "") ++ "."

def bullets (kind : String) (languages frameworks skills : List String) (tracked : Bool) : List String :=
  let stack := if languages.isEmpty && frameworks.isEmpty then []
    else ["Implemented core functionality" ++ stackPhrase " using " languages frameworks ++ "."]
  let shown := if skills.isEmpty then [] else ["Demonstrated skills: " ++ enumeration skills ++ "."]
  let workflow := if !tracked then []
    else if kind == "collaborative" then ["Coordinated version control workflows in Git."]
    else ["Managed version control workflows in Git."]
  match stack ++ shown ++ workflow with
  | [] => ["Documented project insights ready for résumé inclusion."]
  | found => found

/-! ## The item -/

structure Item where
  name : String
  summary : String
  highlights : List String
  kind : String
  mode : Value
  stack : Project.Stack
  skills : List String
  evidence : Evidence

namespace Item

def toFields (i : Item) : Fields := [
  ("project_name", i.name),
  ("summary", i.summary),
  ("highlights", i.highlights),
  ("project_type", i.kind),
  ("detection_mode", i.mode),
  ("languages", i.stack.languages),
  ("frameworks", i.stack.frameworks),
  ("skills", i.skills),
  ("framework_sources", .object (i.stack.sources.map fun f => (f.1, f.2))),
  ("evidence", i.evidence.toValue)]

def toValue (i : Item) : Value := .object i.toFields

/-- Kind and mode of a project: by the contributions when there are any, else by its owners. -/
def kindAndMode (d : Disk) (sources : Contribution.Sources) (root : Path) (contributions : Value) :
    Except Fault (String × Value) := do
  if contributions.truthy then
    let shared ← contributions.fieldD "is_collaborative" false
    let mode ← contributions.fieldD "mode" "local"
    return (if shared.truthy then "collaborative" else "individual", mode)
  else
    let verdict ← kindOf d sources.history root
    return (verdict.kind.label, lower verdict.mode)

/-- The item of the project at a path.  The analysis of its documents and the contributions may be
given; they are worked out otherwise. -/
def ofProject (d : Disk) (services : Services) (place : Path) (name : Option String)
    (documents contributions : Value) : Except Fault Item := do
  let root := d.resolved place
  let name := match name with
    | some s => if s == "" then root.name else s
    | none => root.name
  let contributions := if contributions.truthy then contributions
    else ((Contribution.summary d services.sources root).toOption.getD .null).orElse (.object [])
  let (kind, mode) ← kindAndMode d services.sources root contributions
  let stack ← stackOf d root
  let skills ← skillsOf d root
  let documents := if documents.isObject then documents
    else (Document.analyze d services.pages root none []).toOption.getD (.object [])
  let tracked := mode == "git"
  return {
    name, kind, mode, stack, skills
    summary := sentence name kind stack.languages stack.frameworks tracked
    highlights := bullets kind stack.languages stack.frameworks skills tracked
    evidence := {
      findings := .ofAnalysis documents
      tests := ((d.filesBelow root).filter isTest).length
      team := .ofSummary contributions } }

end Item

/-! ## All projects of a directory -/

def projectsIn (d : Disk) (root : Path) : Except Fault (List Path) := do
  if !(← d.exists? root) then return []
  let names := sorted ((← d.list root).map (·.1))
  return (names.map root.entry).filter fun p => d.isDir p && !startsWith p.name "."

def itemsFile : String := "resume_items.json"

def writeItems (root : Path) (destination : Option Path) : Action Path := do
  let d ← disk
  let root := d.resolved root
  if !(← d.isDir? root) then
    throw (.say .badValue ("Invalid root path: " ++ root.text ++ ". Must be an existing directory."))
  let target := match destination with
    | some p => d.resolved p
    | none => root.entry itemsFile
  let services ← services
  let items ← (← projectsIn d root).mapM fun p => (Item.ofProject d services p none .null .null : Action Item)
  write target (.document .pretty (.object [
    ("generated_at", (← now).iso ++ "+00:00"),
    ("root", root.text),
    ("projects", .list (items.map (·.toValue)))]))
  return target

end Folio.Resume

/-
# Api.Analyses -- the analysis of the uploaded project
-/
import Folio.Analysis
import Folio.Api.Route

namespace Folio.Api.Analyses

/-- The directory of the uploaded project, and whether it was unpacked just now. -/
def directory (u : Upload) : Action (Path × Bool) := do
  let temp := (← get).temp
  match u with
  | .received name content => return (← Archive.extractOrFail temp (.upload name content), true)
  | .place p =>
    if !(← Action.ask (·.exists? p)) then
      throw (.reject 404 ("Uploaded path not found: " ++ p.text))
    if Text.lower p.suffix == ".zip" then return (← Archive.extractOrFail temp (.file p), true)
    return (p, false)

def firstText (texts : List (Option String)) (last : String) : String :=
  (texts.findSome? fun s => s.filter (· != "")).getD last

def analyze (r : Request) (root : Path) : Action Value := do
  let name := Naming.project (firstText [r.text? "project_name", (← get).context.projectName] root.name)
  let outcome ← Analysis.run root (some name) (r.flag "remove_duplicates" true)
  return .object [("status", Analysis.finished), ("dedup", outcome.duplicates),
    ("snapshots", .list outcome.snapshots), ("project_name", name)]

def run (r : Request) : Action Value := do
  match (← get).context.upload with
  | none => throw (.reject 400 "No project has been uploaded yet. Call POST /projects/upload first.")
  | some u =>
    telling 500 "Analysis failed: " do
      let (root, unpacked) ← directory u
      let answer ← Action.attempt (analyze r root)
      if unpacked then Action.change fun d => .ok (d.removeTree root)
      answer

end Folio.Api.Analyses

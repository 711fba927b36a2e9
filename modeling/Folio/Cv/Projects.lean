/-
# Cv.Projects -- projects that enter a document

A project enters a document from a language model that read it, or from a showcase.  A portfolio
that is made for showcases starts without the sample values of its template.
-/
import Folio.Cv.Render
import Folio.Portfolio.Showcase
import Folio.Resume.Entry

namespace Folio.Cv.Editing

def addFromModel (file : String) : Editing Reply := do
  (← document).needsData
  let data ← Action.ask (·.strictDocument (Path.ofString file))
  let root ← Resume.modelProject (← data.fieldD "project_root" .null)
  let p ← Resume.modelProfile root
  Action.print ("✓ AI analysis complete for: " ++ p.title.shown)
  edit (.add .projects [("name", p.title), ("summary", Resume.Entry.summary p.line p.stack),
    ("highlights", p.duties)])

def samples : List (String × String) := [
  ("email", "your.email@example.com"), ("phone", "+1 234 567 9801"),
  ("website", "https://yourwebsite.com"), ("location", "City, State")]

def withoutSamples (header : Fields) : Fields :=
  header.filter fun f => match samples.lookup f.1 with
    | some sample => !(f.2.isNull || f.2 == "" || f.2 == .text sample)
    | none => true

/-- Remove what the template put in: sample values, the sample project and connections without a
name. -/
def tidy : Editing Unit := do
  let d ← document
  match (d.data.orElse (.object [])).getOrNull "cv" with
  | .object fs => setDocument (d.putHeader (.object (withoutSamples fs)))
  | _ => pure ()
  discard (edit (.remove .projects "Project Name"))
  for c in (← document).entries .connections |>.itemsOrEmpty do
    let network ← c.fieldD "network" .null
    let username ← ((← c.fieldD "username" .null).orElse "").asText "strip"
    if network.truthy && Text.trim username == "" then discard (edit (.remove .connections network))
  discard (save none)

def openPortfolio (name : String) : Editing Unit := do
  discard (generate name false)
  discard (load (some name))
  tryCatch tidy fun _ => pure ()

def addShowcase (s : Portfolio.Showcase) : Editing Reply := do
  edit (.add .projects (← s.projectFields))

end Folio.Cv.Editing

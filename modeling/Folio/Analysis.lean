/-
# Analysis -- a project looked at from all sides

An analysis joins the hierarchy, the documents, the time span, the contributions, the resume item and the figures of the
code in one document.  It is noted in the log, duplicates are taken out, and the document is saved with a snapshot of
itself.  The time span, the contributions and the entry in the log may fail without harm.
-/
import Folio.Archive.Extraction
import Folio.Code.Project
import Folio.Dedup
import Folio.Hierarchy
import Folio.Insight.Log
import Folio.Portfolio.Overrides
import Folio.Portfolio.Showcase
import Folio.Resume.Item
import Folio.Saved.Export

namespace Folio.Analysis

open Action Insight.Log

def log : Action Path := return (Context.usualFilesDir (← get).context.home).entry "project_insights.json"

/-! ## The code -/

def measuredLanguages : List String := ["Python", "Java", "C", "JavaScript", "C++", "C#"]

def codeFigures (root : Path) (languages : List String) : Action (Option Value) := do
  if !languages.any measuredLanguages.contains then return none
  let w ← get
  let (figures, notes) ← Code.survey w.services.parsers w.disk root
  for note in notes do print note
  return some figures

/-! ## The document -/

def timeSpan (hierarchy : Value) : String :=
  match Duration.estimate hierarchy with
  | .ok e => e.delta.described
  | .error _ => "Unknown"

def itemFields (item : Resume.Item) (span : String) : Fields :=
  let evidence := item.evidence.toValue.set "duration" span
  Fields.set item.toFields "evidence" evidence

def showcaseParts (analysis : Value) : Value :=
  .object (["resume_item", "contributors", "oop_analysis", "document_analysis"].map fun key =>
    (key, analysis.getOrNull key))

/-- The analysis of the project in a directory, before it is noted and saved. -/
def document (root : Path) (name : String) : Action Value := do
  let w ← get
  let d := w.disk
  let hierarchy ← Hierarchy.ofDirectory d root
  let span := timeSpan hierarchy
  let documents ← Document.analyze d w.services.pages root none []
  let contributions := ((Contribution.summary d w.services.sources root).toOption).getD .null
  let people := contributions.getOrNull "contributors"
  let item ← Resume.Item.ofProject d w.services root (some name) documents contributions
  let stack := ((Project.stackOf d root).toOption.map (·.languages)).getD []
  let figures ← codeFigures root (stack ++ item.stack.languages)
  return .object ([
    ("project_root", .text root.text),
    ("hierarchy", hierarchy),
    ("document_analysis", documents),
    ("duration_estimate", .text span),
    ("resume_item", .object (itemFields item span)),
    ("project_type", .object [("project_type", .text item.kind), ("mode", item.mode)])]
    ++ (if contributions.isNull then [] else [("contribution_summary", contributions)])
    ++ (if people.truthy then [("contributors", people)] else [])
    ++ (figures.map fun v => ("oop_analysis", v)).toList)

/-! ## The run -/

structure Outcome where
  duplicates : Value
  snapshots : List Value

namespace Outcome

def toValue (o : Outcome) : Value :=
  .object [("dedup", o.duplicates), ("snapshots", .list o.snapshots)]

end Outcome

def indexFile : Action Path := return (← Context.required (← get).context.saveDir).entry "dedup_index.json"

def run (root : Path) (name : Option String) (removeDuplicates : Bool) : Action Outcome := do
  let name := Naming.project (match name with
    | some s => if s == "" then root.name else s
    | none => root.name)
  let analysis ← document root name
  discard (Portfolio.Showcase.ofAnalysis (showcaseParts analysis) (← Portfolio.Overrides.load name))
  let label ← Insight.stamp (← now)
  discard (attempt (record (← log) analysis {
    contributors := analysis.getOrNull "contributors", label := .text label }))
  let found ← Dedup.run root (← indexFile) removeDuplicates false
  let analysis := analysis.set "dedup" found.toValue
  return ⟨found.toValue, ← Saved.exportAnalysis name analysis.withTextTimes⟩

def finished : String := "Analysis Finished and Saved"

/-- Analyze a directory or an archive, and note and save the outcome again under its name. -/
def runAndKeep (place : Path) : Action Unit := do
  let root ← if Text.lower place.suffix == ".zip"
    then Archive.extractOrFail (← get).temp (.file place) else pure place
  let outcome ← run root none true
  discard (record (← log) outcome.toValue {})
  discard (Saved.exportAnalysis root.name outcome.toValue)

def runAll (places : List Path) : Action Unit := do
  let lines ← places.mapM fun p => do
    match ← attempt (runAndKeep p) with
    | .ok _ => return p.text ++ ": " ++ finished
    | .error f => return "[ERROR] " ++ p.text ++ ": " ++ f.text
  for line in lines do print line

end Folio.Analysis

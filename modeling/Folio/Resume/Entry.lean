/-
# Resume.Entry -- a stored project as an entry of a resume

The facts of a stored project are put into words for a language model, and its reply becomes an
entry.  A model that cannot be reached gives none.
-/
import Folio.Resume.Brief
import Folio.Store.Session

namespace Folio.Resume

open Action

structure Facts where
  name : Value
  kind : Value
  skills : Value
  languages : Value
  frameworks : Value
  summary : Value
  highlights : Value
  score : Value
  rating : Value
  duration : Value
  sources : Value

namespace Facts

def toValue (f : Facts) : Value := .object [
  ("project_name", f.name), ("project_type", f.kind), ("skills", f.skills),
  ("languages", f.languages), ("frameworks", f.frameworks), ("summary", f.summary),
  ("highlights", f.highlights), ("oop_score", f.score), ("oop_rating", f.rating),
  ("duration_estimate", f.duration), ("framework_sources", f.sources)]

/-- The part of a record with the score; a bare number is a score without a rating. -/
def scorePart (raw : Value) : Value :=
  match raw with
  | .object fs => .object fs
  | v => .object [("oop_score", if v.number?.isSome then v else .real 0.0), ("rating", "")]

def kindOf (record : Value) : Value :=
  match (record.get? "project_type").getD "unknown" with
  | .object fs => (Fields.get? fs "project_type").getD "unknown"
  | .text s => .text s
  | _ => .text "unknown"

def ofRecord (record : Value) : Except Fault Facts := do
  let resume ← record.fieldD "resume_item" (.object [])
  let score := scorePart (← (← record.fieldD "oop_analysis" (.object [])).fieldD "score" (.object []))
  return {
    name := ← resume.fieldD "project_name" ""
    kind := kindOf record
    skills := ← resume.fieldD "skills" (.list [])
    languages := ← resume.fieldD "languages" (.list [])
    frameworks := ← resume.fieldD "frameworks" (.list [])
    summary := ← resume.fieldD "summary" ""
    highlights := ← resume.fieldD "highlights" (.list [])
    score := ← score.fieldD "oop_score" (.real 0.0)
    rating := ← score.fieldD "rating" ""
    duration := ← record.fieldD "duration_estimate" ""
    sources := ← resume.fieldD "framework_sources" (.object []) }

def listed (v : Value) : Except Fault String :=
  if v.truthy then v.joined ", " else .ok "Not detected"

def brief (f : Facts) : Except Fault String := do
  let languages ← listed f.languages
  let frameworks ← listed f.frameworks
  let skills ← listed f.skills
  let lines := [
    s!"Project Name: {f.name}",
    s!"Project Type: {f.kind}",
    s!"Languages: {languages}",
    s!"Frameworks: {frameworks}",
    s!"Skills: {skills}",
    s!"Summary: {f.summary}",
    s!"OOP Score: {f.score} ({f.rating})",
    s!"Duration Estimate: {f.duration}",
    "Highlights:"]
  return Text.join "\n" (lines ++ (← f.highlights.elements).map fun h => s!"  - {h}")

def stored? (name : String) : Action (Option Facts) := do
  match ← Store.Session.fetch? name with
  | some record => if record.truthy then return some (← ofRecord record) else return none
  | none => return none

end Facts

structure Entry where
  title : Value
  line : Value
  details : Value
  duties : List Value
  skills : Value
  stack : Value
  impact : Value

namespace Entry

def toValue (e : Entry) : Value := .object [
  ("project_title", e.title), ("one_sentence_summary", e.line), ("detailed_summary", e.details),
  ("key_responsibilities", .list e.duties), ("key_skills_used", e.skills),
  ("tech_stack", e.stack), ("impact", e.impact)]

def ofReply (reply : Value) : Except Fault Entry := do
  let duties ← (← reply.fieldD "key_responsibilities" (.list [])).elements
  let get (key : String) (fallback : Value) : Value := (reply.get? key).getD fallback
  let stack := get "tech_stack" ""
  return {
    title := get "project_title" ""
    line := get "one_sentence_summary" ""
    details := get "detailed_summary" ""
    duties := duties ++ (if stack.truthy then [.text s!"Tech Stack: {stack}"] else [])
    skills := get "key_skills_used" (.list [])
    stack
    impact := get "impact" "" }

def summary (line stack : Value) : Value :=
  if stack.truthy then .text s!"{line} Tech stack: {stack}" else line

def generate (name : String) (known : Bool) (facts : Option Facts) : Action (Option Entry) := do
  if !known then
    print s!"Project '{name}' not found in database."
    return none
  match facts with
  | none =>
    print "No project data available."
    return none
  | some f =>
    discard f.brief
    print s!"Generating AI resume entry for: {f.name}"
    let services ← services
    let reply := if services.modelKey then services.reply else .error noKey
    match reply with
    | .error e =>
      print s!"Error generating AI resume entry: {e.text}"
      return none
    | .ok v => return some (← ofReply v)

def ofProject (name : String) (known : Bool) : Action (Option Entry) := do
  generate name known (← if known then Facts.stored? name else pure none)

end Entry

end Folio.Resume

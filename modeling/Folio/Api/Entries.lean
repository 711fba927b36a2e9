/-
# Api.Entries -- editing a document from outside

What an edit says decides the answer: words that tell of success are passed on, words that tell of a missing or a second
entry turn the request down.
-/
import Folio.Api.Documents

namespace Folio.Api.Entries

open Pattern Resume.Entry Store.Session Text

open Cv (Kind Editing Edit Part)
open Cv.Editing (document)
open Documents (idOf opened word)

variable (kind : Kind) (p : Part) (r : Request)

def said (e : Edit) : Editing String := return ((← Cv.Editing.edit e).text?).getD ""

def tells (text words : String) : Bool := contains (lower text) words

def checked (text : String) : Except Fault String :=
  if tells text "successfully" then .ok text else .error (.reject 400 text)

/-! ## Edits -/

def editable : Kind → List (String × Part)
  | .resume => [("experience", .experience), ("education", .education), ("projects", .projects),
      ("awards", .awards)]
  | .portfolio => [("projects", .projects)]

def sectionNames : Kind → String
  | .resume => "experience, education, projects, skills, awards, summary, contact, theme, connections"
  | .portfolio => "projects, skills, summary, contact, theme, connections"

def contactFields : List String := sorted Cv.Document.contactFields

def editContact (field : String) (value : Value) : Editing String := do
  if !contactFields.contains field then
    throw (.reject 400 ("Unknown contact field '" ++ field ++ "'. Valid fields: "
      ++ join ", " contactFields))
  discard (Cv.Editing.edit (.contact [(field, value)]))
  return "Successfully updated contact field '" ++ field ++ "'"

def isConnected (network : String) : List Value → Except Fault Bool
  | [] => .ok false
  | c :: cs => do
    if (← c.fieldD "network" .null) == .text network then return true
    isConnected network cs

def editConnection (network field : String) (value : Value) : Editing String := do
  if field == "delete" then return ← checked (← said (.remove .connections network))
  let known ← if network == "" then pure true
    else isConnected network (← (← (← document).list .connections).elements)
  if known then checked (← said (.renew .connections network value.shown))
  else checked (← said (.add .connections
    [("network", network), ("username", value.shown)]))

def editOne (e : Value) : Editing Value := do
  let part := lower (e.getOrNull "section").textOrEmpty
  let name := e.getOrNull "item_name"
  let field := e.getOrNull "field"
  let value := e.getOrNull "new_value"
  .text <$> match part with
    | "summary" => do checked (← said (.summary value.shown))
    | "contact" => editContact field.textOrEmpty value
    | "theme" => Documents.choosingTheme do checked (← said (.theme value.shown))
    | "skills" => do checked (← said (.renew .skills name value))
    | "connections" => editConnection name.textOrEmpty field.textOrEmpty value
    | _ =>
      match (editable kind).lookup part with
      | some p => do checked (← said (.modify p name field value))
      | none => throw (.reject 400 ("Unknown section '" ++ part ++ "'. Valid: " ++ sectionNames kind))

def edit : Action Value :=
  opened kind (idOf kind r) do
    return .object [("results", .list (← (r.body.getOrNull "edits").itemsOrEmpty.mapM (editOne kind)))]

/-! ## Projects -/

def addProject (fields : Fields) : Editing Value := do
  return status (← telling 500 "Failed to add project: " do checked (← said (.add .projects fields)))

def taken (body : Value) (keys : List String) : Fields := keys.map fun key => (key, body.getOrNull key)

def addOwnProject : Action Value :=
  opened kind (idOf kind r) (addProject (taken r.body Part.projects.fields))

def storedNames (project : String) : List String :=
  if endsWith project ".json" then [project] else [project, project ++ ".json"]

def firstStored? : List String → Action (Option Value)
  | [] => return none
  | name :: names => do
    match ← fetch? name with
    | some v => return some v
    | none => firstStored? names

def usualFields : Fields := [
  ("project_name", ""), ("start_date", "2025-01"), ("end_date", "2026-02"),
  ("location", .text (match kind with
    | .resume => "City, Country"
    | .portfolio => "N/A"))]

/-- The fields of a project: what the client says comes before what the record says. -/
def projectFields (item body : Value) : Except Fault Fields :=
  Part.projects.fields.mapM fun key => do
    let stored := if key == "name" then "project_name" else key
    let own := body.getOrNull key
    if own.truthy then return (key, own)
    return (key, ← item.fieldD stored ((Fields.get? (usualFields kind) stored).getD .null))

def addStoredProject : Action Value :=
  opened kind (idOf kind r) do
    let project := r.text "project_name"
    match ← (firstStored? (storedNames project) : Action (Option Value)) with
    | none =>
      let noun := match kind with
        | .resume => "Project record '"
        | .portfolio => "Project '"
      throw (.reject 404 (noun ++ project ++ "' not found in database"))
    | some record =>
      let item := if record.isObject then record.getOrNull "resume_item" else .null
      if !item.truthy then
        throw (.reject 400 ("Project record '" ++ project ++ "' has no resume_item data"))
      addProject (← projectFields kind item r.body)

def needsConsent : Action Unit := do
  let c := (← get).context
  if !c.externalConsent then
    throw (.reject 403 "External consent is required to use AI features.")
  if !c.dataConsent then throw (.reject 403 "Data consent is required to use AI features.")

def addModelProject : Action Value := do
  needsConsent
  opened kind (idOf kind r) do
    let project := r.text "project_name"
    let there ← (has project : Action Bool)
    let name := if there || endsWith project ".json" then project else project ++ ".json"
    let known ← (has name : Action Bool)
    if !known then throw (.reject 404 ("Project '" ++ project ++ "' not found in database"))
    let entry ← (telling 500 "AI generation failed: " (ofProject name known) :
      Action (Option Resume.Entry))
    match entry with
    | none => throw (.reject 400 ("AI generation returned no data for '" ++ project ++ "'"))
    | some e =>
      let date (key : String) : Value := ((r.value "overrides").getOrNull key).orElse .null
      addProject [("name", e.title), ("summary", summary e.line e.stack),
        ("highlights", .list e.duties), ("start_date", date "start_date"),
        ("end_date", date "end_date")]

/-! ## Entries of all parts -/

def givenFields : List String := p.fields.filter fun key => p != .experience || key != "summary"

def add : Action Value :=
  opened kind (idOf kind r) do
    let text ← said (.add p (taken r.body (givenFields p)))
    let second := if p == .awards then tells text "already exists" else contains text "Duplicate"
    let done := if p == .awards then tells text "successfully"
      else text == "Successfully added " ++ p.plural
    if second then throw (.reject 409 text)
    if !done then throw (.reject 400 text)
    return status text

def noneLeft : Part → String
  | .education => "no education to delete"
  | .experience => "no experience to delete"
  | p => "no " ++ p.plural

def remove (nameKey : String) (r : Request) : Action Value :=
  opened kind (idOf kind r) do
    let text ← said (.remove p (r.text nameKey))
    if tells text "not found" || tells text (noneLeft p) then throw (.reject 404 text)
    return status text

/-! ## Skills -/

def skillsOf (label : String) : List Value → Except Fault (Option Value)
  | [] => .ok none
  | s :: ss => do
    if (← s.fieldD "label" .null) == .text label then return some s
    skillsOf label ss

def detailsOf (label missing : String) : Editing Value := do
  match ← skillsOf label (← (← (← document).list .skills).elements) with
  | some s => s.fieldD "details" ""
  | none => throw (.reject 404 missing)

def detailsAnswer (text details : String) : Value :=
  .object [("status", text), ("details", details)]

def append : Action Value :=
  opened kind (idOf kind r) do
    let label := r.text "label"
    let more := trim (r.body.getOrNull "details").textOrEmpty
    let old ← (← detailsOf label ("Skill '" ++ label ++ "' not found")).asText "strip"
    let old := trimEndChars "," (trim old)
    let details := if old == "" then more else old ++ ", " ++ more
    return detailsAnswer (← checked (← said (.renew .skills label details))) details

def levelEnding : Pattern := .sequence [
  blanks, .lit "(", .span false 0 none notNewline, .lit ")", blanks,
  atTextEnd]

def bareSkill (skill : String) : String := trim (levelEnding.replaceAll "" skill)

def withLevel (skill level : String) : String := bareSkill skill ++ " (**" ++ level ++ "**)"

def setLevel : Action Value :=
  opened kind (idOf kind r) do
    let label := r.text "label"
    let given := (r.body.getOrNull "skill_name").textOrEmpty
    let level := trim (r.body.getOrNull "level").textOrEmpty
    let old ← (← detailsOf label ("Skill category '" ++ label ++ "' not found")).asText "split"
    let skills := (splitOn old ",").map trim
    let meant (s : String) : Bool := lower (bareSkill s) == lower (trim given)
    if !skills.any meant then
      throw (.reject 404 ("Skill '" ++ given ++ "' not found in category '" ++ label ++ "'"))
    let details := join ", " (skills.map fun s => if meant s then withLevel s level else s)
    let text ← said (.renew .skills label details)
    if tells text "not found" then throw (.reject 404 text)
    return detailsAnswer text details

end Folio.Api.Entries

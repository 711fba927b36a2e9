/-
# Cv.Part -- the parts of a document that hold entries

An entry is addressed by one of its fields, its name.  Here stand the fields of each kind of entry, and the words in
which the outcome of an operation is told.
-/
import Folio.Value.Quoted

namespace Folio.Cv

open Fields

inductive Part where
  | projects
  | awards
  | connections
  | experience
  | education
  | skills
  deriving Repr, DecidableEq

namespace Part

def key : Part → String
  | .projects => "projects"
  | .awards => "awards"
  | .connections => "social_networks"
  | .experience => "experience"
  | .education => "education"
  | .skills => "skills"

def nameField : Part → String
  | .projects | .awards => "name"
  | .connections => "network"
  | .experience => "company"
  | .education => "institution"
  | .skills => "label"

def fields : Part → List String
  | .projects => ["name", "start_date", "end_date", "location", "summary", "highlights"]
  | .awards => ["name", "date", "location", "highlights", "website"]
  | .connections => ["network", "username"]
  | .experience => ["company", "position", "start_date", "end_date", "location", "highlights"]
  | .education => ["institution", "area", "start_date", "end_date", "location", "degree", "gpa",
      "highlights"]
  | .skills => ["label", "details"]

def required : Part → List String
  | .projects | .awards => ["name"]
  | .connections => []
  | .experience => ["company"]
  | .education => ["institution", "area"]
  | .skills => ["label", "details"]

def editable : Part → List String
  | .experience => ["company", "position", "start_date", "end_date", "location", "summary",
      "highlights"]
  | .education => ["institution", "area", "degree", "start_date", "end_date", "location", "gpa",
      "highlights"]
  | p => p.fields

/-- Connections stand in the header; all else stands in the sections. -/
def inHeader (p : Part) : Bool := p == .connections

def resumeOnly (p : Part) : Bool := p == .experience || p == .education

def distinct (p : Part) : Bool := p != .experience

/-- Whether an entry of a part says one thing besides its name. -/
def saysOneThing (p : Part) : Bool := p == .connections || p == .skills

def all : List Part := [.projects, .awards, .connections, .experience, .education, .skills]

def noun : Part → String
  | .projects => "Project"
  | .awards => "Award"
  | .connections => "Connection"
  | .experience => "Experience"
  | .education => "Education"
  | .skills => "Skill"

def plural : Part → String
  | .connections => "connections"
  | p => p.key

end Part

inductive Outcome where
  | blankName
  | taken (name : Value)
  | added (name : Value)
  | badField (field : Value)
  | absent (name : Value)
  | changed (field : Value)
  /-- The one thing that an entry says was set. -/
  | renewed (name : Value)
  | removed (name : Value)
  | nothingTo (verb : String)
  | cleared (count : Nat)

namespace Outcome

variable (p : Part) (name : Value)

def tookEffect : Outcome → Bool
  | .added _ | .changed _ | .renewed _ | .removed _ | .cleared _ => true
  | _ => false

def quotedName (v : Value) : String := "'" ++ v.shown ++ "'"

def blankMessage : Part → String
  | .projects => "Project name cannot be empty"
  | .awards => "Award name cannot be empty"
  | .connections => "Network name cannot be empty"
  | .experience => "Company name cannot be empty"
  | .education => "Institution name cannot be empty"
  | .skills => "Skill label cannot be empty"

def takenMessage : String :=
  match p with
  | .education => "Duplicate education entry"
  | .skills => "Duplicate skill label"
  | p => p.noun ++ " " ++ quotedName name ++ " already exists"

def addedMessage : String :=
  match p with
  | .projects => "Successfully added project " ++ quotedName name
  | .awards => "Successfully added award " ++ quotedName name
  | .connections => "Successfully added: " ++ name.shown
  | .experience => "Successfully added experience"
  | .education => "Successfully added education"
  | .skills => "Successfully added skills"

def removedMessage : String :=
  match p with
  | .experience => "Successfully removed experience"
  | .education => "Successfully deleted education"
  | .skills => "Successfully deleted skill"
  | _ => "Successfully deleted: " ++ name.shown

def renewedMessage : String :=
  match p with
  | .skills => "Successfully updated skill " ++ quotedName name
  | _ => "Successfully updated: " ++ name.shown

def clearedNoun : Part → String
  | .projects => "project(s)"
  | .awards => "award(s)"
  | .skills => "skill category(ies)"
  | p => p.plural

def message : Outcome → String
  | .blankName => blankMessage p
  | .taken name => takenMessage p name
  | .added name => addedMessage p name
  | .badField field => "Invalid field " ++ quotedName field ++ ". Valid: " ++ Text.join ", " p.editable
  | .absent name => p.noun ++ " " ++ quotedName name ++ " not found"
  | .changed field => "Successfully modified " ++ field.shown
  | .renewed name => renewedMessage p name
  | .removed name => removedMessage p name
  | .nothingTo verb => "No " ++ p.plural ++ " to " ++ verb
  | .cleared count => "Successfully cleared " ++ toString count ++ " " ++ clearedNoun p

end Outcome

/-! ## Entries -/

/-- An entry of a part from given values: the fields in order, those without a value left out.
Every required field has to be given, and no other field may be. -/
def Part.entry (p : Part) (given : Fields) : Except Fault Fields := do
  match given.find? fun f => !p.fields.contains f.1 with
  | some f => throw (.wrongType ("got an unexpected keyword argument '" ++ f.1 ++ "'"))
  | none => pure ()
  match p.required.find? fun key => !has given key with
  | some key => throw (.wrongType ("missing 1 required positional argument: '" ++ key ++ "'"))
  | none => pure ()
  return p.fields.map fun key => (key, (get? given key).getD .null)

def linkMark : String := "Link: "

def present (entry : Fields) : Fields := entry.filter fun f => !f.2.isNull

/-- An award as it is kept: its website is one of the highlights. -/
def awardRecord (entry : Fields) : Except Fault Fields := do
  let kept := (present entry).filter fun f => f.1 != "website"
  let website := (get? entry "website").getD .null
  if !website.truthy then return kept
  let highlights ← (((get? kept "highlights").getD .null).orElse (.list [])).elements
  return set kept "highlights" (.list (highlights ++ [.text (linkMark ++ website.shown)]))

def Part.record (p : Part) (entry : Fields) : Except Fault Value := do
  match p with
  | .awards => return .object (← awardRecord entry)
  | _ => return .object (present entry)

end Folio.Cv

/-
# Cv.Document -- a resume or a portfolio in memory

A document is a record with a header, in which the connections and the sections stand, and a design.  Beside the record
it holds its lists of entries.  A list is `live` as long as it is the list of the record; when the record loses its
section, or another record is loaded, the document keeps the list for itself.
-/
import Folio.Cv.Part
import Folio.Path
import Folio.Value.Order

namespace Folio.Cv

inductive Kind where
  | resume
  | portfolio
  deriving Repr, DecidableEq

def Kind.fileSuffix : Kind → String
  | .resume => "Resume_CV"
  | .portfolio => "Portfolio_CV"

def Kind.label : Kind → String
  | .resume => "Resume"
  | .portfolio => "Portfolio"

/-- Where something stands: in the record, or kept beside it. -/
inductive Slot where
  | live
  | kept (v : Value)

structure Document where
  kind : Kind
  autoSave : Bool := true
  theme : Value := .text "sb2nov"
  name : Option String := none
  file : Option Path := none
  data : Value := .null
  sections : Slot := .kept .null
  summary : Slot := .kept .null
  slots : Part → Slot := fun _ => .kept .null

namespace Document

variable (d : Document) (p : Part) (v : Value)

/-! ## The record and the lists -/

def header : Value := d.data.getOrNull "cv"

def putHeader : Document := { d with data := d.data.set "cv" v }

def sectionsValue : Value :=
  match d.sections with
  | .live => d.header.getOrNull "sections"
  | .kept v => v

def putSections : Document :=
  match d.sections with
  | .live => d.putHeader (d.header.set "sections" v)
  | .kept _ => { d with sections := .kept v }

def place : Value := if p.inHeader then d.header else d.sectionsValue

def putPlace : Document :=
  if p.inHeader then d.putHeader v else d.putSections v

def entries : Value :=
  match d.slots p with
  | .live => (d.place p).getOrNull p.key
  | .kept v => v

def setSlot (s : Slot) : Document :=
  { d with slots := fun q => if q = p then s else d.slots q }

def putEntries : Document :=
  match d.slots p with
  | .live => d.putPlace p ((d.place p).set p.key v)
  | .kept _ => d.setSlot p (.kept v)

/-- Put a list into the record; it is live from then on. -/
def install : Document :=
  (d.putPlace p ((d.place p).set p.key v)).setSlot p .live

def summaryValue : Value :=
  match d.summary with
  | .live => d.sectionsValue.getOrNull "summary"
  | .kept v => v

def keep : Document := d.setSlot p (.kept (d.entries p))

def keepSummary : Document := { d with summary := .kept d.summaryValue }

def keepLists : Document :=
  (Part.all.filter (!·.inHeader)).foldl keep d.keepSummary

def keepSections : Document :=
  { d.keep .connections with sections := .kept d.sectionsValue }

/-! ## Conditions -/

/-- The condition of most operations: a record with a header. -/
def needsData : Except Fault Unit := do
  if d.data.isNull then throw (.say .badValue "No data loaded")
  if (← d.data.fieldD "cv" .null).isNull then
    throw (.say .badValue "Invalid data structure: missing required 'cv' key")

def needsResume : Except Fault Unit := do
  if d.kind != .resume then throw (.say .badValue "Method requires document type 'resume'")

def needs : Except Fault Unit := do
  d.needsData
  if p.resumeOnly then d.needsResume

def sectionFields : Except Fault Fields :=
  match d.sectionsValue with
  | .object fs => .ok fs
  | v => .error (.wrongType ("argument of type '" ++ v.kindName ++ "' is not iterable"))

def hasList : Except Fault Bool := do
  if p.inHeader then d.header.holds p.key
  else return Fields.has (← d.sectionFields) p.key

/-! ## Reading -/

def list : Except Fault Value := do
  d.needs p
  return (d.entries p).orElse (.list [])

def count : Except Fault Nat := do
  if p.resumeOnly then d.needsResume
  if (d.entries p).isNull then return 0 else (d.entries p).size

def summaryText : Except Fault Value := do
  d.needsData
  match d.summaryValue with
  | .list (x :: _) => return x
  | .text s => return .text (Text.takeChars 1 s)
  | .object (_ :: _) => throw (.met .missingKey "0")
  | v =>
    if v.truthy then throw (.wrongType ("'" ++ v.kindName ++ "' object is not subscriptable"))
    else return .text ""

def contactFields : List String := ["name", "email", "phone", "location", "website"]

def contact : Except Fault Value := do
  d.needsData
  return .object (← contactFields.mapM fun key => do
    return (key, ← d.header.fieldD key ""))

def designTheme : Except Fault Value := do
  d.needsData
  (← d.data.fieldD "design" (.object [])).fieldD "theme" "sb2nov"

end Document

end Folio.Cv

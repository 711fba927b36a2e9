/-
# Cv.Edit -- editing a document

`Document.apply` gives the document after an edit and what is told about it, or it fails and nothing changes.  An entry
that cannot be added may leave something behind all the same: the new list that was made for it.
-/
import Folio.Cv.Document

namespace Folio.Cv

open Fields Text

inductive Edit where
  | contact (fields : Fields)
  | theme (name : Value)
  | summary (text : Value)
  | add (p : Part) (given : Fields)
  /-- Set a field of the entry of a name. -/
  | modify (p : Part) (name field value : Value)
  /-- Set what the entry of a name says. -/
  | renew (p : Part) (name value : Value)
  | remove (p : Part) (name : Value)
  | clear (p : Part)
  /-- Remove the section of a number; the first section does not count. -/
  | removeSection (number : Value)

inductive Reply where
  | made
  | outcome (p : Part) (o : Outcome)
  | told (text : String)
  | failed (f : Fault)

def Reply.text? : Reply → Option String
  | .made | .failed _ => none
  | .outcome p o => some (o.message p)
  | .told text => some text

/-- The document after an edit, what is told, and whether anything was changed. -/
structure Edited where
  document : Document
  reply : Reply
  changed : Bool

namespace Document

variable (d : Document) (p : Part) (name : Value)

def themes : List String := ["classic", "engineeringclassic", "engineeringresumes", "moderncv", "sb2nov"]

def settled (o : Outcome) : Edited := ⟨d, .outcome p o, o.tookEffect⟩

/-! ## Header and design -/

def contactOrder : List String := ["email", "phone", "location", "website", "name"]

def contactTexts (fields : Fields) : List (String × String) :=
  contactOrder.filterMap fun key =>
    let v := (get? fields key).getD .null
    let text := trim v.shown
    if v.truthy && text != "" then some (key, text) else none

def editContact (fields : Fields) : Except Fault Edited := do
  d.needsData
  let texts := contactTexts fields
  if !texts.isEmpty && !d.header.isObject then
    throw (.wrongType ("'" ++ d.header.kindName ++ "' object does not support item assignment"))
  let header := texts.foldl (fun h f => h.set f.1 f.2) d.header
  return ⟨d.putHeader header, .made, true⟩

def editTheme : Except Fault Edited := do
  d.needsData
  if !(← name.isMember (themes.map .text)) then
    throw (.say .badValue ("Invalid theme '" ++ name.shown ++ "'. Available: " ++ join ", " themes))
  match ← d.data.field "design" with
  | .object fs =>
    return ⟨{ d with data := d.data.set "design" (.object (set fs "theme" name)) },
      .told ("Successfully updated theme '" ++ name.shown ++ "'"), true⟩
  | v => throw (.wrongType ("'" ++ v.kindName ++ "' object does not support item assignment"))

def editSummary (text : Value) : Except Fault Edited := do
  d.needsData
  let sections ← d.sectionFields
  let d := d.putSections (.object (set sections "summary" (.list [text])))
  return ⟨{ d with summary := .live }, .told "Summary updated successfully", true⟩

/-! ## Entries -/

def names (entries : List Value) : Except Fault (List Value) :=
  entries.mapM fun e => if p == .awards then e.fieldD p.nameField .null else e.field p.nameField

/-- Connections are kept without blanks around them. -/
def tidied (entry : Fields) : Except Fault Fields :=
  if p != .connections then .ok entry
  else entry.mapM fun f => do
    if f.2.truthy then return (f.1, trim (← f.2.asText "strip")) else return f

def growing (v : Value) : Except Fault (List Value) :=
  match v with
  | .list xs => .ok xs
  | v => .error (.noAttribute v.kindName "append")

def takenNames : Except Fault (List Value) := do
  if p.distinct then names p (← (d.entries p).elements) else return []

def append (entry : Fields) : Except Fault Edited := do
  let entry ← tidied p entry
  let name := (get? entry p.nameField).getD .null
  if (← d.takenNames p).contains name then return d.settled p (.taken name)
  let entries ← growing (d.entries p)
  return (d.putEntries p (.list (entries ++ [← p.record entry]))).settled p (.added name)

def addEntry (given : Fields) : Except Fault Edited := do
  let entry ← p.entry given
  d.needs p
  let name := (get? entry p.nameField).getD .null
  if !name.truthy then return d.settled p .blankName
  if trim (← name.asText "strip") == "" then return d.settled p .blankName
  let d := if ← d.hasList p then d else d.install p (.list [])
  match d.append p entry with
  | .ok edited => return edited
  -- The new list stays.
  | .error f => return ⟨d, .failed f, false⟩

def find? (p : Part) (name : Value) : List Value → Except Fault (Option Nat)
  | [] => .ok none
  | e :: es => do
    if (← e.fieldD p.nameField .null) == name then return some 0
    return (← find? p name es).map (· + 1)

def relinked (highlights : List Value) (website : Value) : Except Fault (List Value) := do
  let texts ← highlights.mapM fun h => do return (h, ← h.asText "startswith")
  let kept := (texts.filter fun t => !startsWith t.2 linkMark).map (·.1)
  return kept ++ (if website.truthy then [.text (linkMark ++ website.shown)] else [])

/-- An entry with a field set; the website of an award is one of its highlights. -/
def assigned (entry field value : Value) : Except Fault Value := do
  if p == .awards && field == "website" then
    let highlights ← ((entry.getOrNull "highlights").orElse (.list [])).elements
    return entry.set "highlights" (.list (← relinked highlights value))
  else return entry.set field.textOrEmpty value

def modifyEntry (name field value : Value) : Except Fault Edited := do
  d.needs p
  if !(p.editable.map Value.text).contains field then return d.settled p (.badField field)
  let entries ← (d.entries p).elements
  match ← find? p name entries with
  | none => return d.settled p (.absent name)
  | some i =>
    let entry ← assigned p (entries.getD i .null) field value
    return (d.putEntries p (.list (entries.set i entry))).settled p (.changed field)

/-- What an entry says: the details of a skill as they are, the name on a network trimmed. -/
def renewed (entry value : Value) : Except Fault Value := do
  match p with
  | .skills => return entry.set "details" value
  | _ => return entry.set "username" (trim (← value.asText "strip"))

def renewEntry (name value : Value) : Except Fault Edited := do
  d.needs p
  if p == .skills && !(d.entries p).truthy then return d.settled p (.nothingTo "modify")
  let entries ← (d.entries p).elements
  match ← find? p name entries with
  | none => return d.settled p (.absent name)
  | some i =>
    let entry ← renewed p (entries.getD i .null) value
    return (d.putEntries p (.list (entries.set i entry))).settled p (.renewed name)

/-- Whether there is a list to remove from; projects and awards are looked for in the sections. -/
def hasOwnList : Except Fault Bool :=
  if p == .projects || p == .awards then d.hasList p else .ok true

def removeEntry : Except Fault Edited := do
  d.needs p
  if !(← d.hasOwnList p) || !(d.entries p).truthy then return d.settled p (.nothingTo "delete")
  let entries ← (d.entries p).elements
  match ← find? p name entries with
  | none => return d.settled p (.absent name)
  | some i => return (d.putEntries p (.list (entries.eraseIdx i))).settled p (.removed name)

def clearEntries : Except Fault Edited := do
  d.needs p
  if !(d.entries p).truthy then return d.settled p (.nothingTo "clear")
  let count ← (d.entries p).size
  if p == .skills then return (d.putEntries p (.list [])).settled p (.cleared count)
  discard d.sectionFields
  return (d.install p (.list [])).settled p (.cleared count)

/-! ## Sections -/

/-- Take a section out of the record; the document keeps its list. -/
def dropSection (name : String) : Document :=
  let live (p : Part) : Bool := !p.inHeader && p.key == name && (match d.slots p with
    | .live => true
    | .kept _ => false)
  let kept := (Part.all.filter live).foldl keep (if name == "summary" then d.keepSummary else d)
  kept.putSections (kept.sectionsValue.erase name)

def dropSectionAt (number : Value) : Except Fault Edited := do
  d.needsData
  d.needsResume
  let available := (← d.sectionsValue.asObject "keys").keys.drop 1
  if available.isEmpty then return ⟨d, .told "No sections available to remove", false⟩
  let n ← number.asNumber
  if Number.lt n (.int 0) || Number.le (.int available.length) n then
    return ⟨d, .told ("Invalid section index " ++ number.shown ++ ". Valid range: 0-"
      ++ toString (available.length - 1)), false⟩
  match n with
  | .int i =>
    let name := available.getD i.toNat ""
    return ⟨d.dropSection name, .told ("Successfully removed section: " ++ name), true⟩
  | .real _ => throw (.wrongType "list indices must be integers or slices, not float")

def apply : Edit → Except Fault Edited
  | .contact fields => d.editContact fields
  | .theme name => d.editTheme name
  | .summary text => d.editSummary text
  | .add p given => d.addEntry p given
  | .modify p name field value => d.modifyEntry p name field value
  | .renew p name value => d.renewEntry p name value
  | .remove p name => d.removeEntry p name
  | .clear p => d.clearEntries p
  | .removeSection number => d.dropSectionAt number

end Document

end Folio.Cv

/-
# Insight.Preferences -- how people want projects presented

Preferences are stored as one document; what it leaves out or leaves empty has a usual value.
-/
import Folio.Insight.Log

namespace Folio.Insight.Preferences

open Action Fields Value

variable (file : Path) (prefs : Fields) (only : Bool) (label : Value)

def usual : Fields := [
  ("project_order", .list []),
  ("chronology_corrections", .object []),
  ("comparison_attributes", .texts ["languages", "frameworks", "duration_estimate"]),
  ("highlight_skills", .list []),
  ("showcase_projects", .list [])]

def merged (prefs more : Fields) : Fields :=
  setAll prefs (more.filter fun f => !f.2.isNull)

def load : Action Fields := do
  if !(← ask (·.exists? file)) then return usual
  match (← disk).document file with
  | .ok (.object fs) => return merged usual fs
  | .ok _ => return usual
  | .error f => if f.cause == .malformed then return usual else throw f

def save : Action Fields := do
  store file .pretty (.object prefs)
  return prefs

def update (changes : Fields) : Action Fields := do
  save file (merged (← load file) changes)

/-! ## Presenting -/

def read (key : String) : Value := (get? prefs key).getD .null

def corrected (corrections : Value) (i : Insight) : Except Fault Insight := do
  if !corrections.truthy then return i
  match ← corrections.fieldD i.projectName .null with
  | .object fix => return { i with
      analyzedAt := ((get? fix "analyzed_at").getD .null).orElse i.analyzedAt }
  | _ => return i

/-- The last place of a name in the wanted order; names that it lacks come after all others. -/
def place (order : List Value) (name : String) : Nat :=
  match order.reverse.findIdx? (· == .text name) with
  | some i => order.length - 1 - i
  | none => order.length

def comesBefore (order : List Value) (a b : Insight) : Except Fault Bool :=
  let p := place order a.projectName
  let q := place order b.projectName
  if p != q then .ok (p < q)
  else if a.analyzedAt == b.analyzedAt then .ok false
  else before a.analyzedAt b.analyzedAt

def isShown (names : List Value) (i : Insight) : Bool := names.contains i.projectName

def showcased (names : List Value) (only : Bool) (is : List Insight) : List Insight :=
  if names.isEmpty then is
  else if only then is.filter (isShown names)
  else is.filter (isShown names) ++ is.filter (!isShown names ·)

def labelled (is : List Insight) : List Insight :=
  if label.truthy then is.filter (·.snapshotLabel == label) else is

def orderOf : Except Fault (List Value) := do
  let order ← if (read prefs "project_order").truthy then (read prefs "project_order").elements
    else pure []
  discard (members order)
  return order

def showcaseOf : Except Fault (List Value) := do
  let shown := read prefs "showcase_projects"
  if shown.truthy then members (← shown.elements) else return []

def arrange (is : List Insight) : Except Fault (List Insight) := do
  let fixed ← (labelled label is).mapM (corrected (read prefs "chronology_corrections"))
  let order ← orderOf prefs
  let ordered ← sortBy (comesBefore order) fixed
  return showcased (← showcaseOf prefs) only ordered

def present (is : List Insight) : Except Fault Value := do
  let arranged ← arrange prefs only label is
  let names ← showcaseOf prefs
  let read? (key : String) : Value := (get? prefs key).getD (.list [])
  return .object [
    ("projects", .list (arranged.map (·.toValue))),
    ("project_order", (read prefs "project_order").orElse (.list [])),
    ("chronology_corrections", (read prefs "chronology_corrections").orElse (.object [])),
    ("comparison_attributes", read? "comparison_attributes"),
    ("highlight_skills", read? "highlight_skills"),
    ("showcase_projects", .list ((sorted names).toOption.getD names))]

/-- Apply preferences to insights; empty ones are taken from their files. -/
def apply (log file : Path) (insights : List Insight) (prefs : Fields) (only : Bool)
    (label : Value) : Action Value := do
  let prefs ← if prefs.isEmpty then load file else pure prefs
  let is ← if insights.isEmpty then Log.list log else pure insights
  present prefs only label is

end Folio.Insight.Preferences

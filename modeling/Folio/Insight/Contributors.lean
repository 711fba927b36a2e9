/-
# Insight.Contributors -- who took part in a project

Each contributor gets one count with the name of its unit, and the project gets the totals and its strongest
contributor.
-/
import Folio.Insight.Figures

namespace Folio.Insight

open Fields Insight

abbrev Contributors := List (String × Fields)

structure Tally where
  count : Int
  metric : String
  deriving Repr, DecidableEq

namespace Contributor

variable (data : Fields)

def read (key : String) (fallback : Value) : Value :=
  (get? data key).getD fallback

def metric : String :=
  ((read data "contribution_metric" "items").orElse "items").shown

def ownedFiles? : Option Nat :=
  (get? data "files_owned").bind fun v => v.items?.map List.length

def tally : Tally :=
  let read? (key : String) : Option Int := (get? data key).map count
  match read? "contribution_count", read? "commit_count", read? "total_changes",
      read? "file_count", ownedFiles? data with
  | some n, _, _, _, _ => ⟨n, metric data⟩
  | none, some n, _, _, _ => ⟨n, "commits"⟩
  | none, none, some n, _, _ => ⟨n, "changes"⟩
  | none, none, none, some n, _ => ⟨n, "files"⟩
  | none, none, none, none, some n => ⟨n, "files"⟩
  | none, none, none, none, none => ⟨0, "items"⟩

def fileCount : Int :=
  match get? data "file_count" with
  | some v => count v
  | none => ((ownedFiles? data).getD 0 : Nat)

def normalized : Except Fault Fields := do
  let t := tally data
  let share ← percent? (read data "percentage" .null)
  let data := set data "file_count" (.int (fileCount data))
  let data := set data "contribution_count" (.int t.count)
  let data := set data "contribution_metric" t.metric
  return match share with
    | some p => set data "contribution_percentage" (.real p)
    | none => data

def share? : Except Fault (Option Float) :=
  percent? (read data "contribution_percentage" (read data "percentage" .null))

def total : Int :=
  count (read data "contribution_count" (read data "file_count" (.int 0)))

end Contributor

namespace Contributors

variable (cs : Contributors)

def ofValue (v : Value) : Except Fault Contributors := do
  if !v.truthy then return []
  let named ← v.asObject "items"
  named.mapM fun f => do
    let data ← if f.2.truthy then f.2.toFields else pure []
    return (f.1, ← Contributor.normalized data)

def toValue : Value := .object (cs.map fun c => (c.1, .object c.2))

/-- The first contributor with the highest count above -1, and that count. -/
def strongest : Option String × Int :=
  cs.foldl (fun best c =>
    let n := Contributor.total c.2
    if best.2 < n then (some c.1, n) else best) (none, -1)

def highestShare? : Except Fault (Option Float) :=
  cs.foldlM (fun best c => do
    match ← Contributor.share? c.2 with
    | some p =>
      match best with
      | some b => pure (some (if b < p then p else b))
      | none => pure (some p)
    | none => pure best) none

def commonMetric : String :=
  match Text.unique (cs.map fun c => Contributor.metric c.2) with
  | [] => "items"
  | [m] => m
  | _ => "mixed"

structure Summary where
  people : Nat
  files : Int
  metric : String
  strongest : Option String
  strongestCount : Int
  strongestShare : Float

/-- Sum up the contributors; without told shares the strongest one's part of all counts is its
share. -/
def summary : Except Fault Summary := do
  let (name, best) := cs.strongest
  let best := max best 0
  let all := (cs.map fun c => Contributor.total c.2).foldl (· + ·) 0
  let share :=
    match ← cs.highestShare? with
    | some p => p
    | none => if all > 0 then Decimal.quotient best all * 100.0 else 0.0
  return {
    people := cs.length
    files := (cs.map fun c => count (Contributor.read c.2 "file_count" (.int 0))).foldl (· + ·) 0
    metric := cs.commonMetric
    strongest := name
    strongestCount := best
    strongestShare := Decimal.roundTo 2 share }

def Summary.toFields (s : Summary) : Fields := [
  ("contributors", s.people),
  ("total_file_contributions", .int s.files),
  ("contribution_metric", s.metric),
  ("top_contributor", .textOrNull s.strongest),
  ("top_contribution_count", .int s.strongestCount),
  ("top_contribution_percentage", .real s.strongestShare)]

end Contributors

end Folio.Insight

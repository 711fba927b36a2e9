/-
# Resume.Evidence -- what backs a claim

Documents come as records of any form; reading stops at the first one that has not the form of a record, and what was
read before counts.
-/
import Folio.Document.Triage

namespace Folio.Resume

open Text

def isTest (p : Path) : Bool :=
  let name := lower p.name
  (p.allParts.map lower).contains "test" || startsWith name "test_"
    || ["_test.py", "_test.java", ".test.js", ".spec.ts"].any (endsWith name)

structure Findings where
  metrics : List Value := []
  points : List Value := []
  kinds : List Value := []

namespace Findings

/-- Reading that keeps what was found when it fails. -/
abbrev Reader := ExceptT Fault (StateM Findings)

instance : MonadLift (Except Fault) Reader := ⟨fun r => ExceptT.mk (pure r)⟩

def metricLimit : Nat := 6
def pointLimit : Nat := 3

def put (x : Value) (xs : List Value) : List Value := if xs.contains x then xs else xs ++ [x]

/-- Read the key point of a document; short ones say nothing. -/
def readPoint (point : Value) : Reader Unit := do
  let text := trim (← point.asText "strip")
  if text.length > 20 then
    modify fun f => { f with points := put text f.points }

/-- The entry for a kind of document; a paper says how rich it is. -/
def kindEntry (doc : Value) (label : Value) : Value :=
  let count (key noun : String) : List String :=
    let n := doc.getOrNull key
    if n.truthy then [n.shown ++ noun] else []
  let parts := count "references_count" " references" ++ count "figure_count" " figures"
    ++ count "table_count" " tables"
  if label == "research paper" && !parts.isEmpty then
    .text ("research paper (" ++ join ", " parts ++ ")")
  else label

def readDocument (doc : Value) : Reader Unit := do
  for m in ← (← doc.fieldD "metrics" (.list [])).elements do
    modify fun f => { f with metrics := put m f.metrics }
  modify fun f => { f with metrics := f.metrics.take metricLimit }
  for p in ← (← doc.fieldD "key_points" (.list [])).elements do readPoint p
  modify fun f => { f with points := f.points.take pointLimit }
  let kind := (← doc.fieldD "doc_type" .null).orElse (.object [])
  let label ← kind.fieldD "label" ""
  let confidence ← kind.fieldD "confidence" ""
  if label.truthy && label != "unknown"
      && (confidence == "medium" || confidence == "high") then
    modify fun f => { f with kinds := put (kindEntry doc label) f.kinds }

def readAll (analysis : Value) : Reader Unit := do
  for doc in ← (← analysis.fieldD "documents" (.list [])).elements do readDocument doc

/-- What an analysis of documents reports, up to the first record without form. -/
def ofAnalysis (analysis : Value) : Findings := ((readAll analysis).run.run {}).2

end Findings

structure Team where
  count : Nat := 0
  names : List String := []
  shares : Fields := []

def shareOf (info : Value) : Except Fault (Option Value) := do
  let share ← info.fieldD "percentage" .null
  return if share.truthy then some share else none

def Team.ofSummary (summary : Value) : Team :=
  match (summary.getOrNull "contributors").orElse (.object []) with
  | .object fs =>
    { count := fs.length, names := sorted (fs.map (·.1))
      shares := match fs.mapM fun f => return (f.1, ← shareOf f.2) with
        | .ok shares => shares.filterMap fun s => s.2.map fun v => (s.1, v)
        | .error _ => [] }
  | other => { count := (other.size.toOption).getD 0 }

structure Evidence where
  duration : Value := .null
  findings : Findings := {}
  tests : Nat := 0
  team : Team := {}

def Evidence.toValue (e : Evidence) : Value := .object [
  ("duration", e.duration),
  ("doc_metrics", .list e.findings.metrics),
  ("doc_key_points", .list e.findings.points),
  ("doc_types_found", .list e.findings.kinds),
  ("test_file_count", e.tests),
  ("contributor_count", e.team.count),
  ("contributor_names", e.team.names),
  ("contributor_breakdown", .object e.team.shares)]

end Folio.Resume

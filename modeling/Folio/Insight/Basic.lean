/-
# Insight.Basic -- what is known about an analysed project

An insight is one entry of the log.  `ofEntry` reads a stored entry, filling what is missing; `ofAnalysis` makes the
insight of a fresh analysis.
-/
import Folio.Duration
import Folio.Insight.Contributors
import Folio.Insight.FileStats
import Folio.Path

namespace Folio

open Fields

structure Insight where
  id : Value
  projectName : String
  summary : Value
  analyzedAt : Value
  languages : List Value
  frameworks : List Value
  skills : List Value
  projectType : Value
  detectionMode : Value
  durationEstimate : String
  hierarchy : Value
  contributors : Insight.Contributors
  stats : Fields
  fileAnalysis : Value
  thumbnail : Value
  snapshotLabel : Value

namespace Insight

def toValue (i : Insight) : Value := .object [
  ("id", i.id),
  ("project_name", i.projectName),
  ("summary", i.summary),
  ("analyzed_at", i.analyzedAt),
  ("languages", .list i.languages),
  ("frameworks", .list i.frameworks),
  ("skills", .list i.skills),
  ("project_type", i.projectType),
  ("detection_mode", i.detectionMode),
  ("duration_estimate", i.durationEstimate),
  ("hierarchy", i.hierarchy),
  ("contributors", i.contributors.toValue),
  ("stats", .object i.stats),
  ("file_analysis", i.fileAnalysis),
  ("thumbnail", i.thumbnail),
  ("snapshot_label", i.snapshotLabel)]

def withDefaults (fs defaults : Fields) : Fields :=
  fs ++ defaults.filter fun f => !has fs f.1

def time (i : Insight) : Moment := analysisTime i.analyzedAt

/-- Read a stored entry; `now` stands in for a missing time.  The result still takes a fresh
identifier, which stands in for a missing one. -/
def ofEntry (now : Moment) (entry : Value) : Except Fault (String → Except Fault Insight) := do
  let contributors ← Contributors.ofValue (← entry.fieldD "contributors" .null)
  let read (key : String) (fallback : Value) : Value := (entry.get? key).getD fallback
  let skills ← (read "skills" .null).sortedElements
  let stats ← if (read "stats" .null).truthy then (read "stats" .null).toFields else pure []
  let summary ← contributors.summary
  let current ← stamp now
  let hierarchy := read "hierarchy" (.object [])
  let files ← if (read "file_analysis" .null).isObject then pure (read "file_analysis" .null)
    else FileStats.ofHierarchy hierarchy
  return fun fresh => do return {
    id := read "id" fresh
    projectName := (read "project_name" "unknown").shown
    summary := read "summary" ""
    analyzedAt := read "analyzed_at" current
    languages := ← (read "languages" .null).sortedElements
    frameworks := ← (read "frameworks" .null).sortedElements
    skills
    projectType := read "project_type" "unknown"
    detectionMode := read "detection_mode" "local"
    durationEstimate := (read "duration_estimate" "unavailable").shown
    hierarchy
    contributors
    stats := withDefaults stats (summary.toFields ++ [("skill_count", .nat skills.length)])
    fileAnalysis := files
    thumbnail := read "thumbnail" .null
    snapshotLabel := read "snapshot_label" .null }

def nameOf (resume : Fields) (root : Value) : String :=
  let given := (get? resume "project_name").getD .null
  let folder : Value :=
    match root with
    | .text s => let n := (Path.ofString s).name
      .text (if n == "" then s else n)
    | v => v
  ((if given.truthy then given else if root.truthy then folder else .null).orElse
    "unknown").shown

structure Draft where
  resume : Fields
  name : String
  contributors : Contributors
  stats : Fields
  hierarchy : Value
  duration : String

def draft (analysis contributors : Value) : Except Fault Draft := do
  let resume ← ((← analysis.fieldD "resume_item" .null).orElse (.object [])).asObject "get"
  let people ← Contributors.ofValue contributors
  let summary ← people.summary
  let skillCount ← ((get? resume "skills").getD (.list [])).size
  return {
    resume
    name := nameOf resume (analysis.getOrNull "project_root")
    contributors := people
    stats := summary.toFields ++ [("skill_count", .nat skillCount)]
    hierarchy := (analysis.get? "hierarchy").getD (.object [])
    duration := ((analysis.get? "duration_estimate").getD "unavailable").shown }

def ofDraft (d : Draft) (id : Value) (analyzed : Moment) (label : Value) : Except Fault Insight := do
  let read (key : String) (fallback : Value) : Value := (get? d.resume key).getD fallback
  return {
    id
    projectName := d.name
    summary := read "summary" ""
    analyzedAt := .text (← stamp analyzed)
    languages := ← (read "languages" .null).sortedElements
    frameworks := ← (read "frameworks" .null).sortedElements
    skills := ← (read "skills" .null).sortedElements
    projectType := read "project_type" "unknown"
    detectionMode := read "detection_mode" "local"
    durationEstimate := d.duration
    hierarchy := d.hierarchy.withTextTimes
    contributors := d.contributors
    stats := d.stats
    fileAnalysis := ← FileStats.ofHierarchy d.hierarchy
    thumbnail := .null
    snapshotLabel := label }

end Insight

end Folio

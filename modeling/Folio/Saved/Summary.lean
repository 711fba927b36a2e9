/-
# Saved.Summary -- a saved analysis as a page of text
-/
import Folio.Code.Printout
import Folio.Value.Order

namespace Folio.Saved.Summary

open Text

def dash : Value := .text "—"

def orDash (s : String) : String := if s == "" then "—" else s

def analysisOf (data : Value) : Value :=
  match data with
  | .object fs =>
    match Fields.get? fs "analysis" with
    | some (.object inner) => .object inner
    | _ => .object fs
  | _ => .object []

def inPart (analysis : Value) (part key : String) (fallback : Value) : Except Fault Value := do
  (← analysis.fieldD part (.object [])).fieldD key fallback

def contributorCount (info : Value) : Except Fault Int := do
  if ← info.holds "file_count" then
    ((← info.fieldD "file_count" .null).orElse (.int 0)).toInt
  else if ← info.holds "commit_count" then
    ((← info.fieldD "commit_count" .null).orElse (.int 0)).toInt
  else
    return ((← (← info.fieldD "files_owned" (.list [])).size) : Nat)

def contributors (raw : Value) : Except Fault (List (String × Int × Value)) := do
  let counted ← raw.fieldsOrEmpty.filterMapM fun f => do
    let n ← contributorCount f.2
    if n > 0 || f.1 == "<unattributed>" then
      return some (f.1, n, ← f.2.fieldD "percentage" .null)
    else return none
  return counted.mergeSort fun a b => b.2.1 ≤ a.2.1

def contributorLines (metric : Value) (people : List (String × Int × Value)) : List String :=
  if people.isEmpty then []
  else
    ["Contributors :"] ++ (people.map fun (name, n, share) =>
      s!"  - {name}: {n} {metric}"
        ++ (if share.truthy then s!" ({share})" else "")) ++ [""]

def modelLines (analysis : Value) : Except Fault (List String) := do
  match analysis.get? "ai_analysis" with
  | none => return []
  | some data =>
    let line (label key : String) : Except Fault String := do
      return label ++ (← (← data.field key).joined ", ")
    return ["  AI Data:",
      ← line "   Structures        : " "structures_used",
      ← line "   Skills            : " "design_concepts",
      ← line "   Time Complexities : " "time_complexities_recorded",
      ← line "   Space Complexities: " "space_complexities_recorded",
      ← line "   Control Flows     : " "control_flow_and_error_handling_patterns",
      ← line "   Libraries         : " "libraries_detected",
      ← line "   Strengths         : " "inferred_strengths"]

/-! ## Documents -/

def distinct (items : List Value) : List String :=
  (uniqueBy (fun v => lower v.shown) items).map (·.shown)

structure Mentions where
  metrics : List Value
  dates : List Value
  topics : List Value

def mentions (doc : Value) : Except Fault Mentions := do
  let items (key : String) : Except Fault (List Value) := do
    ((← doc.fieldD key .null).orElse (.list [])).elements
  return ⟨← items "metrics", ← items "dates", ← items "topics"⟩

def countLine (v : Value) : Except Fault String := do
  let fs ← v.asObject "items"
  return orDash (join ", " (fs.map fun f => s!"{f.1}:{f.2}"))

def idle : List Value := ["unknown", "", "—", .null]

def typeAndTrust (info : Value) : Except Fault (String × String) := do
  let label ← info.fieldD "label" "unknown"
  let trust ← info.fieldD "confidence" "unknown"
  let kind := if ← label.isMember idle then "unclassified" else label.shown
  let sure ← if ← trust.isMember idle then
      pure (if kind == "unclassified" then "not enough recognizable signals"
        else "confidence unavailable")
    else pure trust.shown
  return (kind, sure)

def documentLines (doc : Value) : Except Fault (List String) := do
  let path ← doc.fieldD "path" dash
  let format ← doc.fieldD "format" dash
  let words ← doc.fieldD "word_count" (.int 0)
  let info := (← doc.fieldD "doc_type" .null).orElse (.object [])
  let hints ← info.fieldD "signals" .null
  let (kind, sure) ← typeAndTrust info
  let read (key : String) : Value := doc.getOrNull key
  let optional (label key : String) : List String :=
    if (read key).truthy then [label ++ (read key).shown] else []
  let authors ← if (read "authors").truthy then
      pure ["      Authors : " ++ (← (← (read "authors").head 6).joined ", ")]
    else pure []
  let venue := if (read "venue").truthy then
      ["      Venue   : " ++ (read "venue").shown
        ++ (if (read "published_year").truthy then " (" ++ (read "published_year").shown ++ ")"
          else "")]
    else []
  let points ← if (read "key_points").truthy then
      pure ["      Highlights: " ++ (← (← (read "key_points").head 4).joined "; ")]
    else pure []
  let note := if kind == "unclassified" && !hints.truthy then
      ["      Note    : No strong text patterns were detected for document typing."]
    else []
  let figure (key word : String) : List String :=
    if (read key).truthy then [(read key).shown ++ word] else []
  let figures := figure "page_count" " pages" ++ figure "references_count" " references"
    ++ figure "figure_count" " figures" ++ figure "table_count" " tables"
  return [s!"    - {path} ({format}, {words} words, {kind}, {sure})"]
    ++ optional "      Title   : " "title" ++ authors ++ venue
    ++ optional "      Summary : " "summary" ++ points ++ note
    ++ (if figures.isEmpty then [] else ["      Doc stats: " ++ join ", " figures])

def documentsLines (part : Value) : Except Fault (List String) := do
  if !part.isObject || !part.truthy then return []
  let read (key : String) (fallback : Value) : Value := (part.getOrNull key).orElse fallback
  let summary := read "summary" (.object [])
  let documents := read "documents" (.list [])
  let errors := read "errors" (.list [])
  let unique ← summary.fieldD "unique_documents" (.int 0)
  let repeated ← summary.fieldD "duplicate_documents" (.int 0)
  let words ← summary.fieldD "total_words" (.int 0)
  let formats := (← summary.fieldD "by_format" .null).orElse (.object [])
  let types := (← summary.fieldD "by_type" .null).orElse (.object [])
  if !(unique.truthy || repeated.truthy || words.truthy || documents.truthy
      || (part.getOrNull "duplicates").truthy || errors.truthy) then return []
  let formatLine ← countLine formats
  let typeLine ← countLine types
  let docs ← documents.elements
  let named ← docs.mapM mentions
  let some? (label : String) (items : List String) : List String :=
    if items.isEmpty then [] else [label ++ join ", " items]
  let files ← (docs.take 10).mapM documentLines
  let more := if docs.length > 10
    then ["    ... and " ++ toString (docs.length - 10) ++ " more"] else []
  let failed ← if errors.truthy then
      pure ["  Errors      : " ++ toString (← errors.size)] else pure []
  return ["Document analysis:",
      s!"  Unique docs : {unique}",
      s!"  Duplicates  : {repeated}",
      s!"  Total words : {words}",
      s!"  Formats     : {formatLine}",
      s!"  Types       : {typeLine}"]
    ++ some? "  Key topics  : " ((distinct (named.flatMap (·.topics))).take 10)
    ++ some? "  Metrics     : " ((distinct (named.flatMap (·.metrics))).take 8)
    ++ some? "  Dates       : " ((distinct (named.flatMap (·.dates))).take 8)
    ++ (if docs.isEmpty then [] else ["  Files:"] ++ files.flatten ++ more)
    ++ failed ++ [""]

def page (name : String) (data : Value) : Except Fault String := do
  let analysis := analysisOf data
  let resume (key : String) (fallback : Value) : Except Fault Value :=
    inPart analysis "resume_item" key fallback
  let kind ← (← resume "project_type" .null).presentOr
    (inPart analysis "project_type" "project_type" dash)
  let mode ← (← resume "detection_mode" .null).presentOr (inPart analysis "project_type" "mode" dash)
  let languages ← (← resume "languages" .null).presentOr
    (inPart analysis "stack" "languages" (.list []))
  let frameworks ← (← resume "frameworks" .null).presentOr
    (inPart analysis "stack" "frameworks" (.list []))
  let skills ← (← resume "skills" .null).presentOr (analysis.fieldD "skills" (.list []))
  let duration ← analysis.fieldD "duration_estimate" dash
  let summary ← resume "summary" dash
  let shares := (analysis.getOrNull "contribution_summary").orElse (.object [])
  let raw ← (analysis.getOrNull "contributors").presentOr (shares.fieldD "contributors" .null)
  let metric ← shares.fieldD "metric" "items"
  let people ← contributors raw
  let list (v : Value) : Except Fault String := do return orDash (← v.joined ", ")
  let head := [s!"\n== {name} ==",
    "Project root : " ++ ((analysis.get? "project_root").getD dash).shown,
    s!"Type         : {kind} (mode={mode})",
    "Languages    : " ++ (← list languages),
    "Frameworks   : " ++ (← list frameworks),
    "Skills       : " ++ (← list skills)]
  let model ← modelLines analysis
  let line := if summary.truthy && !(summary == dash) then [s!"Résumé line  : {summary}"] else []
  let documents ← documentsLines (analysis.getOrNull "document_analysis")
  let code := analysis.getOrNull "oop_analysis"
  let figures ← if code.isObject && code.truthy then Code.Printout.page code else pure ""
  let lines := head ++ model ++ [s!"Duration     : {duration}", ""]
    ++ contributorLines metric people ++ line ++ [""] ++ documents
  return String.join (lines.map (· ++ "\n")) ++ figures

end Folio.Saved.Summary

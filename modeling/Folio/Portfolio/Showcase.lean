/-
# Portfolio.Showcase -- a project on show

A showcase is drawn from an analysis, and what a person wrote wins over what was drawn.
-/
import Folio.Value.Order

namespace Folio.Portfolio

structure Showcase where
  title : Value
  overview : Value
  role : Value
  highlights : Value
  design : Fields
  evidence : Fields
  skills : Value
  contributors : List String

namespace Showcase

def toValue (s : Showcase) : Value := .object [
  ("title", s.title), ("overview", s.overview), ("role", s.role),
  ("technical_highlights", s.highlights), ("design_quality", .object s.design),
  ("evidence", .object s.evidence), ("skills", s.skills), ("contributors", .texts s.contributors)]

/-! ## Drawing it from an analysis -/

/-- What the documents of a project tell: their topics and their longer summaries, each once. -/
structure Told where
  topics : List Value := []
  summaries : List String := []

def put {α : Type} [BEq α] (x : α) (xs : List α) : List α := if xs.contains x then xs else xs ++ [x]

def Told.add (t : Told) (doc : Value) : Except Fault Told := do
  let topics ← ((← doc.fieldD "topics" .null).orElse (.list [])).elements
  let summary := Text.trim (← ((← doc.fieldD "summary" .null).orElse (.text "")).asText "strip")
  return { topics := topics.foldl (fun ts x => put x ts) t.topics
           summaries := if summary.length > 30 then put summary t.summaries else t.summaries }

def Told.ofAnalysis (analysis : Value) : Except Fault Told := do
  let docs ← ((← analysis.fieldD "document_analysis" .null).orElse (.object [])).fieldD "documents" .null
  (← (docs.orElse (.list [])).elements).foldlM Told.add {}

def first (v : Value) : Except Fault Value :=
  match v with
  | .object _ => .error (.met .missingKey "0")
  | v => do
    match (← v.elements) with
    | x :: _ => return x
    | [] => throw (.met .outOfRange "list index out of range")

def isKnown (duration : Value) : Bool := duration.truthy && duration != .text "Unknown"

def timePhrase (duration people : Value) : Except Fault (List Value) := do
  if !isKnown duration then return []
  if Number.lt (.int 1) (← people.asNumber) then
    return [.text s!"Developed over {duration} as part of a team of {people} contributors."]
  else return [.text s!"Developed over {duration}."]

def overviewOf (resume evidence : Value) (told : Told) : Except Fault String := do
  let summary ← resume.fieldD "summary" (.text "")
  let time ← timePhrase (evidence.getOrNull "duration")
    ((evidence.get? "contributor_count").getD (.int 0))
  let points := evidence.getOrNull "doc_key_points"
  let said ← match told.summaries with
    | s :: _ => pure [.text s]
    | [] => if points.truthy then pure [← first points] else pure []
  let parts := (if summary.truthy then [summary] else []) ++ time ++ said
  return Text.join " " (← parts.mapM Value.piece)

def highlightsOf (evidence score classes : Value) : Except Fault (List Value) := do
  let narrative := evidence.getOrNull "oop_narrative"
  let count ← classes.fieldD "count" (.int 0)
  let shape := if count.truthy then
      [.text (s!"{count} class(es) with an average of "
        ++ ((classes.get? "avg_methods_per_class").getD (.int 0)).shown ++ " methods per class.")]
    else []
  let points ← score.fieldD "oop_score" (.text "N/A")
  let rating ← score.fieldD "rating" (.text "")
  return (if narrative.truthy then [narrative] else []) ++ shape
    ++ [.text s!"OOP score: {points} ({rating})"]

def literalKinds : List String :=
  ["list_literals", "dict_literals", "set_literals", "tuple_literals"]

def topicLimit : Nat := 6

def evidenceOf (oop complexity structures evidence : Value) (told : Told) : Except Fault Fields := do
  let files ← oop.fieldD "files_analyzed" .null
  let functions ← complexity.fieldD "total_functions" .null
  let literals ← literalKinds.mapM fun key => do (← structures.fieldD key (.int 0)).asNumber
  let total := Value.ofNumber (.sum literals)
  let given (name : String) (v : Value) : Fields := if v.isNull then [] else [(name, v)]
  let present (name : String) (v : Value) : Fields := if v.truthy then [(name, v)] else []
  let duration := evidence.getOrNull "duration"
  return given "files_analyzed" files ++ given "total_functions" functions
    ++ present "collection_literals" total
    ++ present "test_files" (evidence.getOrNull "test_file_count")
    ++ (if isKnown duration then [("project_duration", duration)] else [])
    ++ present "extracted_metrics" (evidence.getOrNull "doc_metrics")
    ++ present "key_achievements" (evidence.getOrNull "doc_key_points")
    ++ present "document_types" (evidence.getOrNull "doc_types_found")
    ++ present "topics" (.list (told.topics.take topicLimit))
    ++ present "contributor_breakdown" (evidence.getOrNull "contributor_breakdown")

def written (overrides : Value) (heading key : String) (drawn : Value) : Except Fault Value := do
  (← overrides.fieldD heading (.object [])).fieldD key drawn

def ofAnalysis (analysis overrides : Value) : Except Fault Showcase := do
  let overrides := overrides.orElse (.object [])
  let resume ← analysis.fieldD "resume_item" (.object [])
  let oop := (analysis.getOrNull "oop_analysis").orElse (.object [])
  let score ← oop.fieldD "score" (.object [])
  let classes ← oop.fieldD "classes" (.object [])
  let complexity ← oop.fieldD "complexity" (.object [])
  let structures ← oop.fieldD "data_structures" (.object [])
  let evidence := (← resume.fieldD "evidence" .null).orElse (.object [])
  discard (evidence.fieldD "duration" .null)
  let told ← Told.ofAnalysis analysis
  let overview ← overviewOf resume evidence told
  let highlights ← highlightsOf evidence score classes
  let figures ← evidenceOf oop complexity structures evidence told
  let title ← written overrides "project" "title"
    ((resume.get? "project_name").getD (.text "Portfolio Project"))
  let role ← written overrides "project" "role" .null
  let overview ← written overrides "portfolio" "overview" (.text overview)
  let highlights ← written overrides "portfolio" "highlights" (.list highlights)
  let people ← ((analysis.getOrNull "contributors").orElse (.object [])).asObject "keys"
  return {
    title, role, overview, highlights
    design := [
      ("oop_rating", score.getOrNull "rating"), ("oop_comment", score.getOrNull "comment"),
      ("inheritance_classes", classes.getOrNull "with_inheritance"),
      ("max_loop_depth", complexity.getOrNull "max_loop_depth")]
    evidence := figures
    skills := (resume.get? "skills").getD (.list [])
    contributors := people.keys }

/-! ## Printing -/

def heading (name : String) : String := Text.title (Text.replace name "_" " ")

def bullets (title : String) (lines : List String) : String :=
  s!"{title}\n" ++ String.join (lines.map fun l => s!"• {l}\n") ++ "\n"

def figureBullets (title : String) (fs : Fields) : String :=
  if fs.isEmpty then ""
  else bullets title ((fs.filter fun f => !f.2.isNull).map fun f => heading f.1 ++ ": " ++ f.2.shown)

def page (s : Showcase) : Except Fault String := do
  let listed (title : String) (v : Value) : Except Fault String := do
    if v.truthy then return bullets title ((← v.elements).map (·.shown)) else return ""
  let highlights ← listed "Technical Highlights:" s.highlights
  let skills ← listed "Skills:" s.skills
  let contributors ← listed "Contributors:" (.texts s.contributors)
  let rule := "==============================="
  return s!"\n{rule}\n PORTFOLIO SHOWCASE\n{rule}\n\nProject: {s.title}\n"
    ++ (if s.role.truthy then s!"Role   : {s.role}\n\n" else "")
    ++ (if s.overview.truthy then s!"Overview:\n{s.overview} \n\n" else "")
    ++ highlights ++ figureBullets "Design Quality:" s.design
    ++ figureBullets "Evidence:" s.evidence ++ skills ++ contributors

def projectFields (s : Showcase) : Except Fault Fields := do
  let given ← (s.highlights.orElse (.list [])).elements
  let comment := (Fields.get? s.design "oop_comment").getD .null
  let highlights := given
    ++ (if comment.truthy then [.text s!"OOP Design: {comment}"] else [])
    ++ (if s.contributors.isEmpty then []
        else [.text ("Contributors: " ++ Text.join ", " s.contributors)])
  return [("name", s.title), ("summary", s.overview), ("highlights", .list highlights)]

end Showcase

end Folio.Portfolio

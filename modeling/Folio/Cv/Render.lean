/-
# Cv.Render -- having a document typeset

The typesetter is given the record and a directory of its own.  It may make any files there; those
that were asked for are given the name of the document, and what is missing is told.
-/
import Folio.Cv.Editing
import Folio.Naming

namespace Folio.Cv

open Action Text

inductive Format where
  | pdf
  | html
  | markdown
  deriving Repr, DecidableEq

namespace Format

def all : List Format := [.pdf, .html, .markdown]

def label : Format → String
  | .pdf => "pdf"
  | .html => "html"
  | .markdown => "markdown"

def extension : Format → String
  | .pdf => "pdf"
  | .html => "html"
  | .markdown => "md"

def labels : String := join ", " (sorted (all.map label))

def ofName? (name : String) : Option Format :=
  let name := lower (trim name)
  all.find? fun f => f.label == name

def unsupported (name : String) : String :=
  "Unsupported format '" ++ name ++ "'. Supported: " ++ labels

/-- The different formats that names stand for; blank names stand for none, and no format is
pages. -/
def ofNames (names : Value) : Except Fault (List Format) := do
  let found ← (← (names.orElse (.list [])).elements).foldlM (fun (fs : List Format) name => do
    let text ← (name.orElse "").asText "strip"
    if trim text == "" then return fs
    match ofName? text with
    | some f => return if fs.contains f then fs else fs ++ [f]
    | none => throw (.say .badValue (unsupported text))) []
  return if found.isEmpty then [.pdf] else found

end Format

structure Rendering where
  status : String
  outputs : List (Format × Path)

def Rendering.output? (r : Rendering) (f : Format) : Option Path := r.outputs.lookup f

namespace Editing

variable (dir : Path) (formats : List Format)

def renderedKeys : List String := ["cv", "design", "locale", "rendercv_settings"]

def payload (data : Value) : Value × List String :=
  let fs := (data.orElse (.object [])).fieldsOrEmpty
  (.object (fs.filter fun f => renderedKeys.contains f.1),
    (fs.filter fun f => !renderedKeys.contains f.1).map (·.1))

def outputDir (unique : Bool) : Editing Path := do
  match (← document).file with
  | none => throw (.say .badValue "YAML file not set")
  | some file =>
    let base := ((← (disk : Action Disk)).resolved file).parent
    if unique then
      let id ← freshId
      return base.entry ("rendercv_output_" ++ takeChars 8 id)
    else return base.entry "rendercv_output"

def options : List String :=
  (if formats.contains .pdf then [] else ["--dont-generate-pdf"])
    ++ (if formats.contains .html then [] else ["--dont-generate-html"])
    ++ (if formats.contains .markdown || formats.contains .html then []
        else ["--dont-generate-markdown"])

def typeset : Action Unit := do
  modify fun w => { w with runs := w.runs ++ [options formats] }
  let run := (← services).typesetting
  match run.fault with
  | some text => throw (.met .system text)
  | none => pure ()
  if run.dropsDirectory then change fun d => .ok (d.removeTree dir)
  for name in run.produced do
    makeDirs (dir.child name).parent
    writeText (dir.child name) "x"

def collect (made final : String) (f : Format) : Action (Except String Path) := do
  let source := dir.entry (made ++ "." ++ f.extension)
  if !(← ask (·.exists? source)) then
    return .error (f.label ++ " not found at " ++ source.text)
  let target := dir.entry (final ++ "." ++ f.extension)
  if ← ask (·.exists? target) then change (·.unlink target)
  change (·.rename source target)
  return .ok target

/-- Collect the files of all formats; pages of marks that were only a step are taken away. -/
def collectAll (made final : String) (formats : List Format) : Action (List (Format × Path) × List String) := do
  if !(← ask (·.exists? dir)) then
    return ([], ["render failed - output directory not found at " ++ dir.text])
  let found ← (Format.all.filter formats.contains).mapM fun f => do
    return (f, ← collect dir made final f)
  let step := dir.entry (made ++ ".md")
  if formats.contains .html && !formats.contains .markdown then
    if ← ask (·.exists? step) then change (·.unlink step)
  return (found.filterMap fun r => r.2.toOption.map fun p => (r.1, p),
    found.filterMap fun r => match r.2 with
      | .error text => some text
      | .ok _ => none)

def complaints (run : Typesetting) (outputs : List (Format × Path)) (left : List String)
    (errors : List String) : List String :=
  if run.code == 0 || !outputs.isEmpty then errors
  else
    let said := trim run.complaint
    let said := if said == "" then trim run.output else said
    ["render failed (code " ++ toString run.code ++ "): " ++ said] ++ errors
      ++ (if left.isEmpty then []
          else ["ignored unsupported top-level keys: " ++ join ", " (sorted left)])

def render (names : Value) : Editing Rendering := do
  let d ← document
  match d.file with
  | none => throw (.say .noSuchFile "YAML file None does not exist")
  | some file =>
    if !(← ask (·.exists? file)) then
      throw (.say .noSuchFile ("YAML file " ++ file.text ++ " does not exist"))
    let formats ← Format.ofNames names
    let dir ← outputDir true
    let shown ← (← (← d.data.fieldD "cv" (.object [])).fieldD "name" "").asText "strip"
    let own := Naming.component (d.name.getD "")
    let made := if trim shown == "" then own ++ "_CV" else Naming.component (trim shown) ++ "_CV"
    change fun k => .ok (k.removeTree dir)
    makeDirs dir
    let (record, left) := payload d.data
    writeRecord file record
    typeset dir formats
    let (outputs, errors) ← collectAll dir made (own ++ "_" ++ d.kind.label) formats
    let errors := complaints (← (services : Action Services)).typesetting outputs left errors
    return ⟨if errors.isEmpty then "successfully rendered" else join "; " errors, outputs⟩

def renderPages : Editing (String × Option Path) := do
  let r ← render (.texts ["pdf"])
  return (r.status, r.output? .pdf)

end Editing

end Folio.Cv

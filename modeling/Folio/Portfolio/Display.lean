/-
# Portfolio.Display -- showing a saved analysis as a portfolio

Without consent to outside services the showcase of the analysis is printed, and typeset when that is asked for; with
consent a language model tells about the project.
-/
import Folio.Cv.Projects
import Folio.Portfolio.Overrides
import Folio.Resume.Pages

namespace Folio.Portfolio.Display

open Action Cv.Editing

structure Request where
  pages : Bool := false
  name : String := "Portfolio"
  directory : Option Path := none

def failed (detail : String) : Value :=
  .object [("status", .text "error"), ("detail", .text detail)]

def done (mode : String) (pages : Option Path) (more : Fields) : Value :=
  .object ([("status", .text "ok"), ("mode", .text mode), ("pdf_generated", .bool pages.isSome)]
    ++ (match pages with
      | some p => [("pdf_path", .text p.text)]
      | none => []) ++ more)

def analysisOf (saved : Value) : Value :=
  let whole := Value.object saved.fieldsOrEmpty
  match whole.get? "analysis" with
  | some (.object fs) => .object fs
  | _ => whole

/-! ## Without outside services -/

def typeset (s : Showcase) (r : Request) : Action Value := do
  print "[INFO] Generating portfolio PDF using RenderCV..."
  let (status, pages) ← within { kind := .portfolio } do
    openPortfolio r.name
    discard (addShowcase s)
    renderPages
  print s!"[INFO] RenderCV status: {status}"
  match pages with
  | none => return failed "RenderCV did not return a PDF path."
  | some p =>
    print s!"[INFO] Portfolio PDF generated at: {p.text}"
    match r.directory with
    | none => return done "local" (some p) []
    | some dir =>
      let own := dir.entry p.name
      copy p own
      print s!"[INFO] PDF saved to: {own.text}"
      return done "local" (some own) []

def listOf (v : Value) (key : String) : Except Fault (List Value) := do
  let found ← v.fieldD key .null
  if found.truthy then found.elements else return []

def profileOf (resume : Value) (s : Showcase) : Except Fault Resume.Profile := do
  let languages ← listOf resume "languages"
  let frameworks ← listOf resume "frameworks"
  let duties ← (s.highlights.orElse (.list [])).elements
  let skills ← listOf resume "skills"
  let stack ← (Value.list (languages ++ frameworks)).joined ", "
  return {
    title := (resume.get? "project_name").getD s.title
    line := (resume.get? "summary").getD s.overview
    details := s.overview.orElse ((resume.get? "summary").getD "")
    duties := .list duties, skills := .list skills, stack := .text stack
    impact := .text "", principles := [] }

def setDirectly (analysis : Value) (s : Showcase) (r : Request) : Action Value := do
  match r.directory with
  | none => return failed ("RenderCV export failed and no custom_output_dir provided "
      ++ "for legacy PDF fallback.")
  | some dir =>
    let profile ← profileOf ((analysis.getOrNull "resume_item").orElse (.object [])) s
    profile.publish dir r.name true
    return done "local" (some (dir.child s!"{r.name}.pdf"))
      [("fallback", "legacy_pdf_generator")]

def showcase (analysis : Value) (r : Request) : Action Value := do
  let resume ← analysis.fieldD "resume_item" (.object [])
  let name ← (← resume.fieldD "project_name" "Portfolio").asText "replace"
  let s ← Showcase.ofAnalysis analysis (← Overrides.load name)
  printText (← s.page)
  if !r.pages then return done "local" none []
  match r.directory with
  | some dir =>
    if !(← ask (·.exists? dir)) then return failed s!"Path not found: {dir.text}"
  | none => pure ()
  match ← attempt (typeset s r) with
  | .ok v => return v
  | .error f =>
    print s!"[WARN] RenderCV export failed, falling back to legacy PDF: {f.text}"
    setDirectly analysis s r

/-! ## With a language model -/

def stackLine (stack : Value) : Except Fault String := do
  match stack with
  | .text s => return s!"  • {s}"
  | v => if v.truthy then return "  • " ++ (← v.joined ", ") else return "  (None detected)"

def printProfile (p : Resume.Profile) : Action Unit := do
  let rule := "==============================="
  print s!"\n{rule}"
  print s!"PROJECT: {p.title}"
  print s!"{rule}\n"
  print s!"One-Sentence Summary: {p.line}\n"
  print "Key Skills Used:"
  for skill in ← p.skills.elements do print s!"  • {skill}"
  print "\nTech Stack:"
  print ((← stackLine p.stack) ++ "\n")

def told (saved : Value) (r : Request) : Action Value := do
  let profile : Action Resume.Profile := do
    Resume.modelProfile (← Resume.modelProject (← saved.fieldD "project_root" .null))
  match ← attempt profile with
  | .error f => return failed s!"Could not generate portfolio: {f.text}"
  | .ok p =>
    printProfile p
    if !r.pages then return done "external" none []
    let d ← disk
    match r.directory with
    | some dir =>
      if !d.present dir then return missing
      p.publish dir r.name true
      return done "external" (some (dir.child s!"{r.name}.pdf")) []
    | none => return missing
where
  missing : Value := failed "custom_output_dir is required and must exist for PDF generation."

def run (file : Path) (r : Request) : Action Value := do
  match (← disk).document file with
  | .error f => return failed s!"Could not read {file.name}: {f.text}"
  | .ok saved =>
    if (← get).context.externalConsent then told saved r else showcase (analysisOf saved) r

end Folio.Portfolio.Display

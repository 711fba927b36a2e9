/-
# Resume.Pages -- a profile set on pages

A profile is set as a portfolio of several paragraphs, or as a single line.  Pages of the same name
are taken away first.
-/
import Folio.Resume.Profile
import Folio.Workspace

namespace Folio.Resume

open Action

namespace Profile

def bold (s : String) : String := s!"<b>{s}</b>"

def portfolio (p : Profile) (day : String) : Except Fault (List (String × Value)) := do
  let head := [
    ("Title", .text (bold "My Portfolio")),
    ("Normal", .text s!"Generated on: {day}"),
    ("Heading2", .text (bold p.title.shown)),
    ("Normal", p.details)]
  let duties ← if p.duties.truthy then
      pure (("Heading3", .text (bold "Key Responsibilities:"))
        :: (← p.duties.elements).map fun d => ("Normal", .text s!"• {d}"))
    else pure []
  let skills ← if p.skills.truthy then
      pure [("Normal", .text (bold "Skills:" ++ " " ++ (← p.skills.joined ", ")))]
    else pure []
  let labelled (label : String) (v : Value) : List (String × Value) :=
    if v.truthy then [("Normal", .text (bold label ++ " " ++ v.shown))] else []
  return head ++ duties ++ skills ++ labelled "Tech Stack:" p.stack ++ labelled "Impact:" p.impact

def resumeLine (p : Profile) : String :=
  s!"{bold p.title.shown} — {p.line}.{p.stack} {p.impact}"

def clear (file : Path) : Action Unit := do
  if (← disk).present file then change (·.unlink file)

def setPages (place : Path) (paragraphs : List (String × Value)) : Action Unit :=
  modify fun w => { w with sheets := w.sheets ++ [⟨place, paragraphs⟩] }

/-- Set a profile into a directory: as a portfolio, and as a line unless only the portfolio is
asked for. -/
def publish (p : Profile) (dir : Path) (file : String) (portfolioOnly : Bool) : Action Unit := do
  let main := dir.child s!"{file}.pdf"
  let line := dir.child s!"{p.title}_resume_line.pdf"
  clear main
  clear line
  setPages main (← p.portfolio (← now).dateText)
  print s!"Portfolio Generated at: {dir.text}"
  print "Portfolio has been created"
  if portfolioOnly then print s!"Portfolio has been saved to {dir.text}"
  else
    setPages line [("Normal", p.resumeLine)]
    print s!"Resume Generated at: {dir.text}"
    print "Resume Line has been created"
    print s!"Resume Line and Portfolio has been saved to {dir.text}"

end Profile

end Folio.Resume

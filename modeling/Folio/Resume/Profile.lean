/-
# Resume.Profile -- a project told at length

A profile is drawn here from an analysis alone.  Analyses are documents of any form, so every step may meet something
else than it expects.
-/
import Folio.Code.Score
import Folio.Value.Order

namespace Folio.Resume

open Text Value

structure Principle where
  present : Bool
  description : Value
  snippets : Value

def Principle.toValue (p : Principle) : Value := .object [
  ("present", p.present), ("description", p.description), ("code_snippets", p.snippets)]

structure Profile where
  title : Value
  line : Value
  details : Value
  duties : Value
  skills : Value
  stack : Value
  impact : Value
  principles : List (String × Principle)

namespace Profile

def toValue (p : Profile) : Value := .object [
  ("project_title", p.title),
  ("one_sentence_summary", p.line),
  ("detailed_summary", p.details),
  ("key_responsibilities", p.duties),
  ("key_skills_used", p.skills),
  ("tech_stack", p.stack),
  ("impact", p.impact),
  ("oop_principles_detected", .object (p.principles.map fun f => (f.1, f.2.toValue)))]

/-! ## Figures -/


def figure (analysis : Value) (part key : String) (fallback : Value) : Except Fault Value := do
  (← analysis.fieldD part (.object [])).fieldD key fallback

def some? (v : Value) : Except Fault Bool := do return Number.lt (.int 0) (← v.asNumber)

/-! ## The line -/

def members (v : Value) : Except Fault (List Value) :=
  match v with
  | .object [_] => .error (.met .missingKey "0")
  | .object _ => .error (.wrongType "unhashable type: 'slice'")
  | v => do
    discard v.size
    v.elements

def listing (xs : List Value) : Except Fault String :=
  match xs with
  | [x] => .ok x.shown
  | xs => do
    return join ", " (← xs.dropLast.mapM piece) ++ " and " ++ (xs.getLastD .null).shown

def frameworkPhrase (frameworks : Value) : Except Fault String := do
  if (← frameworks.size) == 1 then
    return "with " ++ ((← members frameworks).headD .null).shown ++ " framework"
  else return "with " ++ (← frameworks.joined ", ") ++ " frameworks"

def sizePhrase (classes functions : Value) : Except Fault (List String) := do
  let c ← some? classes
  let f ← some? functions
  return match c, f with
    | true, true => [s!"featuring {classes} classes and {functions} functions"]
    | true, false => [s!"featuring {classes} classes"]
    | false, true => [s!"featuring {functions} functions"]
    | false, false => []

def shownPrinciples (oop : Value) : Except Fault (List String) := do
  let derived ← some? (← figure oop "classes" "with_inheritance" (.int 0))
  let closed ← some? (← figure oop "encapsulation" "classes_with_private_attrs" (.int 0))
  let overriding ← some? (← figure oop "polymorphism" "classes_overriding_base_methods" (.int 0))
  return (if derived then ["inheritance"] else []) ++ (if closed then ["encapsulation"] else [])
    ++ (if overriding then ["polymorphism"] else [])

def lineOf (name : String) (languages frameworks skills oop duration : Value) : Except Fault String := do
  let languagePart ← if languages.truthy then
      pure ["using " ++ (← listing (← members languages))] else pure []
  let frameworkPart ← if frameworks.truthy then pure [← frameworkPhrase frameworks] else pure []
  let classes ← figure oop "classes" "count" (.int 0)
  let functions ← figure oop "complexity" "total_functions" (.int 0)
  let sizePart ← sizePhrase classes functions
  let principles ← shownPrinciples oop
  let principlePart := if principles.isEmpty then []
    else ["demonstrating " ++ join ", " principles]
  let skillPart ← if skills.truthy then
      pure ["showcasing " ++ (← listing (← members (← skills.head 3)))] else pure []
  let durationPart := if duration.truthy && duration != "—" then [s!"over {duration}"]
    else []
  return join " " ([s!"Developed {name}"] ++ languagePart ++ frameworkPart ++ sizePart
    ++ principlePart ++ skillPart ++ durationPart) ++ "."

/-! ## The parts -/

def stackOf (languages frameworks : Value) : Except Fault String := do
  let parts ← ([languages, frameworks].filter (·.truthy)).mapM (joined ", ")
  return if parts.isEmpty then "Not detected" else join "; " parts

def detailsOf (summary oop : Value) : Except Fault String := do
  let narrative ← oop.fieldD "narrative" (.object [])
  let story ← narrative.fieldD "oop" .null
  let structures ← narrative.fieldD "data_structures" .null
  let parts := [summary, story, structures].filter (·.truthy)
  if parts.isEmpty then return "No detailed analysis available."
  else return join " " (← parts.mapM piece)

def dutiesOf (oop : Value) : Except Fault (List String) := do
  let classes ← oop.fieldD "classes" (.object [])
  let complexity ← oop.fieldD "complexity" (.object [])
  let count ← classes.fieldD "count" (.int 0)
  let design ← if ← some? count then
      pure [s!"Designed and implemented {count} class(es) with an average of "
        ++ (← classes.fieldD "avg_methods_per_class" (.int 0)).shown ++ " methods per class"]
    else pure []
  let derived ← classes.fieldD "with_inheritance" (.int 0)
  let bases ← if ← some? derived then
      pure [s!"Applied inheritance patterns in {derived} class(es) for code reuse and extensibility"]
    else pure []
  let functions ← complexity.fieldD "total_functions" (.int 0)
  let loops ← if ← some? functions then
      pure [s!"Developed {functions} functions with max loop depth of "
        ++ (← complexity.fieldD "max_loop_depth" (.int 0)).shown]
    else pure []
  let closed ← some? (← figure oop "encapsulation" "classes_with_private_attrs" (.int 0))
  let overriding ← some? (← figure oop "polymorphism" "classes_overriding_base_methods" (.int 0))
  let found := design ++ bases ++ loops
    ++ (if closed then ["Implemented encapsulation using private attributes for data protection"]
        else [])
    ++ (if overriding then ["Utilized polymorphism through method overriding"] else [])
  return if found.isEmpty then ["Developed functional software solution"] else found

def principle (n : Value) (description : String) : Except Fault Principle := do
  let present ← some? n
  return ⟨present, .text (if present then description else ""), .list []⟩

def principlesOf (oop : Value) : Except Fault (List (String × Principle)) := do
  let classes ← figure oop "classes" "count" (.int 0)
  let abstraction ← principle classes
    s!"Project uses {classes} class(es) to abstract functionality"
  let closed ← figure oop "encapsulation" "classes_with_private_attrs" (.int 0)
  let encapsulation ← principle closed
    s!"{closed} class(es) use private attributes for data hiding"
  let derived ← figure oop "classes" "with_inheritance" (.int 0)
  let inheritance ← principle derived s!"{derived} class(es) extend base classes"
  let overriding ← figure oop "polymorphism" "classes_overriding_base_methods" (.int 0)
  let methods ← figure oop "polymorphism" "override_method_count" (.int 0)
  let polymorphism ← principle overriding
    s!"{overriding} class(es) override {methods} method(s) from base classes"
  return [("abstraction", abstraction), ("encapsulation", encapsulation),
    ("inheritance", inheritance), ("polymorphism", polymorphism)]

def impactOf : Code.Band → String
  | .high => "Demonstrates strong object-oriented design with effective use of "
      ++ "inheritance, encapsulation, and polymorphism for maintainable code."
  | .medium => "Shows moderate application of OOP principles with room for "
      ++ "deeper abstraction and design pattern usage."
  | .low => "Functional implementation that achieves project goals with "
      ++ "opportunities to enhance object-oriented structure."

def ratedSkills (rating : Value) : List Value :=
  if rating == "high" then ["Object-Oriented Design", "Software Architecture"]
  else if rating == "medium" then ["Object-Oriented Programming"]
  else []

def ofAnalysis (name : String) (analysis : Value) : Except Fault Profile := do
  let resume ← analysis.fieldD "resume_item" (.object [])
  let oop ← analysis.fieldD "oop_analysis" (.object [])
  let languages ← resume.fieldD "languages" (.list [])
  let frameworks ← resume.fieldD "frameworks" (.list [])
  let skills ← resume.fieldD "skills" (.list [])
  let summary ← resume.fieldD "summary" ""
  let duration ← analysis.fieldD "duration_estimate" ""
  let stack ← stackOf languages frameworks
  let line ← lineOf name languages frameworks skills oop duration
  let details ← detailsOf summary oop
  let score ← oop.fieldD "score" (.object [])
  let duties ← dutiesOf oop
  let principles ← principlesOf oop
  let points ← (← score.fieldD "oop_score" (.int 0)).asNumber
  let rating ← score.fieldD "rating" "low"
  let all ← (if skills.truthy then skills else languages).elements
  return {
    title := .text name, line := .text line, details := .text details, duties := .texts duties
    skills := .list (all ++ ratedSkills rating), stack := .text stack
    impact := .text (impactOf (.reached points)), principles }

end Profile

end Folio.Resume

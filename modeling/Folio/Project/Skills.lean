/-
# Project.Skills -- what a project shows that its people can do

Languages and frameworks are skills themselves; groups of frameworks and some packages stand for
wider ones.
-/
import Folio.Project.Stack

namespace Folio.Project

open Text

variable (d : Disk) (p : Path) (root : Path)

def packageSkills : List (String × String) := [
  ("numpy", "Data Analysis"), ("pandas", "Data Analysis"), ("polars", "Data Analysis"),
  ("matplotlib", "Data Visualization"), ("seaborn", "Data Visualization"),
  ("plotly", "Data Visualization"), ("scikit-learn", "Machine Learning"),
  ("sklearn", "Machine Learning"), ("tensorflow", "Machine Learning"),
  ("keras", "Machine Learning"), ("torch", "Machine Learning"), ("pytorch", "Machine Learning"),
  ("pytest", "Testing"), ("unittest", "Testing"), ("jest", "Testing"), ("cypress", "Testing")]

def webFrameworks : List String := ["Flask", "Django", "FastAPI", "Quart", "React", "Vue.js",
  "Angular", "Svelte", "Next.js", "Nuxt.js", "Express", "NestJS", "Koa"]

def chartFrameworks : List String := ["Dash", "Streamlit"]

def toolSkills : List (String × String) := [
  ("Docker", "DevOps"), ("Docker Compose", "DevOps"), ("Terraform", "Infrastructure as Code")]

def isPackageChar (c : Char) : Bool :=
  c.isAlphanum || c == '_' || c == '-' || c == '.'

def packageName? (line : String) : Option String :=
  let line := trim line
  let name := String.ofList (line.toList.takeWhile isPackageChar)
  if name == "" then none else some name

def requirementSkills : Except Fault (List String) := do
  match ← manifestText d p with
  | none => return []
  | some s => return ((lines s).filterMap packageName?).filterMap fun n =>
      packageSkills.lookup (lower n)

def configSkills : Except Fault (List String) := do
  match ← manifestText d p with
  | none => return []
  | some s => return mentioned packageSkills (lower s)

/-- The skills behind the dependencies of a package manifest; a scope in front of a name does not
count. -/
def dependencySkills : Except Fault (List String) := do
  match ← manifestDocument d p with
  | none => return []
  | some v =>
    let deps ← v.fieldD "dependencies" (.object [])
    let dev ← v.fieldD "devDependencies" (.object [])
    let names := (← dependencyNames deps) ++ (← dependencyNames dev)
    return names.filterMap fun n =>
      packageSkills.lookup (lower ((splitOn n "/").getLastD ""))

def namedBelow (name : String) : List Path :=
  (d.below root).filter fun p => p.name == name && d.present p

def manifestSkills : Except Fault (List String) := do
  let a ← (namedBelow d root "requirements.txt").mapM (requirementSkills d)
  let b ← (namedBelow d root "pyproject.toml").mapM (configSkills d)
  let c ← (namedBelow d root "package.json").mapM (dependencySkills d)
  let e ← (namedBelow d root "composer.json").mapM (dependencySkills d)
  return a.flatten ++ b.flatten ++ c.flatten ++ e.flatten

def Stack.skills (s : Stack) : List String :=
  s.languages ++ s.frameworks
    ++ (if s.frameworks.any webFrameworks.contains then ["Web Development"] else [])
    ++ (if s.frameworks.any chartFrameworks.contains then ["Data Visualization"] else [])
    ++ s.frameworks.filterMap (List.lookup · toolSkills)

def skillsOf : Except Fault (List String) := do
  if !(← d.exists? root) then return []
  let stack ← stackOf d root
  return Stack.ordered (stack.skills ++ (← manifestSkills d root))

end Folio.Project

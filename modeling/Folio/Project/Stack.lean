/-
# Project.Stack -- languages and frameworks of a project

Languages follow from the suffixes of files, frameworks from manifests and from the names of
infrastructure files.  Every framework is reported with the files that gave it away.
-/
import Folio.Disk

namespace Folio.Project

open Text

variable (d : Disk) (p : Path)

def languageSuffixes : List (String × String) := [
  (".py", "Python"), (".pyw", "Python"),
  (".js", "JavaScript"), (".jsx", "JavaScript"), (".mjs", "JavaScript"), (".cjs", "JavaScript"),
  (".ts", "TypeScript"), (".tsx", "TypeScript"),
  (".c", "C"), (".h", "C"),
  (".cpp", "C++"), (".cxx", "C++"), (".cc", "C++"), (".hpp", "C++"),
  (".java", "Java"), (".cs", "C#"), (".rb", "Ruby"), (".php", "PHP"), (".go", "Go"),
  (".rs", "Rust"), (".swift", "Swift"), (".kt", "Kotlin")]

def pythonFrameworks : List (String × String) := [
  ("flask", "Flask"), ("django", "Django"), ("fastapi", "FastAPI"), ("quart", "Quart"),
  ("streamlit", "Streamlit"), ("dash", "Dash")]

def javaScriptFrameworks : List (String × String) := [
  ("react", "React"), ("next", "Next.js"), ("vue", "Vue.js"), ("nuxt", "Nuxt.js"),
  ("angular", "Angular"), ("@angular/core", "Angular"), ("svelte", "Svelte"),
  ("gatsby", "Gatsby"), ("ember", "Ember.js"), ("express", "Express"), ("koa", "Koa"),
  ("nestjs", "NestJS"), ("@nestjs/core", "NestJS")]

def infrastructureFiles : List (String × String) := [
  ("dockerfile", "Docker"), ("docker-compose.yml", "Docker Compose"),
  ("docker-compose.yaml", "Docker Compose")]

def ignoredDirs : List String := [".git", ".hg", ".svn", ".idea", ".vscode", "node_modules",
  "dist", "build", "__pycache__", ".venv", "venv", ".mypy_cache", ".pytest_cache"]

def mentioned (table : List (String × String)) (text : String) : List String :=
  (table.filter fun e => contains text e.1).map (·.2)

def manifestText : Except Fault (Option String) :=
  match d.content p with
  | .error _ => .ok none
  | .ok c =>
    match c.text? with
    | some s => .ok (some s)
    | none => .error Disk.undecodable

def manifestDocument : Except Fault (Option Value) := do
  match ← manifestText d p with
  | some s => return Json.parse? s
  | none => return none

def inRequirements : Except Fault (List String) := do
  match ← manifestText d p with
  | none => return []
  | some s =>
    return (lines s).flatMap fun line =>
      let line := lower (trim line)
      if line == "" || startsWith line "#" then [] else mentioned pythonFrameworks line

def inBuildConfig : Except Fault (List String) := do
  match ← manifestText d p with
  | none => return []
  | some s => return mentioned pythonFrameworks (lower s)

def dependencyNames (deps : Value) : Except Fault (List String) := do
  if deps.truthy then return (← deps.asObject "keys").keys else return []

def inPackage : Except Fault (List String) := do
  match ← manifestDocument d p with
  | none => return []
  | some v =>
    let deps ← v.fieldD "dependencies" (.object [])
    let dev ← v.fieldD "devDependencies" (.object [])
    let names := (← dependencyNames deps) ++ (← dependencyNames dev)
    return names.flatMap fun n => mentioned javaScriptFrameworks (lower n)

def inComposer : Except Fault (List String) := do
  match ← manifestDocument d p with
  | none => return []
  | some v =>
    let required ← v.fieldD "require" (.object [])
    let dev ← v.fieldD "require-dev" (.object [])
    let found ← [required, dev].mapM fun part => do
      (← part.elements).mapM fun name => do
        return contains (lower (← name.asText "lower")) "laravel"
    return if found.flatten.any id then ["Laravel"] else []

structure Evidence where
  path : String
  languages : List String
  frameworks : List String
  deriving Repr, DecidableEq

def infrastructureOf : List String :=
  let name := lower p.name
  (if name == "dockerfile" || endsWith name ".dockerfile" then ["Docker"] else [])
    ++ (infrastructureFiles.lookup name).toList
    ++ (if lower p.suffix == ".tf" then ["Terraform"] else [])

def inManifest : Except Fault (List String) :=
  let name := lower p.name
  if name == "requirements.txt" then inRequirements d p
  else if ["pyproject.toml", "poetry.lock", "pdm.lock"].contains name then inBuildConfig d p
  else if name == "package.json" then inPackage d p
  else if name == "composer.json" then inComposer d p
  else .ok []

def evidence (root p : Path) : Except Fault Evidence := do
  return { path := ((p.relativeTo? root).getD p).text
           languages := (languageSuffixes.lookup (lower p.suffix)).toList
           frameworks := infrastructureOf p ++ (← inManifest d p) }

structure Stack where
  languages : List String
  frameworks : List String
  sources : List (String × List String)
  deriving Repr, DecidableEq

namespace Stack

def ordered (xs : List String) : List String := sorted (unique xs)

def ofEvidence (es : List Evidence) : Stack :=
  let frameworks := es.flatMap (·.frameworks)
  { languages := ordered (es.flatMap (·.languages))
    frameworks := ordered frameworks
    sources := (unique frameworks).map fun f =>
      (f, ordered ((es.filter (·.frameworks.contains f)).map (·.path))) }

def toValue (s : Stack) : Value := .object [
  ("languages", s.languages),
  ("frameworks", s.frameworks),
  ("framework_sources", .object (s.sources.map fun f => (f.1, f.2)))]

end Stack

def stackOf (root : Path) : Except Fault Stack := do
  if !(← d.exists? root) then return .ofEvidence []
  let files := (d.filesBelow root).filter fun p => !p.allParts.any ignoredDirs.contains
  return .ofEvidence (← files.mapM (evidence d root))

end Folio.Project

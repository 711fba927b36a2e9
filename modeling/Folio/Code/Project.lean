/-
# Code.Project -- the figures of a whole project

Every language of a project has its own figures, and several languages have them drawn together.
-/
import Folio.Code.C
import Folio.Code.Cpp
import Folio.Code.Csharp
import Folio.Code.Java
import Folio.Code.JavaScript
import Folio.Code.Python
import Folio.Code.Sources

namespace Folio.Code

variable (ps : Parsers) (d : Disk) (root : Path) (p : Path)

def pythonFindings : Python.Findings × Nat :=
  let root := d.resolved root
  let files := pythonFiles d root
  (Python.findings root (files.map fun p => (p, ps.parsePython d p)), files.length)

def pythonProject : Except Fault Value :=
  let (found, count) := pythonFindings ps d root
  found.metrics count

def javaScriptRoot : Except Fault Path := do
  let root := d.resolved root
  if !(← d.exists? root) then
    throw (.say .noSuchFile ("JavaScript project root does not exist: " ++ root.text))
  if !(← d.isDir? root) then
    throw (.say .notADirectory ("JavaScript project root is not a directory: " ++ root.text))
  return root

def javaScriptFindings : JavaScript.Findings × Nat :=
  let files := javaScriptFiles d root
  (JavaScript.findings root (files.map fun p => (p, ps.parseJavaScript d p)), files.length)

def javaScriptProject : Except Fault Value :=
  let (found, count) := javaScriptFindings ps d root
  found.metrics count

def unreadC (file reason : String) : FileReport :=
  { FileReport.blank file with
    extras := [("syntax_error", reason), ("c_spec", .object [])] }

def reportC : FileReport :=
  match d.content p with
  | .ok c => C.report p.text c.textLenient
  | .error f => unreadC p.text f.text

def reportCpp : FileReport × List String :=
  match d.content p with
  | .ok c => Cpp.report p.text c.textLenient (ps.cpp c.textLenient)
  | .error f => (Cpp.rejected p.text f.text, [])

def reportCsharp : FileReport :=
  match d.content p with
  | .ok c => Csharp.report p.text c.textLenient (ps.csharp c.textLenient)
  | .error f => Csharp.rejected p.text f.text

def reportJava? : Option FileReport :=
  match d.text p with
  | .error _ => none
  | .ok s =>
    some (match ps.java s with
      | .ok t => Java.report p.text t
      | .error reason => Java.rejected p.text reason)

def projectC (suffixes : List String) : List FileReport :=
  let root := d.resolved root
  let ignored := toolDirs ++ ["build", "dist", "obj"]
  suffixes.flatMap fun suffix =>
    ((named d root suffix).filter fun p => !isAmong ignored p).map (reportC d)

def suffixesC : List String := [".c", ".h"]

/-- The reports on all sources below a directory whose suffix in small letters is wanted, taken
for C++, with what is printed. -/
def projectCpp (wanted : String → Bool) : Except Fault (List FileReport × List String) := do
  if !(← d.exists? root) then
    throw (.say .badValue ("CPP project root does not exist: " ++ root.text))
  if !(← d.isDir? root) then
    throw (.say .badValue ("CPP project root is not a directory: " ++ root.text))
  let found := ((d.below root).filter fun p => wanted (Text.lower p.suffix)).map
    (reportCpp ps d)
  return (found.map (·.1), found.flatMap (·.2))

def suffixesCpp : List String := [".cpp", ".cc", ".cxx", ".hpp", ".h"]

def languageSuffixes : List (String × List String) := [
  ("Python", [".py"]),
  ("Java", [".java"]),
  ("JavaScript", [".js"]),
  ("C", [".c", ".h"]),
  ("C++", [".cpp", ".cc", ".cxx", ".hpp", ".hh", ".hxx"]),
  ("C#", [".cs"])]

def sourcesByLanguage : List (String × List Path) :=
  let files := (d.below root).filter fun p => !isAmong toolDirs p && d.isFile p
  languageSuffixes.map fun (language, suffixes) =>
    (language, files.filter fun p => suffixes.contains p.suffix)

def usedSources : List (String × List Path) :=
  (sourcesByLanguage d root).filter fun s => !s.2.isEmpty

def drawn (reports : List FileReport) (files : List Path) : Except Fault Value :=
  aggregate (reports.map FileReport.toValue) files.length

def languageFigures (language : String) (files : List Path) : Except Fault (Value × List String) :=
  match language with
  | "Python" => do
    .ok (← Python.metrics root (files.map fun p => (p, ps.parsePython d p)), [])
  | "Java" => do .ok (← drawn (files.filterMap (reportJava? ps d)) files, [])
  | "JavaScript" => do .ok (← javaScriptProject ps d root, [])
  | "C" => do .ok (← drawn (files.map (reportC d)) files, [])
  | "C++" => do
    let found := files.map (reportCpp ps d)
    .ok (← drawn (found.map (·.1)) files, found.flatMap (·.2))
  | _ => do .ok (← drawn (files.map (reportCsharp ps d)) files, [])

def languageMetrics (s : String × List Path) : Except Fault (String × Value × List String) := do
  let (metrics, notes) ← languageFigures ps d root s.1 s.2
  .ok (s.1, metrics.set "language" s.1, notes)

def sourceCount : Nat :=
  ((sourcesByLanguage d root).map (·.2.length)).foldl (· + ·) 0

def survey : Except Fault (Value × List String) := do
  let root ← javaScriptRoot d root
  let found ← (usedSources d root).mapM (languageMetrics ps d root)
  let notes := found.flatMap (·.2.2)
  match found with
  | [] => .ok (← aggregate [] (.nat 0), notes)
  | [(_, metrics, _)] => .ok (metrics, notes)
  | _ =>
    let languages := found.map fun f => (f.1, f.2.1)
    .ok (← combine languages (sourceCount d root), notes)

end Folio.Code

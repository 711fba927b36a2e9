/-
# Resume.Brief -- a project briefed for a language model

The brief lists the files of a project and then quotes from them, file by file in the order of
their paths, as long as a budget of characters lasts.  The model's reply becomes a profile.
-/
import Folio.Resume.Profile
import Folio.Workspace

namespace Folio.Resume

open Action Text

variable (d : Disk) (p : Path) (root : Path)

inductive FileKind where
  | ignored
  | pages
  | word
  | prose
  | code
  deriving Repr, DecidableEq

def FileKind.label : FileKind → String
  | .ignored => "ignore"
  | .pages => "pdf"
  | .word => "docx"
  | .prose => "text"
  | .code => "code"

def pictureSuffixes : List String := [".png", ".jpg", ".jpeg", ".gif", ".bmp", ".tiff", ".webp"]

def proseSuffixes : List String := [".txt", ".md", ".rst", ".log"]

def codeSuffixes : List String := [
  ".py", ".pyw", ".ipynb", ".pyscript",
  ".js", ".jsx", ".mjs", ".cjs", ".ts", ".tsx",
  ".java", ".kt", ".kts", ".scala", ".groovy",
  ".c", ".h", ".cpp", ".hpp", ".cc", ".cxx", ".cs", ".vb",
  ".html", ".htm", ".css", ".scss", ".sass", ".less", ".vue", ".svelte", ".xml", ".svg",
  ".rb", ".pl", ".pm", ".t", ".lua", ".r", ".m", ".jl",
  ".sh", ".bash", ".zsh", ".ps1", ".psm1", ".bat", ".cmd", ".php",
  ".go", ".rs", ".swift", ".dart", ".zig", ".nim", ".mm", ".d", ".pas",
  ".f", ".f90", ".f95", ".asm", ".s", ".cu", ".cuh", ".cl",
  ".json", ".yaml", ".yml", ".toml", ".ini", ".cfg", ".env", ".properties",
  ".sql", ".hql", ".cql", ".graphql", ".gql", ".tf", ".tfvars", ".hcl",
  ".gradle", ".csproj", ".fsproj", ".vbproj", ".cabal", ".hs-boot", ".nuspec",
  ".sln", ".vcxproj", ".bazel", ".bzl", ".buck", ".buckconfig", ".gn", ".gni"]

def sampleSize : Nat := 2048

def startsAsText : Bool :=
  match d.content p with
  | .ok c => (Bytes.text? (c.toBytes.take sampleSize)).isSome
  | .error _ => false

/-- What a file is: by its suffix, or else by its head. -/
def fileKind : FileKind :=
  let suffix := lower p.suffix
  if pictureSuffixes.contains suffix then .ignored
  else if suffix == ".pdf" then .pages
  else if suffix == ".docx" || suffix == ".doc" then .word
  else if proseSuffixes.contains suffix then .prose
  else if codeSuffixes.contains suffix then .code
  else if startsAsText d p then .code
  else .ignored

def isReadable : Page → Bool
  | .unreadable _ => false
  | _ => true

def textOf (kind : FileKind) : String :=
  match kind, d.content p with
  | .pages, .ok (.pages ps) =>
    if ps.all isReadable then join "\n" (ps.map (·.textOrEmpty)) else ""
  | .word, .ok (.word w) => join "\n" (w.paragraphs.map (·.1))
  | .prose, .ok c => c.textLenient
  | .code, .ok c => c.textLenient
  | _, _ => ""

structure Source where
  path : String
  kind : FileKind
  text : String
  deriving Repr, DecidableEq

namespace Source

def title (s : Source) : String := s.path ++ " [" ++ s.kind.label ++ "]"

def quoteLimit : Nat := 1200

def block? (s : Source) : Option String :=
  let text := trim s.text
  if text == "" then none
  else some ("\n=== " ++ s.title ++ " ===\n" ++ takeChars quoteLimit text ++ "\n")

end Source

/-- The blocks that fit into a budget, taken from the front, and whether one did not fit. -/
def within (budget : Int) : List String → List String × Bool
  | [] => ([], false)
  | b :: bs =>
    if (b.length : Int) ≤ budget then
      let (taken, cut) := within (budget - b.length) bs
      (b :: taken, cut)
    else ([], true)

def usualBudget : Int := 20000

def sources : List Source :=
  ((d.filesBelow root).mergeSort Path.le).map fun p =>
    let kind := fileKind d p
    ⟨((p.relativeTo? root).getD p).text, kind, textOf d p kind⟩

def brief (root : String) (budget : Int) (files : List Source) : String :=
  let shown := files.filter (·.kind != .ignored)
  let (blocks, cut) := within budget (shown.filterMap Source.block?)
  "ROOT: " ++ root ++ "\nFILES:\n" ++ String.join (shown.map fun s => "- " ++ s.title ++ "\n")
    ++ "\nSNIPPETS:\n" ++ String.join blocks ++ (if cut then "\n[TRUNCATED]\n" else "")

def briefOf : String :=
  brief (d.resolved root).text usualBudget (sources d root)

/-! ## The reply -/

def principleOf? (f : String × Value) : Option (String × Principle) :=
  match f.2 with
  | .object fs =>
    let get (key : String) : Value := (Fields.get? fs key).getD .null
    some (f.1, ⟨(get "present").truthy, (get "description").orElse "",
      (get "code_snippets").orElse (.list [])⟩)
  | _ => none

def profileOf (reply : Value) : Except Fault Profile := do
  let principles ← ((← reply.fieldD "oop_principles_detected" .null).orElse (.object [])).asObject "items"
  let get (key : String) (fallback : Value) : Value := (reply.get? key).getD fallback
  return {
    title := get "project_title" ""
    line := get "one_sentence_summary" ""
    details := get "detailed_summary" ""
    duties := get "key_responsibilities" (.list [])
    skills := get "key_skills_used" (.list [])
    stack := get "tech_stack" ""
    impact := get "impact" ""
    principles := principles.filterMap principleOf? }

def noKey : Fault := .say .failed "Missing GOOGLE_API_KEY in .env file"

/-- The project directory that a document names; the model has to be within reach. -/
def modelProject (place : Value) : Action Path := do
  let root ← match place with
    | .text s => pure (Path.ofString s)
    | v => throw (.wrongType ("expected a path, not " ++ v.kindName))
  if !(← ask (·.exists? root)) then
    throw (.say .noSuchFile ("No such folder " ++ root.text))
  if !(← services).modelKey then throw noKey
  return root

def modelProfile : Action Profile := do
  print ("running analysis on " ++ root.name)
  profileOf (← (← services).reply)

/-- A profile with the fields of every inner document in order. -/
def Profile.inOrder (p : Profile) : Profile :=
  let order : Value → Value := Value.transform id fun
    | .object fs => .object (fs.mergeSort fun a b => le a.1 b.1)
    | v => v
  { title := order p.title, line := order p.line, details := order p.details
    duties := order p.duties, skills := order p.skills, stack := order p.stack
    impact := order p.impact
    principles := (p.principles.mergeSort fun a b => le a.1 b.1).map fun f =>
      (f.1, { f.2 with description := order f.2.description, snippets := order f.2.snippets }) }

def Profile.store (p : Profile) (name : String) : Action Unit := do
  let file := Path.ofString ("output/" ++ name ++ "_resume.json")
  makeDirs file.parent
  let v := p.inOrder.toValue
  match Json.strictRefusal? v with
  | some reason => throw (.met .unwritable reason)
  | none => write file (.document .exact v)

end Folio.Resume

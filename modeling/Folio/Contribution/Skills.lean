/-
# Contribution.Skills -- what each person shows

The skills of a person are those of a project that holds the person's files only: these are copied to a directory of
their own.  Skills once found for a list of files are remembered and taken again for the same list.
-/
import Folio.Archive.Extraction
import Folio.Project.Skills

namespace Folio.Contribution

open Action

/-- Do some work in a fresh directory, which is taken away afterwards whatever came of the work. -/
def inFreshDir {α : Type} (work : Path → Action α) : Action α := do
  let base := (← get).temp
  let d ← disk
  let dir := base.entry (Archive.freeName (fun n => d.present (base.entry n)) "tmp"
    ((d.list base).toOption.getD []).length)
  makeDirs dir
  let done ← attempt (work dir)
  change fun d => .ok (d.removeTree dir)
  done

/-- Copy a file of a project to the same place below another directory.  What is no file is passed over,
and so is a copy that fails. -/
def copyAcross (root dir : Path) (file : String) : Action Unit := do
  if ← ask (·.isFile? (root.child file)) then
    let target := dir.child file
    makeDirs target.parent
    discard (attempt (copy (root.child file) target))

def skillsOfFiles (root : Path) (files : List String) : Action (List String) :=
  inFreshDir fun dir => do
    for file in files do copyAcross root dir file
    match Project.skillsOf (← disk) dir with
    | .ok skills => return skills
    | .error _ => return []

def lookUp (root : Path) (files : List String) : Action (List String) := do
  if files.isEmpty then return []
  match (← get).skills.lookup files with
  | some skills => return skills
  | none =>
    let skills ← skillsOfFiles root files
    modify fun w => { w with skills := w.skills ++ [(files, skills)] }
    return skills

def Bucket.files (b : Bucket) : List String := Text.unique (Text.sorted b.owned)

def listSkills (root : Path) : Buckets → Action Fields
  | [] => return []
  | (person, b) :: rest => do
    let own ← lookUp root b.files
    return (person, .object [("file_count", b.files.length), ("skills", own)])
      :: (← listSkills root rest)

def skillsByPerson (history : Option Git.History) (root : Path) : Action Value := do
  let d ← disk
  let found ← find d history root
  let skills ← Project.skillsOf d root
  let listed ← listSkills root found.buckets
  return .object [("project_skills", skills), ("contributors", .object listed)]

end Folio.Contribution

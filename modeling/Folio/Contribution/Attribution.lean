/-
# Contribution.Attribution -- whose files they are

Every file of a project goes to exactly one person, or to nobody.  Without a history the owner of a file decides, or
else a name in the file's name; with a history the author of the last commit does.
-/
import Folio.Project.Kind

namespace Folio.Contribution

open People Text

variable (d : Disk) (last : LastCommit) (contributors : List String) (author : Option Git.Author)

def nobody : String := "<unattributed>"

structure Bucket where
  owned : List String
  fromOwner : List String
  fromName : List String
  deriving Repr, DecidableEq

namespace Bucket

def empty : Bucket := ⟨[], [], []⟩

def own (file : String) (b : Bucket) : Bucket := { b with owned := b.owned ++ [file] }

def toValue (b : Bucket) : Value := .object [
  ("files_owned", sorted b.owned),
  ("file_count", b.owned.length),
  ("files_from_metadata", sorted b.fromOwner),
  ("files_from_text", sorted b.fromName)]

end Bucket

abbrev Buckets := List (String × Bucket)

namespace Buckets

def alter (person : String) (f : Bucket → Bucket) : Buckets → Buckets
  | [] => [(person, f .empty)]
  | (p, b) :: rest => if p == person then (p, f b) :: rest else (p, b) :: alter person f rest

def bucket (bs : Buckets) (person : String) : Bucket := (bs.lookup person).getD .empty

def ofPeople (people : List String) : Buckets :=
  people.foldl (fun bs p => alter p (fun _ => .empty) bs) []

def toValue (bs : Buckets) : Value := .object (bs.map fun b => (b.1, b.2.toValue))

end Buckets

/-- Files that describe a project and belong to nobody in particular. -/
def describing : List String := ["CONTRIBUTORS", "AUTHORS", "README", "README.MD", "README.TXT"]

def scanned (root : Path) : List (Path × String) :=
  ((d.filesBelow root).filter fun p =>
    !p.allParts.contains ".git" && !describing.contains (upper p.name)).map fun p =>
      (p, ((p.relativeTo? root).getD p).text)

/-- The files of a project with their owners.  A failing look-up, and an owner that says nothing,
give none. -/
def ownerMap (ownerOf : Path → String → Except Fault String) (root : Path) : List (String × Option String) :=
  (scanned d root).map fun (p, rel) =>
    match ownerOf p rel with
    | .ok owner => (rel, if Project.isNamelessOwner owner then none else some owner)
    | .error _ => (rel, none)

def isNamedAfter (file person : String) : Bool :=
  let name := lower (Path.ofString file).name
  (tokens person).any fun t => t.length > 2 && contains name t

def namesake? (people : List String) (file : String) : Option String :=
  people.find? (isNamedAfter file)

/-- A file goes to the person that its owner stands for, and one without an owner to nobody. -/
def assign (canon : List (String × String)) (bs : Buckets) (file : String × Option String) : Buckets :=
  match file.2 with
  | some owner =>
    bs.alter ((canon.lookup owner).getD owner) fun b =>
      { b with owned := b.owned ++ [file.1], fromOwner := b.fromOwner ++ [file.1] }
  | none => bs.alter nobody (.own file.1)

def reassign (people : List String) (bs : Buckets) (file : String) : Buckets :=
  match namesake? people file with
  | some person =>
    (bs.alter person fun b =>
      { b with owned := b.owned ++ [file], fromName := b.fromName ++ [file] }).alter nobody fun b =>
        { b with owned := b.owned.erase file }
  | none => bs

def handOut (files : List (String × Option String)) : Buckets :=
  let owners := sorted (unique (files.filterMap (·.2)))
  let canon := canonical owners contributors
  let people := sorted (unique
    (canon.owners.map (·.2) ++ canon.contributors.map (·.2)))
  let assigned := files.foldl (assign canon.owners) (.ofPeople (people ++ [nobody]))
  (assigned.bucket nobody).owned.foldl (reassign (people.filter (· != nobody))) assigned

def ofFiles (ownerOf : Path → String → Except Fault String) (root : Path) : Buckets :=
  handOut (contributorNames d root) (ownerMap d ownerOf root)

/-! ## By history -/

def nameOf : String := (author.bind (·.name)).getD ""

def emailOf : String := (author.bind (·.email)).getD ""

def personOf : String :=
  canonicalAuthor (author.bind (·.name)) (author.bind (·.email)) contributors
    (contributors.map fun c => (c, trim c))

/-- The people of the authors that were met, by address and, for those without one, by name. -/
structure Authors where
  byEmail : List (String × String)
  byName : List (String × String)
  deriving Repr, DecidableEq

def Authors.find (known : Authors) (contributors : List String) (author : Option Git.Author) : String × Authors :=
  let new := personOf contributors author
  if emailOf author != "" then
    let key := lower (emailOf author)
    match known.byEmail.lookup key with
    | some person => (person, known)
    | none => (new, { known with byEmail := known.byEmail ++ [(key, new)] })
  else if nameOf author != "" then
    match known.byName.find? fun k => sameName k.1 (nameOf author) with
    | some k => (k.2, known)
    | none => (new, { known with byName := known.byName ++ [(nameOf author, new)] })
  else (new, known)

abbrev LastCommit := String → Except Fault (Option Git.Commit)

def lastCommit? (file : String) : Option Git.Commit := (last file).toOption.join

def placeTracked (s : Buckets × Authors) (file : String) : Buckets × Authors :=
  match lastCommit? last file with
  | some commit =>
    let found := s.2.find contributors commit.author
    (s.1.alter found.1 (.own file), found.2)
  | none => (s.1.alter nobody (.own file), s.2)

/-- The contributions by a history: tracked files go to the authors of their last commits, and
files on disk that are not tracked to nobody. -/
def handOutTracked (contributors tracked onDisk : List String) : Buckets :=
  let start := Buckets.ofPeople (unique contributors ++ [nobody])
  let (bs, _) := tracked.foldl (placeTracked last contributors) (start, ⟨[], []⟩)
  (unique (onDisk.filter fun f => !tracked.contains f)).foldl (fun bs f => bs.alter nobody (.own f)) bs

def ofHistory (h : Git.History) (root : Path) : Except Fault Buckets := do
  match h.trackedFiles with
  | .error f =>
    throw (.wrap .failed ("Failed to list tracked files for repo at " ++ root.text ++ ": "
      ++ f.text) f)
  | .ok tracked =>
    return handOutTracked h.lastCommit (contributorNames d root) tracked
      ((scanned d root).map (·.2))

def ofRepository (history : Option Git.History) (root : Path) : Except Fault Buckets := do
  match history with
  | none => throw (.say .badValue "Path is not a git repository")
  | some h =>
    if h.openFails then
      throw (.wrap .failed ("Failed to open git repository at " ++ root.text ++ ": "
        ++ Git.failure.text) Git.failure)
    ofHistory d h root

structure Found where
  mode : String
  buckets : Buckets

def Found.toValue (f : Found) : Value := .object [
  ("is_collaborative", true), ("mode", f.mode), ("contributors", f.buckets.toValue)]

def diskOwner : Path → String → Except Fault String := fun _ _ => .ok d.owner

def find (history : Option Git.History) (root : Path) : Except Fault Found := do
  if !((← d.exists? root) && (← d.isDir? root)) then
    throw (.say .badValue
      ("Project path does not exist or is not a directory: " ++ root.text))
  let verdict ← Project.kindOf d history root
  if verdict.kind != .collaborative then throw (.say .badValue "Project is not collaborative")
  match history with
  | some h =>
    return ⟨"git", ← ofHistory d h root⟩
  | none => return ⟨"local", ofFiles d (diskOwner d) root⟩

end Folio.Contribution

/-
# Contribution.Shares -- how much each person did

Commits are listed branch by branch by a hosting service and counted once each.  Changes to files are added up per
author and file.

With a history the hosting service counts commits; without one the files of each person are
counted.  Files of nobody do not count.
-/
import Folio.Contribution.Attribution

namespace Folio.Contribution

open Text

variable (h : Git.Hosted) (history : Option Git.History)

/-- The name of a project on the hosting service, read off the address of its origin: the last
two parts, without what follows a dot in the last one. -/
def hostedName (origin : String) : Except Fault String :=
  match (splitOn origin "/").reverse with
  | last :: owner :: _ => .ok (owner ++ "/" ++ (splitOn last ".").headD "")
  | _ => .error (.met .outOfRange "list index out of range")

structure Link where
  name : String
  authors : Nat
  deriving Repr, DecidableEq

def linkOf : Except Fault (Option Link) := do
  match history with
  | none => return none
  | some h =>
    if h.openFails then throw Git.failure
    let name ← hostedName h.origin
    let names ← (← h.allCommits).mapM fun c =>
      match c.author with
      | some a => Except.ok a.name
      | none => .error (.met .missingAttribute "the commit has no author")
    if h.closeFails then throw Git.failure
    return some ⟨name, names.eraseDups.length⟩

def distinctCommits : List Git.HostedCommit :=
  (h.branches.flatMap (·.2)).foldl (fun acc c =>
    if acc.any (·.sha == c.sha) then acc else acc ++ [c]) []

def loginOf (c : Git.HostedCommit) : String :=
  match c.author with
  | some login => if login == "" then "Unknown" else login
  | none => "Unknown"

def commitCounts : List (String × Nat) :=
  let logins := (distinctCommits h).map loginOf
  (unique logins).map fun l => (l, logins.count l)

def busiest (counts : List (String × Nat)) : List (String × Nat) :=
  counts.mergeSort fun a b => a.2 ≥ b.2

def percentage (part whole : Nat) : String :=
  if whole == 0 then "0.00%"
  else Decimal.fixed 2 (Decimal.quotient part whole * 100.0) ++ "%"

structure Changes where
  suffix : String
  additions : Int
  deletions : Int
  changes : Int
  deriving Repr, DecidableEq

def Changes.toValue (c : Changes) : Value := .object [
  ("additions", .int c.additions), ("deletions", .int c.deletions), ("changes", .int c.changes),
  ("fileType", c.suffix)]

def countedChanges : List (String × Git.FileChange) :=
  (distinctCommits h).flatMap fun c =>
    match c.author with
    | some login =>
      if h.contributors.contains login then
        (c.files.filter (·.patch != "")).map (login, ·)
      else []
    | none => []

def changesOf (all : List (String × Git.FileChange)) (author : String) : List (String × Changes) :=
  let own := (all.filter (·.1 == author)).map (·.2)
  (unique (own.map (·.name))).map fun file =>
    let here := own.filter (·.name == file)
    (file, { suffix := lower (Path.ofString file).suffix
             additions := (here.map (·.additions)).foldl (· + ·) 0
             deletions := (here.map (·.deletions)).foldl (· + ·) 0
             changes := (here.map (·.changes)).foldl (· + ·) 0 })

def changesByAuthor : Value :=
  let all := countedChanges h
  .object ((unique (all.map (·.1))).map fun author =>
    let files := changesOf all author
    (author, .object [
      ("files", .object (files.map fun f => (f.1, f.2.toValue))),
      ("total_changes", .int ((files.map (·.2.changes)).foldl (· + ·) 0))]))

structure HostedFound where
  link : Link
  result : Value
  changes : Value

/-- Look a project up on the hosting service; `token` says whether the caller may. -/
def hosted (service : Option Git.Hosted) (token : Bool) : Except Fault HostedFound := do
  if !token then
    throw (.say .failed "GITHUB_TOKEN is not set. Please add it to your .env file.")
  match ← linkOf history with
  | none =>
    throw (.say .failed "Could not determine remote GitHub repository URL from local repo.")
  | some link =>
    match service with
    | none => throw (.met .system "no such repository")
    | some h =>
      let counts := busiest (commitCounts h)
      let total := (counts.map (·.2)).foldl (· + ·) 0
      let shared := counts.length > 1
      let changes := changesByAuthor h
      let result : Fields := [
        ("is_collaborative", .bool shared),
        ("project_name", .text h.fullName),
        ("total_commits", .nat total),
        ("contributors", .object (counts.map fun (login, n) =>
          (login, .object [("commit_count", .nat n), ("percentage", .text (percentage n total))])))]
        ++ (if shared then [] else [("files_change", changes)])
      return ⟨link, .object result, changes⟩

structure Sources where
  history : Option Git.History
  service : Option Git.Hosted
  token : Bool

def Sources.none : Sources := ⟨.none, .none, true⟩

def people (bs : Buckets) : Buckets := bs.filter fun b => b.1 != nobody

def fileShares (d : Disk) (history : Option Git.History) (root : Path) (name : Option String) : Except Fault Value := do
  let found ← find d history root
  let listed := people found.buckets
  let total := (listed.map (·.2.owned.length)).foldl (· + ·) 0
  return .object [
    ("is_collaborative", .bool true),
    ("mode", .text found.mode),
    ("project_name", .text (name.getD root.name)),
    ("total_items", .nat total),
    ("metric", .text "files"),
    ("contributors", .object (listed.map fun (person, b) =>
      (person, b.toValue.set "percentage" (.text (percentage b.owned.length total)))))]

def summary (d : Disk) (s : Sources) (root : Path) : Except Fault Value := do
  match s.history with
  | some h =>
    if h.openFails then
      throw (.wrap .failed (" Failed to inspect repository at " ++ root.text ++ ": "
        ++ Git.failure.text) Git.failure)
    let found ← hosted s.history s.service s.token
    return .object [
      ("is_collaborative", found.result.getOrNull "is_collaborative"),
      ("mode", "git"),
      ("project_name", (found.result.getOrNull "project_name").orElse root.name),
      ("project_path", root.text),
      ("total_items", found.result.getOrNull "total_commits"),
      ("metric", "commits"),
      ("contributors", found.result.getOrNull "contributors")]
  | none => fileShares d none root (some root.name)

end Folio.Contribution

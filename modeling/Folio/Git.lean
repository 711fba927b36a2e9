/-
# Git -- the history of a project

Opening a history, listing files, reading commits and closing it may each fail.  What a hosting service knows of a
project is listed branch by branch.
-/
import Folio.Fault
import Folio.Text.Pieces

namespace Folio.Git

structure Author where
  name : Option String
  email : Option String
  deriving Repr, DecidableEq

structure Commit where
  author : Option Author
  files : List String
  deriving Repr, DecidableEq

structure History where
  /-- Newest first. -/
  commits : List Commit
  tracked : List String
  origin : String
  openFails : Bool
  listFails : Bool
  commitsFail : Bool
  closeFails : Bool
  deriving Repr, DecidableEq, Inhabited

def failure : Fault := .met .system "git failed"

namespace History

def trackedFiles (h : History) : Except Fault (List String) :=
  if h.listFails then .error failure
  else .ok (Text.unique (Text.lines (Text.join "\n" h.tracked)))

def allCommits (h : History) : Except Fault (List Commit) :=
  if h.commitsFail then .error failure else .ok h.commits

def lastCommit (h : History) (file : String) : Except Fault (Option Commit) :=
  if h.commitsFail then .error failure else .ok (h.commits.find? fun c => c.files.contains file)

end History

/-! ## The hosting service -/

structure FileChange where
  name : String
  patch : String
  additions : Int
  deletions : Int
  changes : Int
  deriving Repr, DecidableEq

structure HostedCommit where
  sha : String
  author : Option String
  files : List FileChange
  deriving Repr, DecidableEq

structure Hosted where
  fullName : String
  branches : List (String × List HostedCommit)
  contributors : List String
  deriving Repr, DecidableEq

end Folio.Git

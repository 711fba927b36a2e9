/-
# Project.Kind -- alone or together

A project is the work of one person or of several.  Its history tells, when there is one; otherwise
the owners of its files and the names in its contributor files do.
-/
import Folio.Git
import Folio.People.Names

namespace Folio.Project

inductive Kind where
  | individual
  | collaborative
  | unknown
  deriving Repr, DecidableEq

namespace Kind

def label : Kind → String
  | .individual => "individual"
  | .collaborative => "collaborative"
  | .unknown => "unknown"

def ofCount : Nat → Kind
  | 0 => .unknown
  | 1 => .individual
  | _ => .collaborative

/-- Two opinions: several people outweigh one, and one outweighs none. -/
def join : Kind → Kind → Kind
  | .collaborative, _ => .collaborative
  | _, .collaborative => .collaborative
  | .individual, _ => .individual
  | _, .individual => .individual
  | .unknown, .unknown => .unknown

end Kind

structure Verdict where
  kind : Kind
  mode : String
  deriving Repr, DecidableEq

def Verdict.toValue (v : Verdict) : Value := .object [
  ("project_type", v.kind.label), ("mode", v.mode)]

def isNamelessOwner (owner : String) : Bool := ["Unknown", "Author Unknown", ""].contains owner

def historyAuthors (h : Git.History) : List String :=
  match h.allCommits with
  | .error _ => []
  | .ok commits =>
    Text.unique ((commits.filterMap fun c => c.author.bind (·.name)).map Text.trim
      |>.filter (· != ""))

def kindOfHistory (h : Git.History) : Verdict :=
  ⟨if h.openFails then .unknown else .ofCount (historyAuthors h).length, "git"⟩

def kindOfFiles (d : Disk) (root : Path) : Kind :=
  let owners := if (d.filesBelow root).isEmpty || isNamelessOwner d.owner then 0 else 1
  let names := Text.unique ((People.contributorFiles d root).flatMap (People.namesInFile d))
  (Kind.ofCount names.length).join (.ofCount owners)

def kindOf (d : Disk) (history : Option Git.History) (root : Path) : Except Fault Verdict := do
  match history with
  | some h => return kindOfHistory h
  | none =>
    if !(← d.exists? root) then return ⟨.unknown, "local"⟩
    if !(← d.isDir? root) then return ⟨.unknown, "local"⟩
    return ⟨kindOfFiles d root, "local"⟩

end Folio.Project

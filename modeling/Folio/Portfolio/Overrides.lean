/-
# Portfolio.Overrides -- what a person wrote about a project

The title, role, overview and highlights of a showcase may be written by hand.  They are kept in a
file of their own for each project.
-/
import Folio.Workspace

namespace Folio

open Action Fields

namespace Portfolio.Overrides

def place (project : String) : Action Path := do
  let dir := (Context.usualFilesDir (← get).context.home).entry "portfolio_overrides"
  makeDirs dir
  return dir.child (Text.replace (Text.replace project " " "_") "/" "_" ++ ".yaml")

def load (project : String) : Action Value := do
  let file ← place project
  if !(← ask (·.exists? file)) then return .object []
  match (← disk).record file with
  | .ok v => return v.orElse (.object [])
  | .error f =>
    throw (.wrap .badValue
      ("Could not parse portfolio overrides for '" ++ project ++ "': " ++ f.text) f)

def withRole (overrides : Value) (role : String) : Value :=
  let whole := overrides.fieldsOrEmpty
  let block := ((get? whole "project").getD .null).fieldsOrEmpty
  .object (set whole "project" (.object (set block "role" role)))

def saveRole (project role : String) : Action Value := do
  let file ← place project
  let overrides := withRole (← load project) role
  match ← attempt (writeRecord file overrides) with
  | .ok _ => return overrides
  | .error f =>
    throw (.wrap .system
      ("Could not save portfolio overrides for '" ++ project ++ "': " ++ f.text) f)

end Portfolio.Overrides

end Folio

/-
# Api.Showcases -- the roles of projects in a showcase

A client may say which role someone had in a project.
-/
import Folio.Api.Route
import Folio.Portfolio.Overrides

namespace Folio.Api.Showcases

open Portfolio.Overrides

def setRole (r : Request) : Action Value := do
  let project := r.text "project_name"
  let role := Text.trim (((r.body.get? "role").bind (·.text?)).getD "Backend Developer")
  if role == "" then throw (.reject 400 "Role cannot be empty.")
  let kept ← telling 500 "Failed to save role override: " (saveRole project role)
  return .object [("project_name", project),
    ("role", ← (← kept.fieldD "project" (.object [])).fieldD "role" .null),
    ("status", "Role override saved successfully")]

def role (r : Request) : Action Value := do
  let project := r.text "project_name"
  let kept ← load project
  let role ← ((← kept.fieldD "project" .null).orElse (.object [])).fieldD "role" .null
  if !role.truthy then throw (.reject 404 ("No saved role for project '" ++ project ++ "'."))
  return .object [("project_name", project), ("role", role)]

end Folio.Api.Showcases

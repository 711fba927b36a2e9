/-
# Api.Insights -- the log of insights as a client sees it
-/
import Folio.Api.Projects
import Folio.Insight.Preferences

namespace Folio.Api.Insights

open Insight Insight.Log Insight.Preferences Value

open Projects (log)

variable (r : Request)

def since : Except Fault (Option Moment) := dateTime? (r.value "since_str")

def projects : Action Value := do
  let file ← log
  let since ← since r
  let found ← filtered (r.text? "language") (r.text? "skill") since (← list file)
  return .list (found.map (·.toValue))

def isWanted (skill : Option String) (since : Option Moment) (i : Insight) : Except Fault Bool := do
  discard (dateTime? i.analyzedAt)
  if !(← isSince since i) then return false
  meets skill i.skills

def skills : Action Value := do
  let file ← log
  let since ← since r
  let all ← list file
  let skill := (r.text? "skill").bind fun s => if s == "" then none else some s
  let found ← (if since.isNone && skill.isNone then .ok all else all.filterM (isWanted skill since) :
    Except Fault (List Insight))
  return .list (found.map (·.skillEntry))

def top : Action Value := do
  let file ← log
  let allowed ← if r.flag "active_only" false
    then some <$> (List.map text <$> Projects.names) else pure none
  let cards ← topCards file (r.text? "contributor") (r.number "top_n" 3) allowed
  return .list (cards.map (·.toValue))

def nothingYet : Fault := .reject 404 "No project insights have been recorded yet."

def recorded : Action (List Insight) := do
  let file ← log
  if !(← Action.ask (·.exists? file)) then throw nothingYet
  let all ← list file
  if all.isEmpty then throw nothingYet
  return all

def allSkills : Action Value := do
  let all ← tryCatch recorded fun f =>
    throw (if f.cause == .badType || f.cause.isSystem
      then rejectedAs 500 "Failed to retrieve skills: " f else f)
  if r.flag "detailed" false then return .list (all.map (·.skillEntry))
  let names ← members ((all.flatMap (·.skills)).filter (·.truthy))
  return .list (← sorted names)

/-! ## Preferences -/

def preferencesFile : Action Path :=
  return (Context.usualFilesDir (← get).context.home).entry "representation_preferences.json"

def preferences (_ : Request) : Action Value :=
  return .object (← load (← preferencesFile))

def preferenceKeys : List String := usual.map (·.1)

def setPreferences : Action Value := do
  let given := (preferenceKeys.map fun key => (key, r.body.getOrNull key)).filter (!·.2.isNull)
  return .object (← update (← preferencesFile) given)

def presented : Action Value :=
  rejecting (fun f => match f.cause with
      | .rejected _ => false
      | _ => true)
    (.reject 500 "Unable to load projects with the current representation preferences.") do
    apply (← Analysis.log) (← preferencesFile) [] []
      (r.flag "only_showcase" false) (r.value "snapshot_label")

end Folio.Api.Insights

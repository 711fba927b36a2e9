/-
# Api.Users -- consent and settings from outside
-/
import Folio.Api.Route
import Folio.Settings.Config

namespace Folio.Api.Users

open Settings

open Settings (Consent)

def silently {α : Type} (work : Action α) : Action α :=
  tryCatch work fun f => throw (.met (.rejected 500) f.text)

def persist (c : Consent) : Action Unit := do
  let home := (← get).context.home
  let settings ← Action.ask fun d => load d home
  prepare
  save (← withConsent settings c)

def setConsent (r : Request) : Action Value := do
  let c : Consent := ⟨(r.body.getOrNull "data_consent").truthy,
    (r.body.getOrNull "external_consent").truthy⟩
  if !c.isSound then
    throw (.reject 400 "External consent requires data consent to be enabled.")
  modify fun w => { w with context := { w.context with
    externalConsent := c.external, dataConsent := c.data } }
  telling 500 "Failed to persist consent: " (persist c)
  return .object [("data_consent", c.data), ("external_consent", c.external)]

def setSettings (r : Request) : Action Value := do
  silently (replace (r.value "config"))
  return .null

def settings (_ : Request) : Action Value := do
  let home := (← get).context.home
  silently (Action.ask fun d => load d home)

end Folio.Api.Users

/-
# Settings.Config -- the settings of a user

Settings are one document in the user's directory.  Where there is none, or none that can be read, the shipped defaults
stand in.  The consent of the user is one field of the settings: nobody gets services outside without consent to the use
of data when consent is granted; taking consent back may leave the second standing.
-/
import Folio.Workspace

namespace Folio.Settings

open Action

variable (home : Path) (settings : Value)

/-! ## Consent -/

structure Consent where
  data : Bool := false
  external : Bool := false
  deriving Repr, DecidableEq

namespace Consent

def isSound (c : Consent) : Bool := c.data || !c.external

def grant (data external : Bool) : Except Fault Consent :=
  let c : Consent := ⟨data, external⟩
  if c.isSound then .ok c else .error (.say .badValue "External consent requires data consent.")

/-- Take consent back, to services outside only when asked to. -/
def revoke (c : Consent) (includeExternal : Bool) : Consent :=
  ⟨false, c.external && !includeExternal⟩

end Consent

/-! ## The document -/

def place : Path := (Context.usualFilesDir home).entry "UserConfigs.json"

def defaults : Path := (home.entry "Templates").entry "default_user_configuration.json"

def consentText : Path := home.entry "consent_document.md"

/-- Whether a file is as good as absent: it is, or it holds no document. -/
def isAbsent (f : Fault) : Bool := f.cause == .noSuchFile || f.cause == .malformed

def shipped (d : Disk) (home : Path) : Except Fault Value :=
  match d.strictDocument (defaults home) with
  | .ok v => .ok v
  | .error f =>
    let file := (defaults home).text
    match f.cause with
    | .noSuchFile => .error (.say .noSuchFile ("Default config not found at " ++ file))
    | .malformed =>
      .error (.met .badValue ("Default configuration file " ++ file ++ " is invalid: " ++ f.text))
    | _ => .error f

def load (d : Disk) (home : Path) : Except Fault Value :=
  match d.strictDocument (place home) with
  | .ok v => .ok v
  | .error f => if isAbsent f then shipped d home else .error f

def consentField (c : Consent) : Value :=
  .object [("external", c.external), ("Data consent", c.data)]

def withConsent (c : Consent) : Except Fault Value :=
  match settings with
  | .null => .ok .null
  | .object _ => .ok (settings.set "consented" (consentField c))
  | v => .error (.noAttribute v.kindName "update")

def prepare : Action Unit := do
  makeDirs (Context.usualFilesDir (← get).context.home)

/-- Write settings.  The file is emptied before it is written, so settings that cannot be written
leave an empty one. -/
def save (settings : Value) : Action Unit := do
  let file := place (← get).context.home
  let step : Action Unit := do
    writeText file ""
    match Json.strictRefusal? settings with
    | some reason => throw (.met .unwritable reason)
    | none => write file (.document .exact settings)
  match ← attempt step with
  | .ok _ => pure ()
  | .error f => throw (.wrap .system ("Failed to save configuration: " ++ f.text) f)

def replace : Action Unit := do
  prepare
  save settings

end Folio.Settings

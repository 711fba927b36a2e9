/-
# Workspace -- what actions work on

Without a connection to its store the application works with no store at all: nothing is kept and nothing is found.

Parsers, the version history and its host, the language model, the typesetter and the accounts of the system are not
part of this library.  What it needs to know of them is how they answer, and that is one record (`Services`).

An action may read and change the disk, print, set documents, take a fresh identifier, remember what it found and fail.
A failing action keeps what it did before it failed, as programs do; so the state stands outside the outcome.

Documents and overrides are kept as records in files that a person may edit.  A record that was written is read back as
it was; a blank file holds none.
-/
import Folio.Code.Sources
import Folio.Contribution.Shares

namespace Folio

open ExceptT

inductive Connection where
  | absent
  | live
  | closed
  deriving Repr, DecidableEq, Inhabited

inductive Upload where
  | place (p : Path)
  /-- A file received from a client, with the name that the client gave. -/
  | received (name : Option String) (content : Content)

structure Context where
  home : Path
  connection : Connection
  filesDir : Option Path
  saveDir : Option Path
  externalConsent : Bool
  dataConsent : Bool
  upload : Option Upload
  projectName : Option String
  deriving Inhabited

namespace Context

variable (home : Path) (c : Context)

def usualFilesDir : Path := home.entry "User_config_files"

def usualSaveDir : Path := (usualFilesDir home).entry "project_insights"

def storeFile : Path := c.home.entry "appdb.db"

def schemaFile : Path := c.home.entry "database.sql"

def ofHome : Context :=
  { home, connection := .absent, filesDir := some (usualFilesDir home),
    saveDir := some (usualSaveDir home), externalConsent := false, dataConsent := false,
    upload := none, projectName := none }

def toValue : Value :=
  let place (p : Option Path) : Value := .textOrNull (p.map (·.text))
  .object [("connected", c.connection == .live), ("legacy", place c.filesDir),
    ("default", place c.saveDir), ("external", c.externalConsent), ("data", c.dataConsent)]

def required : Option Path → Except Fault Path
  | some p => .ok p
  | none => .error (.wrongType "the directory is not set")

end Context

structure Typesetting where
  produced : List String := []
  code : Int := 0
  output : String := ""
  complaint : String := ""
  /-- It takes the output directory away before it writes. -/
  dropsDirectory : Bool := false
  fault : Option String := none
  deriving Repr

structure Services where
  parsers : Code.Parsers := .refusing
  sources : Contribution.Sources := .none
  pages : Bool := false
  modelKey : Bool := true
  reply : Except Fault Value := .ok .null
  typesetting : Typesetting := {}
  /-- The home directory of an account; the empty name is the user's own. -/
  homeOf : String → Option Path := fun account =>
    if account == "" || account == "root" then some ⟨"/", ["root"]⟩ else none

namespace Services

def homeless : Fault := .met .failed "Could not determine home directory."

/-- Whether a path starts with a home mark, `~` or `~` and the name of an account. -/
def hasHomeMark (p : Path) : Bool := !p.isAbsolute && Text.startsWith (p.parts.headD "") "~"

def expanded (s : Services) (p : Path) : Except Fault Path :=
  if hasHomeMark p then
    match s.homeOf (Text.dropChars 1 (p.parts.headD "")) with
    | some home => .ok ⟨home.root, home.parts ++ p.parts.drop 1⟩
    | none => .error homeless
  else .ok p

end Services

structure Sheet where
  place : Path
  paragraphs : List (String × Value)

structure Workspace where
  disk : Disk
  now : Moment
  issued : Nat
  printed : String
  temp : Path := Path.ofString "/tmp"
  sheets : List Sheet := []
  runs : List (List String) := []
  skills : List (List String × List String) := []
  services : Services := {}
  context : Context
  deriving Inhabited

abbrev Action := ExceptT Fault (StateM Workspace)

namespace Action

variable (p : Path) (s : String)

def outcome {α : Type} (a : Action α) (w : Workspace) : Except Fault α × Workspace :=
  (run a).run w

def ofExcept {α : Type} (r : Except Fault α) : Action α := mk (pure r)

instance {α : Type} : Coe (Except Fault α) (Action α) := ⟨ofExcept⟩

instance : MonadLift (Except Fault) Action := ⟨ofExcept⟩

def attempt {α : Type} (a : Action α) : Action (Except Fault α) :=
  mk (do return .ok (← run a))

def disk : Action Disk := return (← get).disk

def change (step : Disk → Except Fault Disk) : Action Unit := do
  match step (← disk) with
  | .ok d => modify fun w => { w with disk := d }
  | .error f => throw f

def printText : Action Unit :=
  modify fun w => { w with printed := w.printed ++ s }

def print : Action Unit := printText (s ++ "\n")

def now : Action Moment := return (← get).now

def freshId : Action String := do
  let n := (← get).issued + 1
  modify fun w => { w with issued := n }
  return Value.hex 8 n ++ "-0000-4000-8000-000000000000"

def services : Action Services := return (← get).services

def write (c : Content) : Action Unit := do
  let t ← now
  change fun d => d.write p c t

def writeText : Action Unit := write p (.text s)

def makeDirs : Action Unit := change fun d => d.makeDirs p

/-- Copy a file with its time; into a directory under its own name. -/
def copy (source target : Path) : Action Unit := do
  let d ← disk
  let target := if d.isDir target then target.entry source.name else target
  match d.file source with
  | .ok f => change fun d => d.write target f.content f.modified
  | .error f => throw f

def unwritable : Fault := .wrongType "Object is not JSON serializable"

def store (layout : Json.Layout) (v : Value) : Action Unit := do
  makeDirs p.parent
  if !Json.isPlain v then throw unwritable
  write p (.document layout v)

def ask {α : Type} (question : Disk → Except Fault α) : Action α := do
  ofExcept (question (← disk))

end Action

def Disk.record (d : Disk) (p : Path) : Except Fault Value := do
  match ← d.content p with
  | .document _ v => return v
  | _ =>
    let text ← d.text p
    if Text.isBlankText text then return .null
    match Json.parse? text with
    | some v => return v
    | none => throw (.met .general "could not parse the record")

def Action.writeRecord (p : Path) (v : Value) : Action Unit := Action.write p (.document .line v)

end Folio

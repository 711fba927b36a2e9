/-
# Store.Session -- working with the store of the application

Every operation looks at the connection first: without one it has nothing to work on, and a closed
one is a fault.  A live connection works on the tables in the store's file.
-/
import Folio.Workspace

namespace Folio.Store.Session

open Action Json

variable (name : String)

def closedFault : Fault := .met .storeClosed "Cannot operate on a closed database."

def noTables : Fault := .met .noTable "no such table: project_data"

def connection : Action Connection := return (← get).context.connection

def tables : Action Store := do
  match (← disk).content (← get).context.storeFile with
  | .ok (.store s) => return s
  | _ => throw noTables

def keep (s : Store) : Action Unit := do
  write (← get).context.storeFile (.store s)

/-- Work on the tables; without a connection the result is `without`. -/
def work {α : Type} (without : Except Fault α) (step : Store → Action α) : Action α := do
  match ← connection with
  | .absent => without
  | .closed => throw closedFault
  | .live => step (← tables)

def needsStore : Fault := .met .missingAttribute "there is no store"

def ask {α : Type} (question : Store → α) : Action α :=
  work (.error needsStore) fun s => return question s

def wordLimit : Int := 0x8000000000000000

def word (n : Int) : Except Fault Int :=
  if -wordLimit ≤ n && n < wordLimit then .ok n
  else .error (.met .overflow "the number is too large for the store")

def bytesOf (v : Value) : Bytes := Bytes.ofText (render .line v)

def second : Action Int := return (← now).sinceEpoch.fdiv Calendar.microsPerSecond

/-- Write a project, new or known; says whether it was known.  The bytes are those of the document
unless others are given. -/
def insert (content : Value) (blob : Option Bytes) : Action (Option Bool) := do
  if (← connection) != .absent && !isPlain content then throw unwritable
  work (.ok none) fun s => do
    let (s, known) ← s.insert (← second) name content (blob.getD (bytesOf content))
    keep s
    return some known

def fetch? : Action (Option Value) :=
  work (.ok none) fun s => return s.content? name

def blob? : Action (Option Bytes) :=
  ask (·.blob? name)

def all : Action (List Value) := ask fun s => s.entries.map (·.content)

inductive Input where
  | document (v : Value)
  | bytes (bs : Bytes)

def Input.read : Input → Except Fault (Value × Bytes)
  | .document (.object fs) =>
    if isPlain (.object fs) then .ok (.object fs, bytesOf (.object fs))
    else .error unwritable
  | .document _ => .error (.say .badValue "input must be a dict or bytes")
  | .bytes bs => do
    match Bytes.text? bs with
    | some s => return (← parse s, bs)
    | none => throw Disk.undecodable

def update (input : Input) : Action Bool := do
  if (← connection) == .absent then throw needsStore
  let (content, blob) ← input.read
  work (.error needsStore) fun s => do
    match ← s.update? (← second) name content blob with
    | some s => keep s; return true
    | none => return false

def count : Action Nat := work (.ok 0) fun s => return s.count name

def delete : Action Bool :=
  work (.ok false) fun s => do
    keep (s.delete name)
    return s.has name

def versions : Action (List VersionLine) :=
  ask (·.versionLines name)

def version? (number : Int) : Action (Option Version) := do
  work (.error needsStore) fun s => do
    return s.version? name (← word number)

def projects : Action (List ProjectLine) := ask (·.projectLines)

def has : Action Bool := ask (·.has name)

def names : Action (List String) := ask (·.names)

def prune (keepNewest : Int) : Action Nat :=
  work (.error needsStore) fun s => do
    if !s.has name then return 0
    let (s, n) := s.prune name (← word keepNewest)
    keep s
    return n

def savedNames : Action (List String) :=
  work (.error (.met .missingAttribute "there is no connection")) fun s => return s.names

/-! ## Connecting -/

def noConnection : Fault :=
  .say .failed "ProjectDataStore was given an invalid SQLite connection."

def unreachable (reason : String) : Fault :=
  .met .general ("❌ Could not connect to SQLite: " ++ reason)

def create : Action Unit := do
  let c := (← get).context
  discard (Action.ask (·.text c.schemaFile))
  write c.storeFile (.store .empty)
  print "✅ Database initialized from database.sql"

def prepare : Action Unit := do
  let c := (← get).context
  match (← disk).content c.storeFile with
  | .ok (.store _) => pure ()
  | .ok content =>
    if content.size == 0 then
      if (← disk).present c.schemaFile then write c.storeFile (.store .empty)
    else throw (unreachable "file is not a database")
  | .error f => throw (unreachable f.text)

def start (external data offline : Bool) : Action Unit := do
  let fresh := { Context.ofHome (← get).context.home with
    externalConsent := external, dataConsent := data }
  if offline then
    modify fun w => { w with context := fresh }
  else
    if !(← Action.ask (·.exists? fresh.storeFile)) then create
    prepare
    print "✅ Connected to SQLite successfully!"
    modify fun w => { w with context := { fresh with connection := .live } }

def close : Action Unit :=
  modify fun w =>
    if w.context.connection == .live then
      { w with context := { w.context with connection := .closed } }
    else w

end Folio.Store.Session

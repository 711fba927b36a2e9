/-
# Api.Route -- what a client can ask for

A request carries its arguments as one document, whatever part of it they came from, and possibly a file.  Turning a
request down is a fault with a status.
-/
import Folio.Workspace

namespace Folio.Api

inductive Method where
  | get
  | post
  | delete
  deriving Repr, DecidableEq

def Method.label : Method → String
  | .get => "GET"
  | .post => "POST"
  | .delete => "DELETE"

structure SentFile where
  name : Option String
  content : Content
  deriving Inhabited

structure Request where
  args : Value
  file : Option SentFile := none

namespace Request

variable (r : Request) (key : String)

def value : Value := r.args.getOrNull key

def text? : Option String := (r.value key).text?

def text : String := (r.value key).textOrEmpty

def flag (usual : Bool) : Bool :=
  match r.args.get? key with
  | some v => v.truthy
  | none => usual

def number (usual : Int) : Int :=
  match r.value key with
  | .int n => n
  | _ => usual

def body : Value := r.value "payload"

end Request

structure Route where
  method : Method
  path : String
  name : String
  answer : Request → Action Value

structure Router where
  name : String
  routes : List Route

def Router.route? (r : Router) (name : String) : Option Route := r.routes.find? (·.name == name)

/-! ## Turning requests down -/

/-- A fault of the work becomes a rejection that tells it; a rejection stays as it is. -/
def rejectedAs (status : Nat) (lead : String) (f : Fault) : Fault :=
  match f.cause with
  | .rejected _ => f
  | _ => .wrap (.rejected status) (lead ++ f.text) f

def telling {m : Type → Type} {α : Type} [MonadExceptOf Fault m] (status : Nat) (lead : String) (work : m α) : m α :=
  tryCatch work fun f => throw (rejectedAs status lead f)

/-- The faults that a condition picks out become rejections with a text of their own. -/
def rejecting {m : Type → Type} {α : Type} [MonadExceptOf Fault m] (picks : Fault → Bool)
    (rejection : Fault) (work : m α) : m α :=
  tryCatch work fun f => throw (if picks f then rejection else f)

def status (text : String) : Value := .object [("status", text)]

end Folio.Api

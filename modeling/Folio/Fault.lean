/-
# Fault -- why an operation ended without a result

A text is *own* when this library worded it and it quotes nothing that a lower layer (a reader, the store, the disk)
said; only own texts are meant for the caller's eyes.
-/

namespace Folio

inductive Cause where
  | badValue
  | badType
  | missingKey
  /-- An operation that a value of that kind does not have. -/
  | missingAttribute
  | outOfRange
  | noSuchFile
  | notADirectory
  | isADirectory
  | fileExists
  | denied
  | undecodable
  | malformed
  /-- A step of the work that failed as a whole. -/
  | failed
  /-- A failure of the system or of a service. -/
  | system
  | general
  | rejected (status : Nat)
  | storeClosed
  /-- A row that the rules of the store's tables forbid. -/
  | notUnique
  | noTable
  | overflow
  | divisionByZero
  /-- A document that a service refused to write. -/
  | unwritable
  | damagedArchive
  deriving Repr, DecidableEq

/-- Whether the system is to blame: a file, a directory or a service. -/
def Cause.isSystem : Cause → Bool
  | .noSuchFile | .notADirectory | .isADirectory | .fileExists | .denied | .system => true
  | _ => false

structure Fault where
  cause : Cause
  text : String
  own : Bool
  deriving Repr, DecidableEq

namespace Fault

variable (cause : Cause) (text : String)

def say : Fault := ⟨cause, text, true⟩

def met : Fault := ⟨cause, text, false⟩

def reject (status : Nat) (reason : String) : Fault := ⟨.rejected status, reason, true⟩

/-- A fault that wraps another one: its text is own only when the inner text is. -/
def wrap (inner : Fault) : Fault := ⟨cause, text, inner.own⟩

def wrongType : Fault := met .badType text

def noAttribute (kind name : String) : Fault :=
  met .missingAttribute ("'" ++ kind ++ "' object has no attribute '" ++ name ++ "'")

end Fault

end Folio

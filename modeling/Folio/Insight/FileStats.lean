/-
# Insight.FileStats -- statistics of a hierarchy of files

Every node whose type is not that of a directory counts as a file, at any depth.  A node is visited before its children
and later children before earlier ones; of equals the first visited wins.
-/
import Folio.Insight.Figures

namespace Folio.Insight.FileStats

open Fields

variable (node : Fields) (files : List Fields)

def nodeType : String :=
  match get? node "type" with
  | some v => Text.upper v.shown
  | none => ""

def isFile : Bool := nodeType node != "" && nodeType node != "DIR"

def ownNode : List Fields := if isFile node then [node] else []

mutual

def nodes : Value → Except Fault (List Fields)
  | .object fs => do return ownNode fs ++ (← nodesOfFields fs)
  | _ => .ok []

def nodesOfFields : List (String × Value) → Except Fault (List Fields)
  | [] => .ok []
  | (k, v) :: fs => if k == "children" then nodesOfChildren v else nodesOfFields fs

def nodesOfChildren : Value → Except Fault (List Fields)
  | .list xs => nodesOfItems xs
  | .object _ => .ok []
  | .text _ => .ok []
  | v => if v.truthy then .error (.wrongType ("'" ++ v.kindName ++ "' object is not iterable"))
    else .ok []

/-- The files of children, those of later children first. -/
def nodesOfItems : List Value → Except Fault (List Fields)
  | [] => .ok []
  | x :: xs => do
    let later ← nodesOfItems xs
    return later ++ (← nodes x)

end

def size (node : Fields) : Int := Insight.count ((get? node "size").getD (.int 0))

def typeName : String :=
  Text.upper (((get? node "type").getD .null).orElse "FILE").shown

def name (node : Fields) : Value := (get? node "name").getD .null

def modified (node : Fields) : Value := (get? node "modified").getD .null

def typeCounts : List (String × Nat) :=
  (Text.unique (files.map typeName)).map fun t => (t, (files.map typeName).count t)

def largest? : List Fields → Option Fields
  | [] => none
  | f :: fs => some (fs.foldl (fun best g => if size best < size g then g else best) f)

def newest? : Except Fault (Option (Moment × Fields)) :=
  files.foldlM (fun best f => do
    match changeTime? (modified f), best with
    | none, _ => pure best
    | some t, none => pure (some (t, f))
    | some t, some (s, g) =>
      if ← Value.before (.moment s) (.moment t) then pure (some (t, f))
      else pure (some (s, g))) none

def ofFiles : Except Fault Value := do
  let total := (files.map size).foldl (· + ·) 0
  let newest ← newest? files
  return .object ([
    ("file_count", .nat files.length),
    ("total_size_bytes", .int total),
    ("average_size_bytes", .int (total.fdiv files.length)),
    ("file_types", .object ((typeCounts files).map fun t => (t.1, .nat t.2)))]
    ++ (match largest? files with
      | some f => [("largest_file", .object [("name", name f), ("type", .text (typeName f)),
          ("size_bytes", .int (size f))])]
      | none => [])
    ++ (match newest with
      | some (_, f) => [("newest_file", .object [("name", name f), ("type", .text (typeName f)),
          ("modified", modified f)])]
      | none => []))

def ofHierarchy (hierarchy : Value) : Except Fault Value := do ofFiles (← nodes hierarchy)

end Folio.Insight.FileStats

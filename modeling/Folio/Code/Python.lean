/-
# Code.Python -- classes, data structures and loops in Python sources

Every class of a source is recorded, at whatever depth it stands.  The figures of all sources are added up before the
project's figures are drawn.
-/
import Folio.Code.Tree
import Folio.Code.Combine
import Folio.Code.Report

namespace Folio.Code.Python

open Text

structure ClassRecord where
  name : String
  module : String
  file : Path
  bases : List String
  defined : List String
  privateAttrs : List String
  publicAttrs : List String
  deriving Repr, DecidableEq

def isDunder (name : String) : Bool := startsWith name "__" && endsWith name "__"

namespace ClassRecord

variable (c : ClassRecord)

def methods : List String := sorted (unique c.defined)

def constructed : Bool := c.defined.contains "__init__"

def special : List String := c.methods.filter isDunder

def dunders : Nat := (c.defined.filter isDunder).length

def toValue : Value := .object [
  ("name", c.name),
  ("bases", c.bases),
  ("methods", c.methods),
  ("has_constructor", c.constructed),
  ("special_methods", c.special),
  ("private_attrs", sorted (unique c.privateAttrs)),
  ("public_attrs", sorted (unique c.publicAttrs))]

end ClassRecord

def baseName (a : Ast) : String :=
  match a.kind with
  | "Name" => a.wordOf "id"
  | "Attribute" => a.wordOf "attr"
  | _ => "<expr>"

def selfAttribute? (target : Ast) : Option String :=
  let owner := target.part "value"
  if target.kind == "Attribute" && owner.kind == "Name" && owner.wordOf "id" == "self" then
    some (target.wordOf "attr")
  else none

def selfAttributes (a : Ast) : List String :=
  a.nodes.flatMap fun n =>
    match n.kind with
    | "Assign" => (n.itemsOf "targets").filterMap selfAttribute?
    | "AnnAssign" => (selfAttribute? (n.part "target")).toList
    | _ => []

/-- One underscore, and no more, marks an attribute as private. -/
def isPrivate (attr : String) : Bool := startsWith attr "_" && !Text.startsWith attr "__"

def classRecord (module : String) (file : Path) (c : Ast) : ClassRecord :=
  let methods := (c.itemsOf "body").filter (·.kind == "FunctionDef")
  let attrs := methods.flatMap selfAttributes
  { name := c.wordOf "name", module, file
    bases := (c.itemsOf "bases").map baseName
    defined := methods.map (·.wordOf "name")
    privateAttrs := attrs.filter isPrivate
    publicAttrs := attrs.filter (!isPrivate ·) }

def partRank (name : String) : Nat :=
  match name with
  | "handlers" => 1
  | "orelse" => 2
  | "finalbody" => 3
  | _ => 0

mutual

/-- All class definitions, outer before inner, in the order of the source. -/
def classNodes : Ast → List Ast
  | .node k ps =>
    let below := (classNodesOfParts ps).mergeSort fun a b => a.1 ≤ b.1
    (if k == "ClassDef" then [.node k ps] else []) ++ below.flatMap (·.2)
  | .list xs => classNodesOfItems xs
  | _ => []

def classNodesOfParts : List (String × Ast) → List (Nat × List Ast)
  | [] => []
  | (name, a) :: ps => (partRank name, classNodes a) :: classNodesOfParts ps

def classNodesOfItems : List Ast → List Ast
  | [] => []
  | a :: as => classNodes a ++ classNodesOfItems as

end

def loopKinds : List String := ["For", "While", "AsyncFor"]

structure Usage where
  lists : Nat
  dicts : Nat
  sets : Nat
  tuples : Nat
  listComps : Nat
  dictComps : Nat
  setComps : Nat
  defaultdict : Bool
  counter : Bool
  heap : Bool
  bisect : Bool
  sorted : Bool
  loops : Loops
  deriving Repr, DecidableEq

namespace Usage

def none : Usage :=
  ⟨0, 0, 0, 0, 0, 0, 0, false, false, false, false, false, Loops.none⟩

def add (a b : Usage) : Usage :=
  ⟨a.lists + b.lists, a.dicts + b.dicts, a.sets + b.sets, a.tuples + b.tuples,
    a.listComps + b.listComps, a.dictComps + b.dictComps, a.setComps + b.setComps,
    a.defaultdict || b.defaultdict, a.counter || b.counter, a.heap || b.heap,
    a.bisect || b.bisect, a.sorted || b.sorted,
    ⟨a.loops.functions + b.loops.functions, a.loops.nested + b.loops.nested,
      Nat.max a.loops.depth b.loops.depth⟩⟩

def imported (n : Ast) : List String := (n.itemsOf "names").map (·.wordOf "name")

def imports (nodes : List Ast) (module : String) : Bool :=
  nodes.any fun n =>
    (n.kind == "ImportFrom" && n.wordOf "module" == module)
      || (n.kind == "Import" && (imported n).contains module)

def fromCollections (nodes : List Ast) (name : String) : Bool :=
  nodes.any fun n => n.kind == "ImportFrom" && startsWith (n.wordOf "module") "collections"
    && (imported n).contains name

def calls (nodes : List Ast) (test : Ast → Bool) : Bool :=
  nodes.any fun n => n.kind == "Call" && test (n.part "func")

def ofTree (t : Ast) : Usage :=
  let nodes := t.nodes
  let count (kind : String) : Nat := (nodes.filter (·.kind == kind)).length
  { lists := count "List", dicts := count "Dict", sets := count "Set", tuples := count "Tuple"
    listComps := count "ListComp", dictComps := count "DictComp", setComps := count "SetComp"
    defaultdict := fromCollections nodes "defaultdict"
    counter := fromCollections nodes "Counter"
    heap := imports nodes "heapq" || calls nodes fun f => f.kind == "Attribute"
      && (f.part "value").kind == "Name" && (f.part "value").wordOf "id" == "heapq"
    bisect := imports nodes "bisect"
    sorted := calls nodes fun f => f.kind == "Name" && f.wordOf "id" == "sorted"
    loops := Loops.ofDepths ((nodes.filter (·.kind == "FunctionDef")).map (·.chainBelow loopKinds)) }

def literals (u : Usage) : Fields := [
  ("list_literals", u.lists), ("dict_literals", u.dicts), ("set_literals", u.sets),
  ("tuple_literals", u.tuples), ("list_comprehensions", u.listComps),
  ("dict_comprehensions", u.dictComps), ("set_comprehensions", u.setComps)]

def nestedShare (u : Usage) : Value :=
  if u.loops.functions == 0 then .real 0.0
  else rounded (Decimal.quotient u.loops.nested u.loops.functions)

end Usage

structure Findings where
  files : List (Path × List ClassRecord)
  usage : Usage
  rejected : List Path

def findings (root : Path) (sources : List (Path × Parsed Ast)) : Findings :=
  let trees := sources.filterMap fun (p, s) => s.tree?.map (p, ·)
  let classes := trees.map fun (p, t) => (p, (classNodes t).map (classRecord (moduleName root p) p))
  { files := classes.filter fun f => !f.2.isEmpty
    usage := (trees.map fun f => Usage.ofTree f.2).foldl Usage.add Usage.none
    rejected := sources.filterMap fun (p, s) => match s with | .rejected => some p | _ => none }

namespace Findings

def classes (f : Findings) : List ClassRecord := f.files.flatMap (·.2)

def reports (f : Findings) : List Value :=
  f.files.map fun (p, cs) =>
    classReport p.text ((cs.head?.map (·.module)).getD "") (cs.map (·.toValue))

def metrics (f : Findings) (count : Nat) : Except Fault Value := do
  let m ← aggregate f.reports (.nat count)
  let u := f.usage
  let m := m.set "data_structures" (.object (u.literals ++ [
    ("uses_defaultdict", .bool u.defaultdict), ("uses_counter", .bool u.counter)]))
  let m := m.set "complexity" (.object [
    ("total_functions", .nat u.loops.functions),
    ("functions_with_nested_loops", .nat u.loops.nested),
    ("nested_loop_ratio", u.nestedShare),
    ("max_loop_depth", u.loops.depth),
    ("uses_sorted", u.sorted),
    ("uses_heapq", u.heap),
    ("uses_bisect", u.bisect)])
  let errors := (m.getOrNull "syntax_errors").itemsOrEmpty ++ f.rejected.map (.text ·.text)
  withNarrative Narrative.ofClasses (m.set "syntax_errors" (.list errors))

end Findings

def metrics (root : Path) (sources : List (Path × Parsed Ast)) : Except Fault Value :=
  (findings root sources).metrics sources.length

end Folio.Code.Python

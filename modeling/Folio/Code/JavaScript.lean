/-
# Code.JavaScript -- classes and functions in JavaScript sources

Classes declared at the top of a source are recorded with their methods.  A method whose key is no
plain identifier has no name; such a class can only be listed when all its methods are nameless.
-/
import Folio.Code.Tree
import Folio.Code.Combine
import Folio.Code.Report

namespace Folio.Code.JavaScript

/-- A class with its module and file; nothing stands for a name that could not be read. -/
structure ClassRecord where
  name : Option String
  module : String
  file : Path
  bases : List (Option String)
  defined : List (Option String × Nat)
  deriving Repr, DecidableEq

def loopKinds : List String :=
  ["ForStatement", "WhileStatement", "ForOfStatement", "ForInStatement"]

def functionKinds : List String :=
  ["FunctionDeclaration", "FunctionExpression", "ArrowFunctionExpression"]

def classRecord (module : String) (file : Path) (c : Ast) : ClassRecord :=
  let methods := ((c.part "body").itemsOf "body").filter (·.kind == "MethodDefinition")
  { name := if (c.part "id").isNode then (c.part "id").word? "name" else some "<anonymous>"
    module, file
    bases := if (c.part "superClass").isNode then [(c.part "superClass").word? "name"] else []
    defined := methods.map fun m =>
      ((m.part "key").word? "name", ((m.part "value").part "body").chain loopKinds) }

/-- Different names in order.  Named and nameless methods cannot be put in one order. -/
def orderedNames (names : List (Option String)) : Except Fault (List Value) :=
  let texts := Text.sorted (Text.unique (names.filterMap id))
  if names.any (·.isNone) then
    if texts.isEmpty then .ok [.null]
    else .error (.wrongType "'<' not supported between instances of 'NoneType' and 'str'")
  else .ok (texts.map .text)

def ClassRecord.toValue (c : ClassRecord) : Except Fault Value := do
  let names := c.defined.map (·.1)
  .ok (.object [
    ("name", .textOrNull c.name),
    ("bases", .list (c.bases.map .textOrNull)),
    ("methods", .list (← orderedNames names)),
    ("has_constructor", names.contains (some "constructor")),
    ("special_methods", .list []),
    ("private_attrs", .list []),
    ("public_attrs", .list [])])

structure SourceFindings where
  file : Path
  classes : List ClassRecord
  functions : Nat
  arrays : Nat
  objects : Nat
  deriving Repr, DecidableEq

def sourceFindings (root file : Path) (t : Ast) : SourceFindings :=
  let nodes := t.nodes
  let count (kinds : List String) : Nat := (nodes.filter (·.isAny kinds)).length
  { file
    classes := ((t.itemsOf "body").filter (·.kind == "ClassDeclaration")).map
      (classRecord (moduleName root file) file)
    functions := count functionKinds
    arrays := count ["ArrayExpression"]
    objects := count ["ObjectExpression"] }

structure Findings where
  sources : List SourceFindings
  rejected : List Path

def findings (root : Path) (sources : List (Path × Parsed Ast)) : Findings :=
  { sources := sources.filterMap fun (p, s) => s.tree?.map (sourceFindings root p)
    rejected := sources.filterMap fun (p, s) => if s.tree?.isNone then some p else none }

namespace Findings

variable (f : Findings)

def classes : List ClassRecord := f.sources.flatMap (·.classes)

/-- The figures on functions: methods count once as methods and once as function expressions. -/
def loops : Loops :=
  let methods := Loops.ofDepths (f.classes.flatMap fun c => c.defined.map (·.2))
  { methods with functions := methods.functions + (f.sources.map (·.functions)).foldl (· + ·) 0 }

def literals : Fields := [
  ("list_literals", .nat ((f.sources.map (·.arrays)).foldl (· + ·) 0)),
  ("dict_literals", .nat ((f.sources.map (·.objects)).foldl (· + ·) 0)),
  ("set_literals", .nat 0),
  ("tuple_literals", .nat 0),
  ("list_comprehensions", .nat 0),
  ("dict_comprehensions", .nat 0),
  ("set_comprehensions", .nat 0)]

def reports : Except Fault (List Value) :=
  (f.sources.filter fun s => !s.classes.isEmpty).mapM fun s => do
    pure (classReport s.file.text ((s.classes.head?.map (·.module)).getD "")
      (← s.classes.mapM ClassRecord.toValue))

def metrics (count : Nat) : Except Fault Value := do
  let reports ← f.reports
  let m ← aggregate reports count
  withNarrative Narrative.ofClasses
    (((m.set "reports" (.list reports)).set "data_structures" (.object f.literals)).set
      "complexity" f.loops.toValue)

end Findings

end Folio.Code.JavaScript

/-
# Code.Java -- classes in Java sources

Every class at the top of a source is reported.  The loops of its methods and constructors are measured, and imports and
created objects hint at the data structures in use.
-/
import Folio.Code.Tree
import Folio.Code.Report

namespace Folio.Code.Java

def loopKinds : List String := ["ForStatement", "WhileStatement", "DoStatement"]

/-- How deep loops lie in one another below a node. -/
def loopDepth (a : Ast) : Nat := a.withoutInnerLists.chainBelow loopKinds

def specialNames : List String := ["toString", "equals", "hashCode", "compareTo"]

def thisAssigned (a : Ast) : List String :=
  (a.nodes.filter (·.kind == "Assignment")).filterMap fun n =>
    let target := n.part "expressionl"
    if target.kind == "MemberReference" && target.wordOf "qualifier" == "this"
      && target.wordOf "member" != "" then some (target.wordOf "member")
    else none

def asSet (xs : List String) : List String := Text.sorted (Text.unique xs)

def classEntry (file package : String) (c : Ast) : ClassEntry × List Nat :=
  let members (kind : String) : List Ast := (c.itemsOf "body").filter (·.kind == kind)
  let base := c.part "extends"
  let bases := (if base.isNode then [base.wordOf "name"] else [])
    ++ (c.itemsOf "implements").map (·.wordOf "name")
  let declared := (members "FieldDeclaration").flatMap fun f =>
    let hidden := (f.itemsOf "modifiers").any fun m =>
      match m with
      | .word w => w == "private"
      | _ => false
    ((f.itemsOf "declarators").filter (·.kind == "VariableDeclarator")).map fun d =>
      (d.wordOf "name", hidden)
  let methods := members "MethodDeclaration"
  let builders := members "ConstructorDeclaration"
  let functions := methods ++ builders
  let names := methods.map (·.wordOf "name")
  let hidden := (declared.filter (·.2)).map (·.1)
  let visible := (declared.filter (!·.2)).map (·.1) ++ functions.flatMap thisAssigned
  ({ name := c.wordOf "name", module := package, file, bases
     methods := asSet (names ++ builders.map (·.wordOf "name"))
     constructed := !builders.isEmpty
     special := names.filter specialNames.contains
     privateAttrs := asSet hidden
     publicAttrs := asSet (visible.filter (!hidden.contains ·)) },
    functions.map loopDepth)

def rejected (file reason : String) : FileReport :=
  { FileReport.blank file with extras := [("syntax_error", reason)] }

def report (file : String) (tree : Ast) : FileReport :=
  let tree := tree.withoutInnerLists
  let imports := (tree.itemsOf "imports").map (·.wordOf "path")
  let package := (tree.part "package").wordOf "name"
  let classes := ((tree.itemsOf "types").filter (·.kind == "ClassDeclaration")).map
    (classEntry file package)
  let created := (tree.nodes.filter (·.kind == "ClassCreator")).map
    fun n => (n.part "type").wordOf "name"
  let imported (word : String) : Bool := imports.any (Text.contains · word)
  let hint (word type : String) : Value :=
    .nat (if imported word || created.contains type then 1 else 0)
  { file, module := package
    classes := classes.map (·.1)
    imports
    structures := [
      ("list_literals", hint "List" "ArrayList"),
      ("dict_literals", hint "Map" "HashMap"),
      ("set_literals", hint "Set" "HashSet"),
      ("tuple_literals", .nat 0),
      ("list_comprehensions", .nat 0),
      ("dict_comprehensions", .nat 0),
      ("set_comprehensions", .nat 0),
      ("uses_defaultdict", false),
      ("uses_counter", false),
      ("uses_heapq", imported "PriorityQueue" || created.contains "PriorityQueue"),
      ("uses_bisect", false),
      ("uses_sorted", imported "Collections")]
    complexity := some (Loops.ofDepths (classes.flatMap (·.2)))
    parsed := true }

def classInfo (c : ClassEntry) : Value := .object [
  ("name", c.name), ("module", c.module), ("file_path", c.file),
  ("bases", c.bases), ("methods", c.methods), ("has_init", c.constructed),
  ("dunder_methods", c.special.length), ("private_attrs", c.privateAttrs),
  ("public_attrs", c.publicAttrs)]

end Folio.Code.Java

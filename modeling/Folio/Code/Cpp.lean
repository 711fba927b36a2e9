/-
# Code.Cpp -- classes in C++ sources

The tree of a source is searched for classes and structs, their bases, fields and methods, for standard containers and
for features such as templates.  Each field declaration of a class body is noted, and the notes are printed.
-/
import Folio.Value.Quoted
import Folio.Code.Report
import Folio.Code.Tree

namespace Folio.Code.Cpp

open Text

variable (source : String) (t : Tree)

structure Method where
  name : String
  constructs : Bool
  isVirtual : Bool
  overrides : Bool
  destroys : Bool

def Method.note (m : Method) : String := (Value.object [
  ("name", m.name),
  ("is_constructor", m.constructs),
  ("is_virtual", m.isVirtual),
  ("is_override", m.overrides),
  ("is_destructor", m.destroys)]).notated

def declaredName (source : String) : List Tree → String
  | [] => ""
  | c :: cs =>
    if c.kind == "operator_name" then
      "operator" ++ trim (replace (c.textIn source) "operator" "")
    else if c.isAny ["identifier", "field_identifier", "destructor_name"] then c.textIn source
    else if c.kind == "qualified_identifier" then
      (splitOn (c.textIn source) "::").getLast?.getD ""
    else declaredName source cs

def notNames : List String := ["void", "int", "bool", "char", "const", "static"]

/-- The name of a method: that of the first declarator, or the first identifier met on the way. -/
def methodName (source : String) : List Tree → String
  | [] => ""
  | n :: ns =>
    let found :=
      if n.kind == "function_declarator" then declaredName source n.children
      else if n.isAny ["identifier", "field_identifier"] then
        let name := n.textIn source
        if notNames.contains name then "" else name
      else ""
    if found != "" then found else methodName source ns

def method? (source className : String) : Option Method :=
  let name := methodName source t.nodes
  if name == "" then none
  else
    let text := t.textIn source
    some {
      name
      constructs := name == className || name == "~" ++ className
      isVirtual := contains ((splitOn text "(").headD "") "virtual"
      overrides := contains text "override"
      destroys := startsWith name "~" }

structure Body where
  access : String
  methods : List Method := []
  privateFields : List String := []
  publicFields : List String := []
  notes : List String := []

def Body.addMethod (b : Body) (m : Option Method) : Body :=
  { b with methods := b.methods ++ m.toList }

def Body.step (source className : String) (b : Body) (t : Tree) : Body :=
  if t.kind == "access_specifier" then
    { b with access := trimEndChars ":" (t.textIn source) }
  else if t.kind == "field_declaration" then
    let b := { b with notes := b.notes ++ ["Field declaration: " ++ t.textIn source] }
    match (t.child? "field_identifier").map (·.textIn source) with
    | some name =>
      if name != "" then
        if b.access == "private" then { b with privateFields := b.privateFields ++ [name] }
        else { b with publicFields := b.publicFields ++ [name] }
      else asMethod b
    | none => asMethod b
  else if t.isAny ["function_definition", "declaration", "field_declarator"] then
    b.addMethod (method? t source className)
  else b
where
  /-- A field declaration without a field name may declare a method. -/
  asMethod (b : Body) : Body :=
    let m := method? t source className
    let shown := match m with | some m => m.note | none => "None"
    { b.addMethod m with notes := b.notes ++ ["Method info from field_declaration: " ++ shown] }

def accessWords : List String := ["public", "private", "protected"]

def basesIn (clause : Tree) (source : String) : List String :=
  ((clause.nodes.filter (·.isAny ["type_identifier", "template_type"])).map (·.textIn source)).filter
    fun b => b != "" && !accessWords.contains b

def classEntry (source file : String) : ClassEntry × List String :=
  let name := ((t.child? "type_identifier").map (·.textIn source)).getD "<anonymous>"
  let start := if t.kind == "class_specifier" then "private" else "public"
  let lists := t.children.filter (·.kind == "field_declaration_list")
  let body := lists.foldl (fun b l =>
    l.children.foldl (Body.step source name) { b with access := start }) ({ access := start } : Body)
  let named (p : Method → Bool) : List String := (body.methods.filter p).map (·.name)
  ({ name, module := "", file
     bases := (t.children.filter (·.kind == "base_class_clause")).flatMap (basesIn · source)
     methods := named fun _ => true
     constructed := body.methods.any (·.constructs)
     special := named fun m => Tree.isSpecialName m.name
     privateAttrs := body.privateFields
     publicAttrs := body.publicFields
     extras := [
       ("virtual_methods", .texts (named (·.isVirtual))),
       ("override_methods", .texts (named (·.overrides)))] }, body.notes)

def mentions (text : String) (words : List String) : Bool := words.any (contains text)

def containerWords : List (String × List String) := [
  ("arrays", ["std::vector", "std::array"]),
  ("hash_tables", ["std::map", "std::unordered_map", "std::hash_map"]),
  ("linked_lists", ["std::list", "std::forward_list"]),
  ("trees", ["std::set", "std::multiset", "std::tree"]),
  ("stacks", ["std::stack"]),
  ("queues", ["std::queue", "std::priority_queue", "std::deque"])]

def fieldWords : List (String × List String) := [
  ("arrays", ["std::vector", "std::array"]),
  ("hash_tables", ["std::map", "std::unordered_map"]),
  ("linked_lists", ["std::list", "std::forward_list"])]

def structuresOf : List String :=
  let text := t.textIn source
  let first (table : List (String × List String)) : List String :=
    ((table.find? fun w => mentions text w.2).map (·.1)).toList
  match t.kind with
  | "field_declaration" => first fieldWords
  | "template_type" =>
    let found := first containerWords
    if found == ["arrays"] && (contains text "*" || contains (lower text) "ptr") then
      found ++ ["pointer_arrays"]
    else found
  | "new_expression" | "delete_expression" => ["dynamic_memory"]
  | "call_expression" => if mentions text ["malloc(", "free("] then ["dynamic_memory"] else []
  | _ => []

def structureNames : List String :=
  ["arrays", "hash_tables", "linked_lists", "trees", "queues", "stacks", "dynamic_memory",
    "pointer_arrays"]

def countNames (names found : List String) : Fields :=
  names.map fun n => (n, found.count n)

def featuresOf : List String :=
  match t.kind with
  | "template_declaration" =>
    if t.children.any (·.isAny ["class_specifier", "struct_specifier"]) then ["template_classes"]
    else []
  | "namespace_definition" => ["namespaces"]
  | "template_type" =>
    if mentions (t.textIn source) ["unique_ptr", "shared_ptr", "weak_ptr"] then ["smart_pointers"]
    else []
  | "function_definition" =>
    if t.nodes.any (·.kind == "operator_name") then ["operator_overloads"] else []
  | "destructor_name" => ["raii_classes"]
  | _ => []

def abstractName? : Option String :=
  if t.isAny ["class_specifier", "struct_specifier"] then
    let text := t.textIn source
    match (t.child? "type_identifier").map (·.textIn source) with
    | some name =>
      if name != "" && contains text "= 0" && contains text "virtual" then some name
      else none
    | none => none
  else none

def features (nodes : List Tree) : Value :=
  let found := nodes.flatMap (featuresOf source)
  .object (countNames ["template_classes", "namespaces"] found
    ++ [("abstract_classes", .nat (unique (nodes.filterMap (abstractName? source))).length)]
    ++ countNames ["smart_pointers", "raii_classes", "operator_overloads"] found)

def blank (file : String) : FileReport :=
  { FileReport.blank file with extras := [("cpp_spec", .object [])] }

def rejected (file reason : String) : FileReport :=
  { blank file with extras := [("cpp_spec", .object []), ("error", reason)] }

def report (file source : String) (tree : Option Tree) : FileReport × List String :=
  match tree with
  | none => (rejected file "Parse failed: no tree given", [])
  | some root =>
    let nodes := root.nodes
    let includes := nodes.filter fun t => contains "preproc_include" t.kind
    let classes := (nodes.filter (·.isAny ["class_specifier", "struct_specifier"])).map
      (classEntry · source file)
    let functions := nodes.filter (·.kind == "function_definition")
    ({ file, module := ""
       classes := classes.map (·.1)
       imports := includes.map fun t => trim (t.textIn source)
       structures := countNames structureNames (nodes.flatMap (structuresOf source))
       complexity := some (Loops.ofDepths (functions.map Tree.loopDepth))
       parsed := true
       extras := [("cpp_spec", features source nodes)] }, classes.flatMap (·.2))

end Folio.Code.Cpp

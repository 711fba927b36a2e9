/-
# Code.Csharp -- classes in C# sources
-/
import Folio.Code.Report
import Folio.Code.Tree

namespace Folio.Code.Csharp

variable (t : Tree) (source : String)

def privateWords : List String :=
  ["private", "protected", "internal", "protected internal", "private protected"]

/-- The first access word among the modifiers of a member: `true` for a private one. -/
def accessOf? : Option Bool :=
  ((t.children.filter (·.kind == "modifier")).flatMap (·.children)).findSome? fun m =>
    let word := (m.bytesText? source).getD ""
    if privateWords.contains word then some true
    else if word == "public" then some false
    else none

def isPrivate : Bool :=
  (accessOf? t source).getD (t.kind == "field_declaration")

def fieldName? : Option String :=
  let declarators := ((t.children.filter (·.kind == "variable_declaration")).flatMap
    (·.children)).filter (·.kind == "variable_declarator")
  ((declarators.flatMap (·.children)).find? (·.kind == "identifier")).map (·.textIn source)

def firstIdentifier : String :=
  ((t.nodes.find? (·.kind == "identifier")).map (·.textIn source)).getD ""

structure Gain where
  methods : List String := []
  special : List String := []
  privateFields : List String := []
  publicFields : List String := []
  constructs : Bool := false

def memberGain (source className : String) (t : Tree) : Gain :=
  match t.kind with
  | "field_declaration" =>
    match fieldName? t source with
    | some name =>
      if name == "" then {}
      else if isPrivate t source then { privateFields := [name] }
      else { publicFields := [name] }
    | none => {}
  | "method_declaration" =>
    let name := firstIdentifier t source
    if name == "" then {}
    else { methods := [name], special := if Tree.isSpecialName name then [name] else [] }
  | "constructor_declaration" =>
    { methods := [className], special := [className], constructs := true }
  | "destructor_declaration" | "finalizer_declaration" =>
    { methods := ["~" ++ className], special := ["~" ++ className] }
  | "operator_declaration" => { methods := ["operator"], special := [t.textIn source] }
  | _ => {}

def classEntry (source file : String) : ClassEntry :=
  let name := ((t.child? "identifier").map (·.textIn source)).getD "<anonymous>"
  let bases := ((t.children.filter (·.kind == "base_list")).flatMap (·.nodes)).filter
    (·.kind == "identifier")
  let members := (t.children.filter (·.kind == "declaration_list")).flatMap (·.children)
  let gains := members.map (memberGain source name)
  { name, module := "", file
    bases := bases.map (·.textIn source)
    methods := gains.flatMap (·.methods)
    constructed := gains.any (·.constructs)
    special := gains.flatMap (·.special)
    privateAttrs := gains.flatMap (·.privateFields)
    publicAttrs := gains.flatMap (·.publicFields)
    extras := [("virtual_methods", .list []), ("override_methods", .list [])] }

def collectionMarks : List (String × List String) := [
  ("arrays", ["[]", "Array"]), ("lists", ["List<"]), ("dictionaries", ["Dictionary<"]),
  ("queues", ["Queue<"]), ("stacks", ["Stack<"]), ("hash_sets", ["HashSet<"])]

def structures (nodes : List Tree) : Fields :=
  let declared := (nodes.filter (·.isAny ["field_declaration", "property_declaration"])).map
    (·.textIn source)
  (collectionMarks.map fun (name, marks) =>
    (name, Value.nat (declared.countP fun text => marks.any (Text.contains text))))
    ++ [("dynamic_memory", .nat (nodes.countP (·.kind == "object_creation_expression")))]

def rejected (file reason : String) : FileReport :=
  { FileReport.blank file with extras := [("error", reason)] }

def report (file source : String) (tree : Option Tree) : FileReport :=
  match tree with
  | none => rejected file "Parse failed: no tree given"
  | some root =>
    let nodes := root.nodes
    let functions := nodes.filter (·.isAny ["method_declaration", "constructor_declaration"])
    { file, module := ""
      classes := (nodes.filter (·.isAny ["class_declaration", "struct_declaration"])).map
        (classEntry · source file)
      imports := (nodes.filter (·.kind == "using_directive")).map fun t =>
        Text.trim (t.textIn source)
      structures := structures source nodes
      complexity := some (Loops.ofDepths (functions.map Tree.loopDepth))
      parsed := true }

end Folio.Code.Csharp

/-
# Code.Printout -- the figures of a project as a page of text
-/
import Folio.Code.Narrative

namespace Folio.Code

open Narrative Text

namespace Printout

variable (metrics : Value)

def row (label : String) (figure : Value) : String :=
  s!"• {label}" ++ repeated (26 - label.length) " " ++ ": " ++ figure.shown

/-- Lines for the figures that a section has under some labels and keys. -/
def need (section_ : String) (rows : List (String × String)) : Except Fault (List String) :=
  rows.mapM fun (label, key) => do .ok (row label (← (← metrics.field section_).field key))

def seek (section_ fallback : Value) (rows : List (String × String)) : Except Fault (List String) :=
  rows.mapM fun (label, key) => do .ok (row label (← section_.fieldD key fallback))

def rule : String := repeated 60 "-"
def frame : String := repeated 60 "="

def told (narrative : Value) (key heading : String) : Except Fault (List String) := do
  let fields ← (match narrative with
    | .object fs => Except.ok fs
    | .list _ => .ok []
    | .text s => if contains s key then
        .error (.wrongType "string indices must be integers, not 'str'") else .ok []
    | v => .error (.wrongType s!"argument of type '{v.kindName}' is not iterable"))
  match Fields.get? fields key with
  | some v => .ok [s!"\n[{heading}]", v.shown]
  | none => .ok []

def scoreLines : Except Fault (List String) := do
  let score ← metrics.field "score"
  let figure ← score.field "oop_score"
  let rating ← (← score.field "rating").asText "upper"
  let comment ← score.field "comment"
  .ok [s!"• Score   : {figure}", "• Rating  : " ++ upper rating,
    s!"• Comment : {comment}"]

def block (title : String) (lines : List String) : List String := [s!"\n {title}", rule] ++ lines

def structLines : Except Fault (List String) := do
  let head := block "Struct Statistics" (← need metrics "classes" [("Total structs", "count"),
      ("Avg func ptrs per struct", "avg_methods_per_class"), ("Structs with inheritance", "with_inheritance"),
      ("Structs with constructor", "with_init")])
    ++ block "Encapsulation" (← need metrics "encapsulation" [("Opaque pointers", "opaque_pointers")])
    ++ block "Polymorphism" (← need metrics "polymorphism" [("Vtable structs", "vtable_structs")])
    ++ block "Lifecycle Management" (← need metrics "lifecycle" [("Constructor functions", "constructor_functions"),
      ("Destructor functions", "destructor_functions")])
  let ds ← sectionOr metrics "data_structures"
  let structures := block "Data Structures" (← seek ds (.int 0) [("Arrays", "arrays"), ("Hash tables", "hash_tables"),
    ("Dynamic memory allocs", "dynamic_memory")])
  let cx ← sectionOr metrics "complexity"
  let complexity := block "Complexity & Algorithms" ((← seek cx (.int 0) [("Total functions", "total_functions"),
      ("Funcs with nested loops", "functions_with_nested_loops"), ("Max loop depth", "max_loop_depth")])
    ++ (← seek cx false [("Uses qsort()", "uses_qsort"), ("Uses bsearch()", "uses_bsearch")]))
  let score ← scoreLines metrics
  let narrative ← metrics.fieldD "narrative" (.object [])
  .ok (head ++ structures ++ complexity ++ block "OOP-Like Pattern Score" score
    ++ block "Narrative Insights" (← told narrative "oop" "OOP-Like Patterns")
    ++ (← told narrative "data_structures" "Data Structures")
    ++ (← told narrative "complexity" "Complexity")
    ++ [s!"\n{frame}\n"])

def classLines : Except Fault (List String) := do
  let head := [s!"\n{frame}", "        OOP ANALYSIS REPORT", frame,
      "\n Files analyzed: " ++ (← metrics.field "files_analyzed").shown]
    ++ block "Class Statistics" (← need metrics "classes" [("Total classes", "count"),
      ("Avg methods per class", "avg_methods_per_class"), ("Classes using inheritance", "with_inheritance"),
      ("Classes with constructor", "with_init")])
    ++ block "Encapsulation" (← need metrics "encapsulation"
      [("Classes with private attrs", "classes_with_private_attrs")])
    ++ block "Polymorphism" (← need metrics "polymorphism"
      [("Classes overriding methods", "classes_overriding_base_methods"),
      ("Total overridden methods", "override_method_count")])
    ++ block "Special Methods" (← need metrics "special_methods"
      [("Classes w/ multiple dunders", "classes_with_multiple_dunders")])
  let ds ← sectionOr metrics "data_structures"
  let structures := block "Data Structures" ((← seek ds (.int 0) [("List literals", "list_literals"),
      ("Dict literals", "dict_literals"), ("Set literals", "set_literals"), ("Tuple literals", "tuple_literals"),
      ("List comprehensions", "list_comprehensions"), ("Dict comprehensions", "dict_comprehensions"),
      ("Set comprehensions", "set_comprehensions")])
    ++ (← seek ds false [("Uses collections.defaultdict", "uses_defaultdict"),
      ("Uses collections.Counter    ", "uses_counter")]))
  let cx ← sectionOr metrics "complexity"
  let complexity := block " Complexity & Algorithms" ((← seek cx (.int 0) [("Total functions", "total_functions"),
      ("Funcs with nested loops", "functions_with_nested_loops")])
    ++ (← seek cx (.real 0.0) [("Nested loop ratio", "nested_loop_ratio")])
    ++ (← seek cx (.int 0) [("Max loop depth", "max_loop_depth")])
    ++ (← seek cx false [("Uses sorted()", "uses_sorted"), ("Uses heapq", "uses_heapq"),
      ("Uses bisect", "uses_bisect")]))
  let score ← scoreLines metrics
  let errors ← metrics.field "syntax_errors"
  let errorLines ←
    if errors.truthy then do
      pure (block "Syntax Errors" ((← errors.elements).map fun e => s!"• {e}"))
    else pure ["\n No syntax errors found"]
  let narrative ← metrics.fieldD "narrative" (.object [])
  .ok (head ++ structures ++ complexity ++ block "OOP Score" score ++ errorLines
    ++ block "Narrative Insights" (← told narrative "oop" "OOP")
    ++ (← told narrative "data_structures" "Data Structures")
    ++ (← told narrative "complexity" "Complexity & Algorithms")
    ++ [s!"\n{frame}\n"])

def page : Except Fault String := do
  let language ← metrics.fieldD "language" "Python"
  let lines ← if language.same "C" then structLines metrics else classLines metrics
  .ok (String.join (lines.map (· ++ "\n")))

end Printout

end Folio.Code

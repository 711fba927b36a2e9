/-
# Code.Facts -- what project-wide figures need from a report

Reports come as documents, from this library or from elsewhere.  A counter that is missing counts as zero; one that is
no number is a fault.  A report may name its language.  Otherwise a section that only one analysis writes decides, and
after that the suffix of the file.  What stays unknown is counted with Python.
-/
import Folio.Value.Order

namespace Folio.Code

open Text

variable (v : Value) (report : Value) (key : String) (classes : List ClassFacts)

/-! ## The language of a report -/

namespace Language

def suffixes : List (String × String) := [
  (".py", "Python"), (".java", "Java"), (".js", "JavaScript"), (".jsx", "JavaScript"),
  (".mjs", "JavaScript"), (".c", "C"), (".cpp", "C++"), (".cc", "C++"), (".cxx", "C++"),
  (".hpp", "C++"), (".hh", "C++"), (".hxx", "C++"), (".cs", "C#"), (".h", "C")]

def unknown : String := "Unknown"

def ofFile (file : String) : String :=
  match suffixes.find? fun s => endsWith (lower file) s.1 with
  | some s => s.2
  | none => unknown

def ofReport (report : Value) : Except Fault String := do
  let named ← report.fieldD "language" .null
  if named.truthy then .ok named.shown
  else if (report.get? "c_spec").isSome then .ok "C"
  else if (report.get? "cpp_spec").isSome then .ok "C++"
  else
    let file := ((report.get? "file").getD "").orElse
      ((report.get? "file_path").getD "")
    .ok (ofFile (← file.asText "lower"))

def ofReports (reports : List Value) : Except Fault String := do
  let found := (← reports.mapM ofReport).filter (· != unknown)
  match unique found with
  | [] => .ok "Python"
  | [one] => .ok one
  | _ => .ok "Multi"

/-- The reports by language, in the order of first appearance; unknown ones follow Python's. -/
def groups (reports : List Value) : Except Fault (List (String × List Value)) := do
  let tagged ← reports.mapM fun r => do pure (← ofReport r, r)
  let adrift := (tagged.filter (·.1 == unknown)).map fun t => ("Python", t.2)
  let placed := tagged.filter (·.1 != unknown) ++ adrift
  .ok ((unique (placed.map (·.1))).map fun l => (l, (placed.filter (·.1 == l)).map (·.2)))

end Language

/-! ## Classes and counters -/

structure ClassFacts where
  name : String
  bases : List String
  methods : List String
  constructed : Bool
  special : Nat
  hides : Bool
  table : Bool
  deriving Repr, DecidableEq

def label : Except Fault String :=
  match v with
  | .text s => .ok s
  | .list _ => .error (.wrongType "unhashable type: 'list'")
  | .object _ => .error (.wrongType "unhashable type: 'dict'")
  | v => .ok ("\x00" ++ v.notated)

def classFields : Except Fault Value := Value.object <$> v.toFields

def listField : Value := (v.get? key).getD (.list [])

def flag : Bool := (v.getOrNull key).truthy

def ClassFacts.ofValue : Except Fault ClassFacts := do
  let c ← classFields v
  let methods ← (← (listField c "methods").elements).mapM label
  let special ← (listField c "special_methods").size
  let name ← label ((c.get? "name").getD "<anon>")
  let bases ← (← (listField c "bases").elements).mapM label
  .ok { name, bases, methods, special
        constructed := flag c "has_constructor" || flag c "has_init"
        hides := flag c "private_attrs"
        table := flag c "is_vtable" }

def classesOf : Except Fault (List ClassFacts) := do
  let entries ← (← report.fieldD "classes" (.list [])).elements
  entries.mapM ClassFacts.ofValue

def counter (section_ : Value) (key : String) : Except Fault Number := do
  (← section_.fieldD key (.int 0)).asNumber

def sectionOf : Except Fault Value := do
  .ok ((← report.fieldD key .null).orElse (.object []))

structure LoopCounts where
  functions : Number
  nested : Number
  depth : Number

def LoopCounts.ofReport : Except Fault LoopCounts := do
  let cx ← sectionOf report "complexity"
  .ok ⟨← counter cx "total_functions", ← counter cx "functions_with_nested_loops",
    ← counter cx "max_loop_depth"⟩

def LoopCounts.total (ls : List LoopCounts) : LoopCounts :=
  ⟨.sum (ls.map (·.functions)), .sum (ls.map (·.nested)), (ls.map (·.depth)).foldl Number.max 0⟩

structure ClassTotals where
  count : Nat
  methods : Nat
  inheriting : Nat
  constructed : Nat
  rich : Nat
  encapsulated : Nat
  tables : Nat
  overriding : Nat
  overridden : Nat
  deriving Repr, DecidableEq

def trivialBases : List String := ["object", "<expr>", ""]

def ClassFacts.inherits (c : ClassFacts) : Bool :=
  match c.bases with
  | [] => false
  | [b] => !trivialBases.contains b
  | _ => true

def methodsNamed (name : String) : List String :=
  (classes.filter fun c => c.name == name).flatMap (·.methods)

def overrides (c : ClassFacts) : List String :=
  (unique c.methods).filter fun m =>
    c.bases.any fun b => (methodsNamed classes b).contains m

def ClassTotals.of : ClassTotals :=
  let overridden := classes.map fun c => (overrides classes c).length
  { count := classes.length
    methods := (classes.map fun c => (unique c.methods).length).foldl (· + ·) 0
    inheriting := classes.countP (·.inherits)
    constructed := classes.countP (·.constructed)
    rich := classes.countP fun c => c.special ≥ 2
    encapsulated := classes.countP (·.hides)
    tables := classes.countP (·.table)
    overriding := overridden.countP (· > 0)
    overridden := overridden.foldl (· + ·) 0 }

end Folio.Code

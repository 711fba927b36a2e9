/-
# Code.Metrics -- the figures of a project

All reports of a language are drawn together into counters, a score with its rating, and a narrative.  Languages with
classes and languages whose structs stand in for classes are scored by different ratios.
-/
import Folio.Code.Facts
import Folio.Code.Narrative

namespace Folio.Code

open Code LoopCounts Narrative

variable (reports : List Value) (totalFiles : Value)

def rounded (x : Float) : Value := .real (Decimal.roundTo 2 x)

def LoopCounts.ratio (l : LoopCounts) : Except Fault Float :=
  if Number.lt 0 l.functions then l.nested.div l.functions else .ok 0.0

def LoopCounts.toValue (l : LoopCounts) (ratio : Float) (more : Fields) : Value := .object ([
  ("total_functions", .ofNumber l.functions),
  ("functions_with_nested_loops", .ofNumber l.nested),
  ("nested_loop_ratio", rounded ratio),
  ("max_loop_depth", .ofNumber l.depth)] ++ more)

def ClassTotals.toValue (t : ClassTotals) : Value := .object [
  ("count", t.count),
  ("avg_methods_per_class", rounded (ratio t.methods t.count)),
  ("with_inheritance", t.inheriting),
  ("with_init", t.constructed)]

def scoreValue (wording : Wording) (classes : Nat) (score : Float) : Value :=
  let (rating, comment) := wording.verdict (classes != 0) score
  .object [("oop_score", rounded score), ("rating", rating), ("comment", comment)]

def sums (sections : List Value) (keys : List String) : Except Fault Fields :=
  keys.mapM fun key => do
    .ok (key, .ofNumber (.sum (← sections.mapM fun s => counter s key)))

def fileCount (given : Value) : Value :=
  if given.isNull then .nat reports.length else given

def withNarrative (tell : Value → Except Fault Narrative) (metrics : Value) : Except Fault Value := do
  .ok (metrics.set "narrative" (← tell metrics).toValue)

/-- The counters of literals in a report: source section, name there, name in the figures. -/
def literalNames : List (String × String × String) := [
  ("counts", "list", "list_literals"), ("counts", "dict", "dict_literals"),
  ("counts", "set", "set_literals"), ("counts", "tuple", "tuple_literals"),
  ("comprehensions", "list", "list_comprehensions"),
  ("comprehensions", "dict", "dict_comprehensions"),
  ("comprehensions", "set", "set_comprehensions")]

def literalSections (ds : Value) : Except Fault (Value × Value) := do
  let counts ← ds.fieldD "counts" .null
  let comps ← ds.fieldD "comprehensions" .null
  .ok (if counts.isObject then counts else .object [], comps.orElse (.object []))

def literalSums (sections : List (Value × Value)) : Except Fault Fields :=
  literalNames.mapM fun (source, key, name) => do
    let xs ← sections.mapM fun l => counter (if source == "counts" then l.1 else l.2) key
    .ok (name, .ofNumber (.sum xs))

/-- The score of classes, for any reading of the quotients of counts. -/
def scoreOf {α : Type} [Add α] [Mul α] [Div α] [LT α] [DecidableLT α] [OfNat α 0] [OfNat α 1] [OfScientific α]
    (ratio : Nat → Nat → α) (t : ClassTotals) : α :=
  let richness := lesser (ratio t.methods t.count / 5.0) 1.0
  clamp (weigh [(0.25, richness), (0.20, ratio t.inheriting t.count),
    (0.25, ratio t.encapsulated t.count), (0.25, ratio t.overriding t.inheriting),
    (0.05, ratio t.rich t.count)])

def classScore : ClassTotals → Float := scoreOf ratio

structure ClassTally where
  totals : ClassTotals
  literals : Fields
  uses : String → Bool
  loops : LoopCounts

def ClassTally.of : Except Fault ClassTally := do
  let totals := ClassTotals.of (← reports.mapM classesOf).flatten
  let sections ← reports.mapM fun r => sectionOf r "data_structures"
  let literals ← literalSums (← sections.mapM literalSections)
  let loops := total (← reports.mapM ofReport)
  .ok { totals, literals, loops, uses := fun key => sections.any fun s => flag s key }

def ClassTally.figures (t : ClassTally) (files : Value) (ratio : Float) : Value := .object [
  ("files_analyzed", files),
  ("classes", t.totals.toValue),
  ("encapsulation", .object [("classes_with_private_attrs", t.totals.encapsulated)]),
  ("polymorphism", .object [
    ("classes_overriding_base_methods", .nat t.totals.overriding),
    ("override_method_count", .nat t.totals.overridden)]),
  ("special_methods", .object [("classes_with_multiple_dunders", .nat t.totals.rich)]),
  ("data_structures", .object (t.literals ++ [
    ("uses_defaultdict", .bool (t.uses "uses_defaultdict_like")),
    ("uses_counter", .bool (t.uses "uses_counter_like"))])),
  ("complexity", t.loops.toValue ratio [
    ("uses_sorted", .bool (t.uses "uses_sorted")),
    ("uses_heapq", t.uses "uses_priority_queue"),
    ("uses_bisect", false)]),
  ("score", scoreValue .classes t.totals.count (classScore t.totals)),
  ("syntax_errors", .list [])]

def classMetrics : Except Fault Value := do
  let t ← ClassTally.of reports
  withNarrative ofClasses (t.figures (fileCount reports totalFiles) (← t.loops.ratio))

def containerNames : List String :=
  ["arrays", "hash_tables", "linked_lists", "trees", "queues", "stacks", "dynamic_memory",
    "pointer_arrays"]

def structNames : List String :=
  ["opaque_pointers", "vtable_structs", "constructor_functions", "destructor_functions"]

/-- At most one, as a share of something that counts as one when it is nothing. -/
def share (a b : Number) : Except Fault Float := do
  .ok (lesser (← a.div (Number.max b 1)) 1.0)

structure StructTally where
  totals : ClassTotals
  containers : Fields
  uses : String → Bool
  own : Fields
  loops : LoopCounts

def StructTally.of : Except Fault StructTally := do
  let totals := ClassTotals.of (← reports.mapM classesOf).flatten
  let sections ← reports.mapM fun r => sectionOf r "data_structures"
  let containers ← sums sections containerNames
  let own ← sums (← reports.mapM fun r => sectionOf r "c_spec") structNames
  let loops := total (← reports.mapM ofReport)
  .ok { totals, containers, own, loops, uses := fun key => sections.any fun s => flag s key }

namespace StructTally

variable (t : StructTally)

def ownFigure (key : String) : Value := (t.own.get? key).getD (.int 0)

def ownNumber (key : String) : Number := ((t.ownFigure key).number?).getD 0

/-- The score of structs: hidden layouts and tables of operations stand for encapsulation and
polymorphism, and functions that create and destroy for the life of objects. -/
def score : Except Fault Float := do
  let count : Number := .int t.totals.count
  let hidden ← share (t.ownNumber "opaque_pointers") count
  let tables ← share (.int t.totals.tables) count
  let lifecycle ← share
    (t.ownNumber "constructor_functions" + t.ownNumber "destructor_functions") t.loops.functions
  let richness := lesser (ratio t.totals.methods t.totals.count / 5.0) 1.0
  .ok (clamp (weigh [(0.20, richness), (0.20, ratio t.totals.inheriting t.totals.count),
    (0.25, hidden), (0.25, tables), (0.10, lifecycle)]))

def tools : Fields := [
  ("uses_qsort", t.uses "uses_qsort"),
  ("uses_bsearch", t.uses "uses_bsearch")]

def figures (files : Value) (ratio score : Float) : Value := .object [
  ("language", "C"),
  ("files_analyzed", files),
  ("classes", t.totals.toValue),
  ("encapsulation", .object [
    ("classes_with_private_attrs", .nat 0),
    ("opaque_pointers", t.ownFigure "opaque_pointers")]),
  ("polymorphism", .object [
    ("classes_overriding_base_methods", t.totals.overriding),
    ("override_method_count", t.totals.overridden),
    ("vtable_structs", t.ownFigure "vtable_structs")]),
  ("special_methods", .object [("classes_with_multiple_dunders", .nat 0)]),
  ("lifecycle", .object [
    ("constructor_functions", t.ownFigure "constructor_functions"),
    ("destructor_functions", t.ownFigure "destructor_functions")]),
  ("data_structures", .object (t.containers ++ t.tools)),
  ("complexity", t.loops.toValue ratio t.tools),
  ("score", scoreValue .structs t.totals.count score),
  ("syntax_errors", .list [])]

end StructTally

def structMetrics : Except Fault Value := do
  let t ← StructTally.of reports
  let ratio ← t.loops.ratio
  withNarrative ofStructs (t.figures (fileCount reports totalFiles) ratio (← t.score))

def cppNames : List String :=
  ["template_classes", "namespaces", "abstract_classes", "smart_pointers", "raii_classes",
    "operator_overloads"]

def cppMetrics : Except Fault Value := do
  let base ← structMetrics reports totalFiles
  let own ← sums (← reports.mapM fun r => sectionOf r "cpp_spec") cppNames
  withNarrative ofCpp ((base.set "language" "C++").set "cpp_spec" (.object own))

def csharpMetrics : Except Fault Value := do
  let base ← classMetrics reports totalFiles
  withNarrative ofCsharp (base.set "language" "C#")

def metricsOf (language : String) : List Value → Value → Except Fault Value :=
  match language with
  | "C" => structMetrics
  | "C++" => cppMetrics
  | "C#" => csharpMetrics
  | _ => classMetrics

end Folio.Code

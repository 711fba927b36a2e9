/-
# Code.Combine -- the figures of several languages as one

Counters add up, flags are joined, the greatest depth is kept, and the score is the average of the
languages' scores weighted by their numbers of files.
-/
import Folio.Code.Metrics

namespace Folio.Code

variable (metrics : Value) (all : List Value)

def deepCounter (section_ key : String) : Except Fault Number := do
  counter (← metrics.fieldD section_ (.object [])) key

def sumOf (section_ key : String) : Except Fault Value := do
  .ok (.ofNumber (.sum (← all.mapM fun m => deepCounter m section_ key)))

def joinValue (old : Option Value) : Value → Option Value
  | .bool b => some ((old.getD false).orElse b)
  | v =>
    match v.number? with
    | some n => some (.ofNumber (((old.bind Value.number?).getD 0) + n))
    | none => old

def joinField (into : Fields) (f : String × Value) : Fields :=
  match joinValue (into.get? f.1) f.2 with
  | some v => into.set f.1 v
  | none => into

def loopNames : List String :=
  ["total_functions", "functions_with_nested_loops", "max_loop_depth", "nested_loop_ratio"]

def isTool (name : String) : Bool := !loopNames.contains name

def scoreShare : Except Fault (Option (Number × Number)) := do
  let weight := ((metrics.get? "files_analyzed").getD (.int 0)).orElse (.int 0)
  if !weight.truthy then .ok none
  else
    let w ← weight.asNumber
    let score ← deepCounter metrics "score" "oop_score"
    .ok (some (w, w * score))

structure Joint where
  count : Number
  methods : List Number
  inheriting : Value
  constructed : Value
  encapsulated : Value
  overriding : Value
  overridden : Value
  rich : Value
  structures : Fields
  loops : LoopCounts
  tools : Fields
  errors : List Value
  shares : List (Number × Number)

def LoopCounts.ofMetrics : Except Fault LoopCounts := do
  .ok ⟨← deepCounter metrics "complexity" "total_functions",
    ← deepCounter metrics "complexity" "functions_with_nested_loops",
    ← deepCounter metrics "complexity" "max_loop_depth"⟩

def joinSections (section_ : String) (wanted : String → Bool) : Except Fault Fields := do
  let sections ← all.mapM fun m => do (← m.fieldD section_ (.object [])).asObject "items"
  .ok ((sections.flatten.filter fun f => wanted f.1).foldl joinField [])

def joinedFiles (totalFiles : Value) : Except Fault Value :=
  if totalFiles.isNull then do
    .ok (.ofNumber (.sum (← all.mapM fun m => counter m "files_analyzed")))
  else .ok totalFiles

def methodsOf : Except Fault Number := do
  .ok ((← deepCounter metrics "classes" "avg_methods_per_class")
    * (← deepCounter metrics "classes" "count"))

def Joint.of : Except Fault Joint := do
  let count ← all.mapM fun m => deepCounter m "classes" "count"
  let methods ← all.mapM methodsOf
  let inheriting ← sumOf all "classes" "with_inheritance"
  let constructed ← sumOf all "classes" "with_init"
  let encapsulated ← sumOf all "encapsulation" "classes_with_private_attrs"
  let overriding ← sumOf all "polymorphism" "classes_overriding_base_methods"
  let overridden ← sumOf all "polymorphism" "override_method_count"
  let rich ← sumOf all "special_methods" "classes_with_multiple_dunders"
  let structures ← joinSections all "data_structures" fun _ => true
  let loops ← all.mapM LoopCounts.ofMetrics
  let tools ← joinSections all "complexity" isTool
  let errors ← all.mapM fun m => do
    (((m.get? "syntax_errors").getD (.list [])).orElse (.list [])).elements
  let shares ← all.mapM scoreShare
  .ok { count := .sum count, methods, inheriting, constructed, encapsulated
        overriding, overridden, rich, structures, loops := LoopCounts.total loops, tools
        errors := errors.flatten, shares := shares.filterMap id }

namespace Joint

def average (j : Joint) : Except Fault Float :=
  if j.count.isZero then .ok 0.0 else (j.methods.foldl (· + ·) (Number.real 0.0)).div j.count

def ratio (j : Joint) : Except Fault Float :=
  if j.loops.functions.isZero then .ok 0.0 else j.loops.nested.div j.loops.functions

def score (j : Joint) : Except Fault Float := do
  let weight := (j.shares.map (·.1)).foldl (· + ·) (Number.real 0.0)
  let weighted := (j.shares.map (·.2)).foldl (· + ·) (Number.real 0.0)
  let score ← if weight.isZero then pure 0.0 else weighted.div weight
  .ok (clamp score)

def figures (j : Joint) (languages : Fields) (files : Value) (average ratio score : Float) : Value :=
  let (rating, comment) := Wording.classes.verdict (!j.count.isZero) score
  .object [
    ("language", "Multi"),
    ("files_analyzed", files),
    ("languages", .object languages),
    ("classes", .object [
      ("count", .ofNumber j.count),
      ("avg_methods_per_class", rounded average),
      ("with_inheritance", j.inheriting),
      ("with_init", j.constructed)]),
    ("encapsulation", .object [("classes_with_private_attrs", j.encapsulated)]),
    ("polymorphism", .object [
      ("classes_overriding_base_methods", j.overriding),
      ("override_method_count", j.overridden)]),
    ("special_methods", .object [("classes_with_multiple_dunders", j.rich)]),
    ("data_structures", .object j.structures),
    ("complexity", j.loops.toValue ratio j.tools),
    ("score", .object [
      ("oop_score", rounded score), ("rating", rating), ("comment", comment)]),
    ("syntax_errors", .list j.errors)]

end Joint

def combine (languages : Fields) (totalFiles : Value) : Except Fault Value := do
  let files ← joinedFiles (languages.map (·.2)) totalFiles
  let j ← Joint.of (languages.map (·.2))
  let average ← j.average
  let ratio ← j.ratio
  let score ← j.score
  withNarrative Narrative.ofLanguages (j.figures languages files average ratio score)

def groupMetrics (g : String × List Value) : Except Fault (String × Value) := do
  let metrics ← metricsOf g.1 g.2 g.2.length
  .ok (g.1, metrics.set "language" g.1)

def mixedMetrics (reports : List Value) (totalFiles : Value) : Except Fault Value := do
  let languages ← (← Language.groups reports).mapM groupMetrics
  combine languages totalFiles

def labelled (language : String) (metrics : Value) : Value :=
  if (metrics.get? "language").isSome then metrics else metrics.set "language" language

def aggregate (reports : List Value) (totalFiles : Value) : Except Fault Value := do
  if reports.isEmpty then classMetrics reports totalFiles
  else
    match ← Language.groups reports with
    | [(language, rs)] => .ok (labelled language (← metricsOf language rs totalFiles))
    | _ => mixedMetrics reports totalFiles

end Folio.Code

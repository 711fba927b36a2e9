/-
# Code.Narrative -- figures told in sentences

A figure that a paragraph needs and that is not there is a fault, and one that it merely looks for counts as zero.
-/
import Folio.Value.Quoted
import Folio.Code.Score

namespace Folio.Code

open Text

structure Narrative where
  objects : String
  structures : String
  complexity : String
  deriving Repr, DecidableEq

namespace Narrative

variable (metrics : Value) (v : Value)

def toValue (n : Narrative) : Value := .object [
  ("oop", n.objects),
  ("data_structures", n.structures),
  ("complexity", n.complexity)]

def paragraph (sentences : List String) : String := join " " sentences

def figure (section_ : Value) (key : String) : Except Fault Value :=
  section_.fieldD key (.int 0)

def sectionOr (key : String) : Except Fault Value :=
  metrics.fieldD key (.object [])

def positive : Except Fault Bool := do
  match v.number? with
  | some n => .ok (Number.lt 0 n)
  | none => .error (.wrongType s!"'>' not supported between instances of '{v.kindName}' and 'int'")

def isZero : Bool := v.same (.int 0)

def plus (a b : Value) : Except Fault Value :=
  match a, b with
  | .text s, .text t => .ok (s ++ t)
  | .list xs, .list ys => .ok (.list (xs ++ ys))
  | a, b => do .ok (.ofNumber ((← a.asNumber) + (← b.asNumber)))

def total : List Value → Except Fault Value
  | [] => .ok (.int 0)
  | x :: xs => xs.foldlM plus x

def twoPlaces : Except Fault String :=
  match v.number? with
  | some n => .ok (n.fixed 2)
  | none =>
    match v with
    | .text _ => .error (.met .badValue "Unknown format code 'f' for object of type 'str'")
    | v => .error (.wrongType s!"unsupported format string passed to {v.kindName}.__format__")

def bandOf (score : Value) : Except Fault Band := do
  match score.number? with
  | some n => .ok (.of n)
  | none => .error (.wrongType s!"'<' not supported between instances of '{score.kindName}' and 'float'")

def closing : Band → String
  | .low => "Overall, the OOP score is low, so this artifact shows only limited use of "
      ++ "object-oriented design beyond basic class or data-holder definitions."
  | .medium => "Overall, the OOP score is moderate, indicating some use of object-oriented ideas "
      ++ "but still with room for deeper abstraction and polymorphism."
  | .high => "The high OOP score indicates strong, deliberate use of object-oriented design in "
      ++ "this artifact."

def classParagraph : Except Fault String := do
  let classes ← metrics.field "classes"
  let encaps ← metrics.field "encapsulation"
  let poly ← metrics.field "polymorphism"
  let special ← metrics.field "special_methods"
  let _ ← sectionOr metrics "data_structures"
  let score ← (← metrics.field "score").field "oop_score"
  let count ← classes.field "count"
  if isZero count then
    .ok ("No classes were detected in the repository, so the codebase is primarily procedural "
      ++ "and does not demonstrate object-oriented abstraction in this artifact.")
  else
    let average ← classes.field "avg_methods_per_class"
    let inheriting ← classes.field "with_inheritance"
    let built ← classes.field "with_init"
    let hidden ← encaps.field "classes_with_private_attrs"
    let overriding ← poly.field "classes_overriding_base_methods"
    let first := s!"The project defines {count} class(es) with an average of {average} method(s) per class."
    let second :=
      if isZero inheriting then
        "None of the classes use inheritance, so the author is not relying on subclassing "
          ++ "for code reuse or specialization in this codebase."
      else s!"{inheriting} class(es) use inheritance, indicating some use of hierarchical relationships between types."
    let third :=
      if isZero built then
        ["No classes define their own constructors, which suggests limited custom "
          ++ "initialization or stateful objects in this artifact."]
      else []
    let fourth :=
      if isZero hidden then
        "There is no evidence of encapsulation via private attributes, "
          ++ "so information hiding is not a major focus here."
      else s!"Encapsulation is present: {hidden} class(es) use private attributes to hide internal state."
    let fifth ←
      if isZero overriding then
        pure ("None of the classes override methods from their base classes, indicating little "
          ++ "use of polymorphism in this code.")
      else do
        let methods ← poly.field "override_method_count"
        pure (s!"{overriding} class(es) override {methods} inherited method(s), which is direct evidence of "
          ++ "polymorphism.")
    let rich ← special.field "classes_with_multiple_dunders"
    let sixth :=
      if ← positive rich then
        [s!"{rich} class(es) implement multiple special methods, suggesting more expressive class interfaces."]
      else []
    .ok (paragraph ([first, second] ++ third ++ [fourth, fifth] ++ sixth
      ++ [closing (← bandOf score)]))

def collectionParagraph (ds : Value) : Except Fault String := do
  let lists ← figure ds "list_literals"
  let dicts ← figure ds "dict_literals"
  let sets ← figure ds "set_literals"
  let tuples ← figure ds "tuple_literals"
  let listComps ← figure ds "list_comprehensions"
  let dictComps ← figure ds "dict_comprehensions"
  let setComps ← figure ds "set_comprehensions"
  let sum ← total [lists, dicts, sets, tuples]
  if isZero sum then
    .ok ("The analysis did not detect any collection literals, so data structure usage "
      ++ "appears minimal in this artifact.")
  else
    let first := s!"The code uses {sum} collection literal(s): {lists} list(s), {dicts} dict(s), {sets} set(s), and "
      ++ s!"{tuples} tuple(s)."
    let onlyLists ← if ← positive lists then pure (isZero dicts && isZero sets) else pure false
    let second ←
      if onlyLists then
        pure ["Lists are used exclusively for collections, which suggests the author primarily "
          ++ "relies on sequential data rather than hash-based lookups or set semantics."]
      else do
        let hashed ← if ← positive dicts then pure true else positive sets
        pure (if hashed then
          ["The presence of dictionaries and/or sets indicates some awareness of using hash "
            ++ "maps or sets when appropriate for key-based access or membership tests."]
          else [])
    let third :=
      if ← positive (← total [listComps, dictComps, setComps]) then
        [s!"The author uses {listComps} list comprehension(s), {dictComps} dict comprehension(s), and {setComps} set "
          ++ "comprehension(s), which shows familiarity with concise, functional-style collection construction."]
      else []
    let helpers :=
      (if (ds.getOrNull "uses_defaultdict").truthy then ["defaultdict-like structures"] else [])
        ++ (if (ds.getOrNull "uses_counter").truthy then ["counter-like structures"] else [])
    let fourth :=
      if helpers.isEmpty then
        "No usage of specialized counting/grouping helpers was detected, so the "
          ++ "code stays with more basic built-in structures rather than specialized helpers."
      else "Use of " ++ join " and " helpers ++ " suggests the author is comfortable "
          ++ "choosing specialized data structures for counting or grouping tasks."
    .ok (paragraph ([first] ++ second ++ third ++ [fourth]))

def loopParagraph (cx : Value) : Except Fault String := do
  let functions ← figure cx "total_functions"
  let nested ← figure cx "functions_with_nested_loops"
  let ratio ← cx.fieldD "nested_loop_ratio" (.real 0.0)
  let depth ← figure cx "max_loop_depth"
  if isZero functions then
    .ok ("No functions were detected for complexity analysis, so we cannot infer much about "
      ++ "algorithmic design from this artifact.")
  else
    let share ← twoPlaces ratio
    let first := s!"The analyzer examined {functions} function(s); {nested} of them contain nested loops (nested loop "
      ++ s!"ratio {share}, max depth {depth})."
    let second ←
      if isZero nested then
        pure ("The absence of nested loops suggests most operations are at most linear in the "
          ++ "size of their inputs, with no obvious O(n²) patterns.")
      else do
        let n ← ratio.asNumber
        pure (if n.le (.real 0.25) then
          "Only a small fraction of functions use nested loops, indicating that potentially "
            ++ "quadratic behavior is limited to a few focused areas."
          else "A substantial fraction of functions use nested loops, which may indicate "
            ++ "performance hot spots or opportunities to reduce quadratic behavior.")
    let tool (key text : String) : List String :=
      if (cx.getOrNull key).truthy then [text] else []
    let tools := tool "uses_sorted" "sorted() / sorting utilities"
      ++ tool "uses_heapq" "priority-queue usage (heap)"
      ++ tool "uses_bisect" "binary-search utilities"
    let third :=
      if tools.isEmpty then
        "No use of sorting/priority-queue/binary-search utilities was detected, so the code does "
          ++ "not rely on more advanced algorithmic utilities in this artifact."
      else "The use of " ++ join ", " tools
          ++ " suggests some awareness of algorithmic tools for more efficient querying or "
          ++ "ordering (e.g., O(n log n) sorting or priority queues)."
    .ok (paragraph [first, second, third])

def ofClasses : Except Fault Narrative := do
  let objects ← classParagraph metrics
  let structures ← collectionParagraph (← sectionOr metrics "data_structures")
  let complexity ← loopParagraph (← sectionOr metrics "complexity")
  .ok ⟨objects, structures, complexity⟩

def structSentences (classes encaps poly lifecycle : Value) : Except Fault (List String) := do
  let count ← classes.field "count"
  if isZero count then
    .ok ["No structs were detected, so the codebase is primarily procedural."]
  else
    let average ← classes.field "avg_methods_per_class"
    let inheriting ← classes.field "with_inheritance"
    let hidden ← encaps.field "opaque_pointers"
    let first := s!"The project defines {count} struct(s) with an average of {average} function pointer(s) per struct."
    let second :=
      if isZero inheriting then
        "No structs use inheritance patterns (base struct as first member)."
      else s!"{inheriting} struct(s) use inheritance via composition."
    let third :=
      if ← positive hidden then
        s!"Encapsulation is present: {hidden} opaque pointer(s) hide implementation details."
      else "No opaque pointers detected, so encapsulation is minimal."
    let tables ← poly.field "vtable_structs"
    let fourth :=
      if ← positive tables then
        s!"{tables} vtable struct(s) provide polymorphic behavior through function pointers."
      else "No vtable patterns detected, indicating limited polymorphism."
    let built ← lifecycle.field "constructor_functions"
    let managed ← if ← positive built then pure true
      else do positive (← lifecycle.field "destructor_functions")
    let fifth ←
      if managed then do
        let destroyed ← lifecycle.field "destructor_functions"
        pure [s!"Lifecycle management: {built} constructor(s) and {destroyed} destructor(s) manage object "
          ++ "creation/cleanup."]
      else pure []
    .ok ([first, second, third, fourth] ++ fifth)

def storageSentences (ds : Value) : Except Fault (List String) := do
  let arrays ← figure ds "arrays"
  let tables ← figure ds "hash_tables"
  let memory ← figure ds "dynamic_memory"
  if isZero arrays && isZero tables then .ok ["Minimal data structure usage detected."]
  else
    let first := s!"The code uses {arrays} array(s) and {tables} hash table(s)."
    .ok (if ← positive memory then
      [first, s!"Dynamic memory allocation appears {memory} time(s), indicating runtime-sized structures."]
      else [first])

def functionSentences (cx : Value) : Except Fault (List String) := do
  let functions ← figure cx "total_functions"
  let nested ← figure cx "functions_with_nested_loops"
  .ok (if ← positive functions then
    [s!"Analyzed {functions} function(s); {nested} contain nested loops."]
      ++ (if (cx.getOrNull "uses_qsort").truthy then ["Uses qsort() for sorting."] else [])
      ++ (if (cx.getOrNull "uses_bsearch").truthy then ["Uses bsearch() for binary search."]
        else [])
    else [])

def ofStructs : Except Fault Narrative := do
  let classes ← metrics.field "classes"
  let encaps ← metrics.field "encapsulation"
  let poly ← metrics.field "polymorphism"
  let lifecycle ← metrics.field "lifecycle"
  let ds ← sectionOr metrics "data_structures"
  let cx ← sectionOr metrics "complexity"
  let objects ← structSentences classes encaps poly lifecycle
  let structures ← storageSentences ds
  let complexity ← functionSentences cx
  .ok ⟨paragraph objects, paragraph structures, paragraph complexity⟩

def ofCpp : Except Fault Narrative := do
  let classes ← metrics.field "classes"
  let encaps ← metrics.field "encapsulation"
  let poly ← metrics.field "polymorphism"
  let ds ← sectionOr metrics "data_structures"
  let cx ← sectionOr metrics "complexity"
  let count ← classes.field "count"
  let objects ←
    if isZero count then
      pure ["No classes were detected, so the codebase appears primarily procedural."]
    else do
      let average ← classes.field "avg_methods_per_class"
      let inheriting ← classes.field "with_inheritance"
      let hidden ← encaps.field "classes_with_private_attrs"
      let overriding ← poly.field "classes_overriding_base_methods"
      let first := s!"The project defines {count} class(es) with an average of {average} method(s) per class."
      let second :=
        if isZero inheriting then
          "No classes use inheritance, so subclassing is not a primary pattern here."
        else s!"{inheriting} class(es) use inheritance, indicating some hierarchy usage."
      let third :=
        if isZero hidden then "No private attributes were detected, so encapsulation is limited."
        else s!"Encapsulation is present: {hidden} class(es) use private attributes."
      let fourth ←
        if isZero overriding then
          pure "No method overrides were detected, indicating limited polymorphism."
        else do
          let methods ← poly.field "override_method_count"
          pure s!"{overriding} class(es) override {methods} inherited method(s), showing polymorphism."
      pure [first, second, third, fourth]
  let arrays ← figure ds "arrays"
  let tables ← figure ds "hash_tables"
  let lists ← figure ds "linked_lists"
  let trees ← figure ds "trees"
  let queues ← figure ds "queues"
  let stacked ← figure ds "stacks"
  let memory ← figure ds "dynamic_memory"
  let sum ← total [arrays, tables, lists, trees, queues, stacked]
  let structures ←
    if isZero sum then pure ["Minimal container usage detected in the C++ code."]
    else do
      let first := s!"The code uses {sum} container instance(s): {arrays} array/vector-like, {tables} hash table(s), "
        ++ s!"{lists} list(s), {trees} tree/set(s), {queues} queue(s), and {stacked} stack(s)."
      pure (if ← positive memory then
        [first, s!"Dynamic allocation appears {memory} time(s), indicating heap-managed structures."]
        else [first])
  let functions ← figure cx "total_functions"
  let nested ← figure cx "functions_with_nested_loops"
  let depth ← figure cx "max_loop_depth"
  let complexity :=
    if isZero functions then "No functions were detected for complexity analysis."
    else s!"Analyzed {functions} function(s); {nested} contain nested loops (max depth {depth})."
  .ok ⟨paragraph objects, paragraph structures, complexity⟩

def ofCsharp : Except Fault Narrative := do
  let base ← ofClasses metrics
  let ds ← sectionOr metrics "data_structures"
  let arrays ← figure ds "arrays"
  let lists ← figure ds "lists"
  let dictionaries ← figure ds "dictionaries"
  let queues ← figure ds "queues"
  let stacked ← figure ds "stacks"
  let sets ← figure ds "hash_sets"
  let sum ← total [arrays, lists, dictionaries, queues, stacked, sets]
  let structures :=
    if isZero sum then "The analysis did not detect common collection types in this C# artifact."
    else s!"The code uses {sum} collection instance(s): {arrays} array(s), {lists} list(s), {dictionaries} "
      ++ s!"dictionary(ies), {queues} queue(s), {stacked} stack(s), and {sets} hash set(s)."
  .ok { base with structures }

def ofLanguages : Except Fault Narrative := do
  let base ← ofClasses metrics
  let languages := sorted
    (((← metrics.fieldD "languages" .null).orElse (.object [])).fieldsOrEmpty.map (·.1))
  let objects :=
    if languages.isEmpty then base.objects
    else "This report aggregates OOP metrics across " ++ toString languages.length
      ++ " language(s): " ++ join ", " languages ++ ". " ++ base.objects
  let ds ← (← sectionOr metrics "data_structures").asObject "values"
  let sum := Number.sum (ds.filterMap fun f => f.2.number?)
  let structures :=
    if sum.isZero then
      "The analysis did not detect notable data-structure usage across the combined "
        ++ "languages in this artifact."
    else s!"The analysis detected {sum.text} data-structure indicator(s) across the combined languages. See the "
      ++ "per-language breakdown for details."
  .ok ⟨objects, structures, base.complexity⟩

end Narrative

end Folio.Code

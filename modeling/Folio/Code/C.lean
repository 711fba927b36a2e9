/-
# Code.C -- object patterns in C

Structs with function pointers, forward declarations that hide a layout and functions named for creation and destruction
stand in for classes.  The text is searched for these forms by pattern; nothing is parsed.
-/
import Folio.Code.Report

namespace Folio.Code.C

open Pattern Text

def wordGroup (n : Nat) : Pattern := .group n word

/-- `#include <name>`; group 1 is the name. -/
def includePattern : Pattern :=
  let mark (c : Char) : Bool := c == '<' || c == '"'
  let stop (c : Char) : Bool := c == '>' || c == '"'
  sequence [lit "#include", blanks, .char mark, .group 1 (plus (!stop ·)), .char stop]

def bracedBody (n : Nat) : Pattern :=
  sequence [lit "\x7b", .group n (plus (· != '\x7d')), lit "\x7d"]

/-- A struct with a body: tag, body and the name after it. -/
def structPattern : Pattern :=
  sequence [optional (.seq (lit "typedef") gap), lit "struct", gap, optional (wordGroup 1), blanks,
    bracedBody 2, blanks, optional (wordGroup 3)]

def functionPointer : Pattern :=
  sequence [lit "(", blanks, lit "*", blanks, wordGroup 1, blanks, lit ")"]

def nestedStruct : Pattern :=
  sequence [lit "struct", gap, wordGroup 1, gap, wordGroup 2, lit ";"]

def firstMember : Pattern :=
  sequence [atStart, blanks, optional (.seq (lit "struct") gap), wordGroup 1, gap, word, blanks,
    lit ";"]

def primitives : List String := ["int", "char", "float", "double", "long", "short", "void"]

def tableEndings : List String :=
  ["ops", "operations", "vtable", "vtbl", "methods", "funcs", "interface"]

def namesTable (name : String) : Bool :=
  tableEndings.any fun e =>
    (sequence [star notNewline, optional (lit "_"), litFolded e, atTextEnd]).heads name

def creators : List String := ["create", "new", "init", "alloc"]

def destroyers : List String := ["destroy", "free", "delete", "cleanup"]

def playsRole (verbs : List String) (name : String) : Bool :=
  (verbs.any fun v => (sequence [star notNewline, lit ("_" ++ v), atTextEnd]).heads name)
    || verbs.any fun v => startsWith name (v ++ "_")

def hasCreator (lowered name : String) : Bool :=
  let whole (w : String) : Pattern := sequence [wordEdge, lit w, wordEdge]
  (creators.any fun v => (whole (name ++ "_" ++ v)).occurs lowered)
    || creators.any fun v => (whole (v ++ "_" ++ name)).occurs lowered

def specialParts : List String := ["compare", "equals", "hash", "clone", "destroy", "init"]

def baseOf (body : String) : List String :=
  match firstMember.search? (trim body) with
  | some m => if primitives.contains (m.group 1) then [] else [m.group 1]
  | none => []

/-- A struct as a class entry, and whether it is a table of operations. -/
def structEntry (file lowered : String) (m : Match) : ClassEntry × Bool :=
  let tag := m.group 1
  let name := if tag != "" then tag else if m.group 3 != "" then m.group 3 else "anonymous"
  let body := m.group 2
  let methods := (functionPointer.all body).map (·.group 1)
  let nested := (nestedStruct.all body).map fun n => Value.texts [n.group 1, n.group 2]
  let table := namesTable name && methods.length ≥ 2
  let special := methods.filter fun f =>
    specialParts.any fun part => contains (lower f) part
  ({ name := name, module := "N/A", file := file, bases := baseOf body, methods := methods,
     constructed := hasCreator lowered (lower name), special := special,
     privateAttrs := [], publicAttrs := [],
     extras := [("is_vtable", table), ("nested_structs", .list nested)] }, table)

/-- The head of a function definition up to its opening brace; group 3 is the name. -/
def functionHead : Pattern :=
  let typeChar (c : Char) : Bool := isWordChar c || c == '*' || isBlank c
  sequence [atLineStart, blanks, optional (.group 1 gap), .group 2 (.span false 1 none typeChar),
    blanks, wordGroup 3, blanks, lit "(", star (· != ')'), lit ")", blanks, lit "\x7b"]

def notFunctions : List String :=
  ["if", "while", "for", "switch", "return", "sizeof", "struct"]

/-- The text up to the brace that closes the current block; nothing when none does. -/
def blockBody? : (depth : Nat) → (out : List Char) → List Char → Option (List Char)
  | _, _, [] => none
  | depth, out, c :: cs =>
    if c == '\x7b' then blockBody? (depth + 1) (c :: out) cs
    else if c == '\x7d' then
      match depth with
      | 0 => some out.reverse
      | d + 1 => blockBody? d (c :: out) cs
    else blockBody? depth (c :: out) cs

def opensLoop (line : String) : Bool :=
  let head (w : String) : Bool := (sequence [wordEdge, lit w, blanks, lit "("]).heads line
  head "for" || head "while" || startsWith line "do"

def loopStep (state : Nat × Nat) (line : String) : Nat × Nat :=
  let line := trim line
  let current := if opensLoop line then state.1 + 1 else state.1
  (current - count line "\x7d", Nat.max state.2 current)

/-- The greatest nesting of loops in a piece of code, line by line: a line that opens a loop goes
one deeper, and every closing brace one back. -/
def loopDepth (code : String) : Nat := ((splitOn code "\n").foldl loopStep (0, 0)).2

def forwardDeclaration : Pattern :=
  sequence [lit "typedef", gap, lit "struct", gap, wordGroup 1, gap, .again 1, blanks, lit ";"]

def definitionOf (name : String) : Pattern :=
  sequence [lit "struct", gap, lit name, blanks, bracedBody 1]

def pointerType : Pattern :=
  sequence [lit "typedef", gap, lit "struct", gap, word, blanks, lit "*", blanks, word, lit ";"]

/-- Types whose layout the file hides: forward declarations without a definition, and pointer
types. -/
def hiddenTypes (source : String) : Nat :=
  let forward := (forwardDeclaration.all source).map (·.group 1)
  (forward.filter fun name => !(definitionOf name).occurs source).length
    + (pointerType.all source).length

def functions (source : String) : List (String × String) :=
  ((functionHead.all source).filter fun m => !notFunctions.contains (m.group 3)).map fun m =>
    (m.group 3, String.ofList ((blockBody? 0 [] m.stop.after).getD []))

def arrayUse : Pattern :=
  sequence [word, blanks, lit "[", blanks, star isDecimalDigit, blanks, lit "]"]

def callOf (name : String) : Pattern := sequence [wordEdge, lit name, blanks, lit "("]

def report (file source : String) : FileReport :=
  let lowered := lower source
  let includes := (includePattern.all source).map (·.group 1)
  let structs := (structPattern.all source).map (structEntry file lowered)
  let functions := functions source
  let flag (b : Bool) : Value := .nat (if b then 1 else 0)
  let mentions (w : String) : Bool := includes.any fun i => contains (lower i) w
  let withRole (verbs : List String) : Nat :=
    (unique ((functions.map (·.1)).filter fun f => playsRole verbs (lower f))).length
  { file := file
    module := "N/A"
    classes := structs.map (·.1)
    imports := includes
    structures := [
      ("arrays", .nat (arrayUse.all source).length),
      ("hash_tables", flag (mentions "hash")),
      ("linked_lists", .nat 0),
      ("trees", .nat 0),
      ("queues", flag (mentions "queue" || mentions "heap")),
      ("stacks", .nat 0),
      ("uses_qsort", (callOf "qsort").occurs source),
      ("uses_bsearch", (callOf "bsearch").occurs source),
      ("dynamic_memory", .nat (count source "malloc(" + count source "calloc("
        + count source "realloc(")),
      ("pointer_arrays", .nat 0)]
    complexity := some (Loops.ofDepths (functions.map fun f => loopDepth f.2))
    parsed := true
    extras := [
      ("c_spec", .object [
        ("opaque_pointers", hiddenTypes source),
        ("vtable_structs", .nat (structs.filter (·.2)).length),
        ("constructor_functions", withRole creators),
        ("destructor_functions", withRole destroyers)]),
      ("MARKER_NEW_VERSION", true)] }

end Folio.Code.C

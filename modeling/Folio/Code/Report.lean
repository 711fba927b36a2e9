/-
# Code.Report -- what one source file says about its classes

The document form of a report is what the project-wide figures are computed from.
-/
import Folio.Path
import Folio.Value.Basic

namespace Folio.Code

structure Loops where
  functions : Nat
  nested : Nat
  depth : Nat
  deriving Repr, DecidableEq, Inhabited

namespace Loops

def none : Loops := ⟨0, 0, 0⟩

def count (l : Loops) (depth : Nat) : Loops :=
  ⟨l.functions + 1, if depth ≥ 2 then l.nested + 1 else l.nested, Nat.max l.depth depth⟩

def ofDepths (depths : List Nat) : Loops := depths.foldl count none

def toValue (l : Loops) : Value := .object [
  ("total_functions", l.functions),
  ("functions_with_nested_loops", l.nested),
  ("max_loop_depth", l.depth)]

def sectionValue : Option Loops → Value
  | some l => l.toValue
  | .none => .object []

end Loops

/-- A class, or what stands for one in a language without classes. -/
structure ClassEntry where
  name : String
  module : String
  file : String
  bases : List String
  methods : List String
  constructed : Bool
  special : List String
  privateAttrs : List String
  publicAttrs : List String
  extras : Fields := []

def ClassEntry.toValue (c : ClassEntry) : Value := .object ([
  ("name", .text c.name),
  ("module", .text c.module),
  ("file_path", .text c.file),
  ("bases", .texts c.bases),
  ("methods", .texts c.methods),
  ("has_constructor", .bool c.constructed),
  ("special_methods", .texts c.special),
  ("private_attrs", .texts c.privateAttrs),
  ("public_attrs", .texts c.publicAttrs)] ++ c.extras)

structure FileReport where
  file : String
  module : String
  classes : List ClassEntry
  imports : List String
  structures : Fields
  complexity : Option Loops
  parsed : Bool
  extras : Fields := []

namespace FileReport

def toValue (r : FileReport) : Value := .object ([
  ("file", .text r.file),
  ("module", .text r.module),
  ("classes", .list (r.classes.map ClassEntry.toValue)),
  ("imports", .texts r.imports),
  ("data_structures", .object r.structures),
  ("complexity", Loops.sectionValue r.complexity),
  ("syntax_ok", .bool r.parsed)] ++ r.extras)

def blank (file : String) : FileReport := ⟨file, "", [], [], [], none, false, []⟩

end FileReport

/-- The report on a file of a language whose data structures and loops are counted for the whole
project at once: it lists the file's classes only. -/
def classReport (file module : String) (classes : List Value) : Value := .object [
  ("file", file),
  ("module", module),
  ("classes", .list classes),
  ("data_structures", .object []),
  ("complexity", .object []),
  ("syntax_ok", true)]

inductive Parsed (α : Type) where
  | unreadable
  | rejected
  | tree (t : α)

def Parsed.tree? {α : Type} : Parsed α → Option α
  | .tree t => some t
  | _ => none

def moduleName (root file : Path) : String :=
  match file.relativeTo? root with
  | some rel => Text.join "." (rel.withSuffix "").parts
  | none => file.stem

def isAmong (names : List String) (file : Path) : Bool := file.allParts.any names.contains

end Folio.Code

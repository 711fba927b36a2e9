/-
# Code.Handed -- sources that come with their syntax trees

Parsers stand outside this library.  What they made of the sources of a project can be handed over
with the sources, and then serves as if the parsers were at hand.
-/
import Folio.Code.Sources

namespace Folio.Code

structure Handed where
  path : String
  text : String
  /-- The syntax tree as a document; nothing when the parser refused the text. -/
  tree : Value
  complaint : String := ""

namespace Handed

def find? (sources : List Handed) (text : String) : Option Handed := sources.find? (·.text == text)

def ending (tail : String) (sources : List Handed) : List Handed :=
  sources.filter fun s => Text.endsWith s.path tail

def ast? (kindField : String) (s : Handed) : Option Ast :=
  if s.tree.isNull then none else some (.ofValue kindField s.tree)

end Handed

/-- Parsers that know some sources: those with abstract syntax trees, and those with trees of
tokens.  A tree belongs to a text, wherever the text stands. -/
def Parsers.ofHanded (abstracts concretes : List Handed) : Parsers :=
  let python := Handed.ending ".py" abstracts
  let java := Handed.ending ".java" abstracts
  let javascript := Handed.ending ".js" abstracts
  let concrete (text : String) : Option Tree :=
    (Handed.find? concretes text).bind fun s => Tree.ofValue? s.tree
  { python := fun text => (Handed.find? python text).bind (·.ast? "_")
    java := fun text =>
      match Handed.find? java text with
      | none => .error ""
      | some s =>
        match s.ast? "_" with
        | some a => .ok a
        | none => .error s.complaint
    javascript := fun text => (Handed.find? javascript text).bind (·.ast? "type")
    cpp := concrete
    csharp := concrete }

end Folio.Code

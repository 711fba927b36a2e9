/-
# Hierarchy -- a directory tree as a document

The hierarchy lists every entry: directories with their children, files with size, time of last change and author.  What
cannot be looked into is marked by a child with a telling name.
-/
import Folio.Disk

namespace Folio.Hierarchy

variable (d : Disk) (p : Path)

def dirNode (name : String) (children : List Value) : Value := .object [
  ("name", name), ("type", "DIR"), ("children", .list children)]

def marked (mark : String) : Value := dirNode p.name [dirNode mark []]

def typeOf : String :=
  let suffix := Text.trimStartChars "." p.suffix
  if suffix == "" then "FILE" else suffix

def leaf (size : Nat) (modified : Value) (author : String) : Value := .object [
  ("name", p.name),
  ("type", typeOf p),
  ("size", size),
  ("modified", modified),
  ("author", author),
  ("children", .list [])]

def fileLeaf (f : File) : Value :=
  leaf p f.content.size (.moment f.modified) d.owner

def lostLeaf : Value := leaf p 0 .null "Unknown"

mutual

/-- A directory with everything in it.  Links are looked through: `viaLink` goes on with a
directory behind one. -/
def nodeTree (d : Disk) (viaLink : Path → Node → Value) (p : Path) : Node → Value
  | .dir [] => marked p "Empty"
  | .dir (e :: es) => dirNode p.name (entryTrees d viaLink p (e :: es))
  | .file _ => marked p "Not a Directory"
  | .link _ => marked p "Not a Directory"

def entryTrees (d : Disk) (viaLink : Path → Node → Value) (p : Path) : List (String × Node) → List Value
  | [] => []
  | (name, .dir es) :: rest =>
    nodeTree d viaLink (p.entry name) (.dir es) :: entryTrees d viaLink p rest
  | (name, .file f) :: rest => fileLeaf d (p.entry name) f :: entryTrees d viaLink p rest
  | (name, .link _) :: rest =>
    (match d.node (p.entry name) with
      | .ok (.file f) => fileLeaf d (p.entry name) f
      | .ok n => viaLink (p.entry name) n
      | .error _ => lostLeaf (p.entry name)) :: entryTrees d viaLink p rest

end

/-- A directory with everything in it, through at most so many links in a row. -/
def treeThrough (d : Disk) : (links : Nat) → Path → Node → Value
  | 0 => fun p _ => lostLeaf p
  | links + 1 => nodeTree d (treeThrough d links)

def linkLimit : Nat := 40

def tree : Value :=
  match d.node p with
  | .ok n => treeThrough d (linkLimit + 1) p n
  | .error _ => marked p "Not Found"

def ofDirectory : Except Fault Value := do
  if !(← d.exists? p) then throw (.say .noSuchFile s!"Directory not found: {p.text}")
  if !(← d.isDir? p) then throw (.say .badValue s!"Path is not a directory: {p.text}")
  return tree d p

def traversal : Except Fault Value := do
  if !(← d.isDir? p) then
    throw (.say .general "ProjectTraversalModule: File path is not a project directory!")
  return .object [("hierarchy", ← ofDirectory d p)]

/-! ## Printing -/

def line (lead : String) (node : Value) : Except Fault String := do
  let type ← node.field "type"
  let head ←
    match ← node.field "name" with
    | .text s => pure (lead ++ s)
    | v => throw (.wrongType s!"can only concatenate str (not \"{v.kindName}\") to str")
  if type == "DIR" then return s!"{head} [DIR]"
  else
    let size ← node.field "size"
    let modified ← node.field "modified"
    let author ← node.field "author"
    return s!"{head} [{type}] size: {size}B, modified: {modified}, author: {author}"

mutual

/-- The lines of a hierarchy; children are indented, and all but the last one by a bar. -/
def lines (lead : String) : Value → Except Fault (List String)
  | .null => .ok []
  | .object fs => do
    let head ← line lead (.object fs)
    return head :: (← linesOfFields lead fs)
  | v => do return [← line lead v]

def linesOfFields (lead : String) : List (String × Value) → Except Fault (List String)
  | [] => .error (.met .missingKey "'children'")
  | (key, v) :: fs =>
    if key == "children" then
      match v with
      | .list xs => linesOfChildren lead xs
      | v => do
        match ← v.elements with
        | [] => return []
        | x :: _ => return [← line lead x]
    else linesOfFields lead fs

def linesOfChildren (lead : String) : List Value → Except Fault (List String)
  | [] => .ok []
  | x :: xs => do
    let here ← lines (lead ++ (if xs.isEmpty then "    " else "|   ")) x
    return here ++ (← linesOfChildren lead xs)

end

def page (node : Value) : Except Fault String := do
  return String.join ((← lines " " node).map (· ++ "\n"))

end Folio.Hierarchy

/-
# Main -- the figures of a project at the command line

The sources come on standard input, one document a line: the `path` of a file, its `text`, and what
a parser made of it, `ast` for an abstract syntax tree or `tree` for a tree of tokens.  The arguments
are those of the command line.
-/
import Folio.Code.Handed
import Folio.CommandLine

namespace Folio

structure Sent where
  path : String
  text : String
  document : Value

def Sent.ofLine? (line : String) : Option Sent :=
  (Json.parse? line).map fun v =>
    ⟨(v.getOrNull "path").textOrEmpty, (v.getOrNull "text").textOrEmpty, v⟩

def Sent.handed? (key : String) (f : Sent) : Option Code.Handed :=
  (f.document.get? key).map fun tree =>
    ⟨f.path, f.text, tree, (f.document.getOrNull "parse_error").textOrEmpty⟩

def Workspace.ofFiles (files : List Sent) : Workspace :=
  let here := Path.ofString "/project"
  let empty : Disk := ⟨.dir [("project", .empty)], here, "", 0⟩
  let disk := files.foldl (fun d f =>
    let place := here.child f.path
    (do (← d.makeDirs place.parent).write place (.text f.text) default : Except Fault Disk).toOption.getD d)
    empty
  { disk, now := default, issued := 0, printed := "", context := .ofHome here
    services := { parsers := .ofHanded (files.filterMap (·.handed? "ast"))
                    (files.filterMap (·.handed? "tree")) } }

partial def readLines (input : IO.FS.Stream) : IO (List String) := do
  let line ← input.getLine
  if line.isEmpty then return []
  return line :: (← readLines input)

end Folio

def main (args : List String) : IO UInt32 := do
  let files := (← Folio.readLines (← IO.getStdin)).filterMap Folio.Sent.ofLine?
  let (outcome, w) := (Folio.CommandLine.run "folio" args).outcome (Folio.Workspace.ofFiles files)
  IO.print w.printed
  match outcome with
  | .ok status => return status.toUInt32
  | .error fault =>
    IO.eprintln fault.text
    return 1

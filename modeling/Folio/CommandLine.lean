/-
# CommandLine -- the figures of a project from the command line

One argument names the project; `--out` names a file for the figures.  Options may be shortened as
long as they stay clear, and two bars end them.
-/
import Folio.Code.Project
import Folio.Workspace

namespace Folio.CommandLine

open Text

inductive Request where
  | help
  | figures (project : String) (out : Option String)
  deriving Repr, DecidableEq

inductive Token where
  | word (s : String)
  | help
  | out (value : Option String)
  | unknown
  /-- An option that takes no value, with one. -/
  | misused
  deriving Repr, DecidableEq

def isNegativeNumber (s : String) : Bool :=
  match s.toList with
  | '-' :: ds =>
    let whole := ds.takeWhile Char.isDigit
    match ds.drop whole.length with
    | [] => !whole.isEmpty
    | '.' :: frac => !frac.isEmpty && frac.all Char.isDigit
    | _ => false
  | _ => false

def longToken (s : String) : Token :=
  let (name, value) := match splitFirst? s "=" with
    | some (a, b) => (a, some b)
    | none => (s, none)
  let shortens (full : String) : Bool := startsWith full name && name.length > 2
  if shortens "--out" then .out value
  else if shortens "--help" then (if value.isSome then .misused else .help)
  else .unknown

def token (s : String) : Token :=
  if !Text.startsWith s "-" || s == "-" || isNegativeNumber s then .word s
  else if s == "-h" then .help
  else if startsWith s "--" then
    match longToken s with
    | .unknown => if contains s " " then .word s else .unknown
    | t => t
  else if startsWith s "-h" then .misused
  else if contains s " " then .word s
  else .unknown

/-- Read the arguments in order.  `odd` says that one of them was not understood. -/
def parseFrom (words : List String) (out : Option String) (odd : Bool) : List String → Option Request
  | [] =>
    match words, odd with
    | [w], false => some (.figures w out)
    | _, _ => none
  | "--" :: rest =>
    match words ++ rest, odd with
    | [w], false => some (.figures w out)
    | _, _ => none
  | s :: rest =>
    match token s with
    | .word w => parseFrom (words ++ [w]) out odd rest
    | .help => some .help
    | .misused => none
    | .unknown => parseFrom words out true rest
    | .out (some v) => parseFrom words (some v) odd rest
    | .out none =>
      match rest with
      | v :: more =>
        match token v with
        | .word w => parseFrom words (some w) odd more
        | _ => none
      | [] => none

def parse (args : List String) : Option Request := parseFrom [] none false args

def help (program : String) : String := join "\n" [
  "usage: " ++ program ++ " [-h] [--out OUT] project_root",
  "",
  "Analyze Python + Java projects",
  "",
  "positional arguments:",
  "  project_root  Project root folder to analyze",
  "",
  "options:",
  "  -h, --help    show this help message and exit",
  "  --out OUT     Write metrics JSON to this file"]

def run (program : String) (args : List String) : Action Nat := do
  match parse args with
  | none => return 2
  | some .help =>
    Action.print (help program)
    return 0
  | some (.figures project out) =>
    let w ← get
    let (metrics, notes) ← Code.survey w.services.parsers w.disk (Path.ofString project)
    for note in notes do Action.print note
    let text := Json.render .pretty metrics
    Action.print text
    match out with
    | some file => if file != "" then Action.writeText (Path.ofString file) text
    | none => pure ()
    return 0

end Folio.CommandLine

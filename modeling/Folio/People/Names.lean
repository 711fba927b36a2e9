/-
# People.Names -- names of people in texts

A name is one or more capitalised words on a line.  Two names are taken for the same person when
they are equal but for case and blanks, share the last word and the initial of the first, share two
long words, or when one of them is a single word of the other.
-/
import Folio.Disk

namespace Folio.People

open Text

/-! ## Finding names -/

def isCapital (c : Char) : Bool := 'A' ≤ c && c ≤ 'Z'

def isSmall (c : Char) : Bool :=
  ('a' ≤ c && c ≤ 'z') || ('À' ≤ c && c ≤ 'Ö') || ('Ø' ≤ c && c ≤ 'ö') || ('ø' ≤ c && c ≤ 'ÿ')

/-- One word of a name: a capitalised part, more of them, and parts after a hyphen or an
apostrophe. -/
def namePart : Pattern := .sequence [
  .char isCapital, .star isSmall,
  .many true 0 none (.sequence [.char isCapital, .plus isSmall]),
  .many true 0 none (.sequence [.char fun c => c == '\'' || c == '-', .char isCapital,
    .star isSmall])]

def namePattern : Pattern := .sequence [
  .wordEdge, namePart, .many true 0 none (.sequence [.gap, namePart]), .wordEdge]

def headingWords : List String := ["contributors", "contributor", "authors", "author"]

def namesIn (text : String) : List String :=
  let text := replace (replace text "’" "'") "‘" "'"
  let found := (lines text).flatMap fun line => namePattern.texts (trim line)
  let wanted := found.filter fun m => !headingWords.contains (lower m)
  sorted (unique (wanted.map fun m => trim (Pattern.replaceAll .gap " " m)))

def namesInFile (d : Disk) (p : Path) : List String :=
  match d.content p with
  | .ok c => namesIn c.textLenient
  | .error _ => []

def contributorFiles (d : Disk) (root : Path) : List Path :=
  (["CONTRIBUTORS", "AUTHORS", "README.md"].map root.entry).filter d.isFile

def contributorNames (d : Disk) (root : Path) : List String :=
  let names := (contributorFiles d root).flatMap (namesInFile d)
  (uniqueBy (fun n => lower (trim n)) names).map trim

/-! ## Comparing names -/

def normalize (name : String) : String := lower (trim name)

def tokens (name : String) : List String := words (normalize name)

def sharesEnds (ta tb : List String) : Bool :=
  ta.length > 1 && tb.length > 1 && ta.getLast? == tb.getLast?
    && (ta.head?.bind (·.toList.head?)) == (tb.head?.bind (·.toList.head?))

def sharedLong (ta tb : List String) : List String :=
  (unique (ta.filter fun t => t.length > 3)).filter tb.contains

def isWordOf (ta tb : List String) : Bool :=
  match ta with
  | [t] => t.length ≥ 3 && tb.contains t
  | _ => false

def sameName (a b : String) : Bool :=
  let na := normalize a
  let nb := normalize b
  if na == "" || nb == "" then false
  else if na == nb then true
  else
    let ta := tokens na
    let tb := tokens nb
    if ta.isEmpty || tb.isEmpty then false
    else if sharesEnds ta tb then true
    else if (sharedLong ta tb).length ≥ 2 then true
    else if ta.length == 1 && tb.length > 1 then isWordOf ta tb
    else if tb.length == 1 && ta.length > 1 then isWordOf tb ta
    else false

/-! ## One name per person -/

def assign (key value : String) : List (String × String) → List (String × String)
  | [] => [(key, value)]
  | (k, v) :: rest => if k == key then (k, value) :: rest else (k, v) :: assign key value rest

structure Canon where
  owners : List (String × String)
  contributors : List (String × String)
  deriving Repr, DecidableEq

def taken (owners contributors : List String) : List (String × String) :=
  contributors.foldl (fun acc c =>
    match owners.find? (sameName c) with
    | some o => assign o (trim c) acc
    | none => acc) []

/-- Reconcile the owners of files with the contributors: every owner that none of them takes stays. -/
def canonical (owners contributors : List String) : Canon :=
  let owners := (unique owners).filter (· != "")
  let contributors := (unique contributors).filter (· != "")
  let rest := owners.filter fun o => ((taken owners contributors).lookup o).isNone
  { owners := taken owners contributors ++ rest.map fun o => (o, trim o)
    contributors := contributors.map fun c => (c, trim c) }

/-- The name of an author given by name and address.  A contributor of the same name comes first,
then one whose name holds the address' local part, then an owner, then the local part itself. -/
def canonicalAuthor (name email : Option String) (contributors : List String)
    (owners : List (String × String)) : String :=
  let name := name.getD ""
  let email := email.getD ""
  let byName := if name == "" then none else contributors.find? fun c => sameName c name
  match byName with
  | some c => trim c
  | none =>
    if email != "" then
      let local_ := (splitOn email "@").headD ""
      let clean := (splitOn local_ "+").headD ""
      let holds (n s : String) : Bool := contains (normalize n) (lower s)
      match contributors.find? fun c => holds c clean || holds c local_ with
      | some c => trim c
      | none =>
        match owners.find? fun o => sameName o.2 name || holds o.1 clean with
        | some o => o.2
        | none => title (replace (replace clean "." " ") "_" " ")
    else if name != "" then trim name
    else "<unknown>"

end Folio.People

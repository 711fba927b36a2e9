/-
# Document.Triage -- the documents of a project

Every document is new, or a duplicate of one that is known by its fingerprint, or it could not be read.  A new document
is known from then on, and all that is found in it is recorded.
-/
import Folio.Bytes.Sha256
import Folio.Disk
import Folio.Document.Passages

namespace Folio.Document

open Text

/-! ## What is found in one document -/

structure Content where
  text : String
  headings : List String := []
  pages : Option Nat := none
  deriving Repr

def record (path hash suffix : String) (content : Content) : Value :=
  let text := trim content.text
  let headings := content.headings.take 10
  let lowered := lower text
  let title := title text headings
  let venue := venue text
  let kind := kindOf lowered headings
  .object [
    ("path", path),
    ("format", upper (trimStartChars "." suffix)),
    ("sha256", hash),
    ("word_count", wordCount text),
    ("headings", headings),
    ("preview", takeChars 400 (collapsed text)),
    ("metrics", figures text),
    ("dates", dates text),
    ("roles", roles lowered headings),
    ("skills", skills lowered),
    ("doc_type", .object [
      ("label", kind.label),
      ("confidence", kind.confidence),
      ("signals", (unique kind.signals).take 8)]),
    ("topics", topics lowered),
    ("title", title),
    ("summary", summary text headings),
    ("key_points", keyPoints text headings),
    ("authors", authors text title),
    ("venue", venue),
    ("published_year", venueYear venue),
    ("references_count", referenceCount text),
    ("figure_count", figureCount text),
    ("table_count", tableCount text),
    ("page_count", match content.pages with | some n => .nat n | none => .null)]

/-! ## New, known and unreadable -/

structure Candidate where
  path : String
  suffix : String
  hash : Except String String
  content : Except String Content

structure Triage where
  documents : List Value
  duplicates : List Value
  errors : List String
  known : Fields

namespace Triage

def start (known : Fields) : Triage := ⟨[], [], [], known⟩

def step (t : Triage) (c : Candidate) : Triage :=
  match c.hash with
  | .error reason =>
    { t with errors := t.errors ++ ["hash_failed:" ++ c.path ++ ":" ++ reason] }
  | .ok hash =>
    match t.known.get? hash with
    | some before =>
      { t with duplicates := t.duplicates ++ [.object [
          ("path", c.path), ("hash", hash), ("duplicate_of", before)]] }
    | none =>
      match c.content with
      | .error reason =>
        { t with errors := t.errors ++ ["parse_failed:" ++ c.path ++ ":" ++ reason] }
      | .ok content =>
        { t with
          documents := t.documents ++ [record c.path hash c.suffix content]
          known := t.known.set hash c.path }

def run (known : Fields) (cs : List Candidate) : Triage := cs.foldl step (start known)

def tally (labels : List String) : Fields :=
  labels.foldl (fun (acc : Fields) label =>
    acc.set label (labels.count label)) []

def summary (t : Triage) : Value :=
  let words := t.documents.map fun r => (r.getOrNull "word_count").number?.getD 0
  .object [
    ("unique_documents", t.documents.length),
    ("duplicate_documents", t.duplicates.length),
    ("total_words", .ofNumber (.sum words)),
    ("by_format", .object (tally ((t.documents.map fun r =>
      (r.getOrNull "format").textOrEmpty).filter (· != "")))),
    ("by_type", .object (tally ((t.documents.map fun r =>
      ((r.getOrNull "doc_type").getOrNull "label").textOrEmpty).filter (· != ""))))]

def toValue (t : Triage) : Value := .object [
  ("documents", .list t.documents),
  ("duplicates", .list t.duplicates),
  ("summary", t.summary),
  ("hash_index", .object t.known),
  ("errors", t.errors)]

end Triage

/-! ## Reading documents -/

def suffixes : List String := [".docx", ".pdf", ".txt", ".md"]

def plainText (c : Folio.Content) : String := c.text?.getD c.textBytewise

def headingPattern : Pattern :=
  .sequence [.lit "#", .optional (.lit "#"), .optional (.lit "#"), .optional (.lit "#"),
    .optional (.lit "#"), .optional (.lit "#"), .gap, .group 1 (.star Pattern.notNewline),
    .atEnd]

def headings (text : String) : List String :=
  (lines text).filterMap fun line =>
    (headingPattern.matchHead? (trim line)).map fun m => trim (m.group 1)

def ofWordFile (w : WordFile) : Content :=
  let paragraphs := (w.paragraphs.map fun p => (trim p.1, p.2)).filter (·.1 != "")
  let rows := w.tables.flatten.filterMap fun row =>
    let cells := (row.map trim).filter (· != "")
    if cells.isEmpty then none else some (join " | " cells)
  { text := join "\n" (paragraphs.map (·.1) ++ rows)
    headings := (paragraphs.filter fun p => contains (lower p.2) "heading").map (·.1) }

def ofPages (ps : List Page) : Content :=
  { text := join "\n" ((ps.map (·.textOrEmpty)).filter (· != ""))
    pages := some ps.length }

/-- Read a document by its suffix; `paged` says whether page files can be read at all. -/
def read (paged : Bool) (suffix : String) (c : Folio.Content) : Except String Content :=
  match suffix with
  | ".docx" =>
    match c with
    | .word w => .ok (ofWordFile w)
    | _ => .error "File is not a zip file"
  | ".pdf" =>
    if paged then
      match c with
      | .pages ps => .ok (ofPages ps)
      | _ => .ok (ofPages [])
    else .error "pypdf is not installed"
  | ".md" =>
    let text := plainText c
    .ok { text, headings := headings text }
  | _ => .ok { text := plainText c }

def shownPath (root p : Path) : String :=
  match p.relativeTo? root with
  | some rel => rel.text
  | none => p.text

def isDocument (p : Path) : Bool :=
  !Text.startsWith p.name "._" && !p.allParts.contains "__MACOSX" && !p.allParts.contains ".git"
    && suffixes.contains (lower p.suffix)

def candidate (d : Disk) (paged : Bool) (root p : Path) : Candidate :=
  let suffix := lower p.suffix
  let content := (d.content p).mapError (·.text)
  { path := shownPath root p
    suffix
    hash := content.map fun c => Bytes.sha256 c.toBytes
    content := content.bind (read paged suffix) }

/-- Look at the documents of a project: the given files, or all below its root in order. -/
def analyze (d : Disk) (paged : Bool) (root : Path) (files : Option (List Path))
    (known : Fields) : Except Fault Value := do
  let there ← if files.isSome then pure true else d.exists? root
  if !there then
    return .object [
      ("documents", .list []),
      ("duplicates", .list []),
      ("summary", .object [("unique_documents", .nat 0), ("duplicate_documents", .nat 0),
        ("total_words", .nat 0), ("by_format", .object [])]),
      ("hash_index", .object []),
      ("errors", .texts ["Root path not found: " ++ root.text])]
  let paths := files.getD ((d.below root).mergeSort Path.le)
  let wanted := paths.filter fun p => d.isFile p && isDocument p
  return (Triage.run known (wanted.map (candidate d paged root))).toValue

end Folio.Document

/-
# Disk.Node -- directory trees and what files hold

A file holds raw bytes, a text, or one of the few kinds of content that the library works with as a whole.  Every kind
has bytes, from which size and fingerprint follow.

A node is a directory with named entries, a file or a link.  The entries of a directory are kept
in the order of their names, so every listing is in that order.
-/
import Folio.Json.Printer
import Folio.Path
import Folio.Store

namespace Folio

open Bytes Json Text

/-- A word-processor file: paragraphs with their styles, then tables as rows of cells. -/
structure WordFile where
  paragraphs : List (String × String)
  tables : List (List (List String))
  deriving Repr, DecidableEq

inductive Page where
  | text (s : String)
  | blank
  /-- A page whose text cannot be extracted, with the reason. -/
  | unreadable (reason : String)
  deriving Repr, DecidableEq

structure Picture where
  width : Nat
  height : Nat
  mode : String
  format : String
  deriving Repr, DecidableEq

structure ArchiveEntry where
  name : String
  bytes : Bytes
  modified : Moment
  damaged : Bool

/-- An archive; `broken` says that its directory cannot be read. -/
structure Archive where
  entries : List ArchiveEntry
  broken : Bool

inductive Content where
  | bytes (bs : Bytes)
  | text (s : String)
  | document (layout : Json.Layout) (v : Value)
  | word (w : WordFile)
  | pages (ps : List Page)
  | picture (p : Picture)
  | archive (a : Archive)
  | store (s : Store)
  deriving Inhabited

namespace Page

def textOrEmpty : Page → String
  | .text s => s
  | _ => ""

end Page

namespace Picture

def signature (p : Picture) : Bytes :=
  match p.format with
  | "PNG" => [0x89, 0x50, 0x4E, 0x47, 0x0D, 0x0A, 0x1A, 0x0A]
  | "JPEG" => [0xFF, 0xD8, 0xFF]
  | "GIF" => [0x47, 0x49, 0x46, 0x38]
  | "BMP" => [0x42, 0x4D]
  | "WEBP" => [0x52, 0x49, 0x46, 0x46]
  | _ => []

def depth (p : Picture) : Nat :=
  match p.mode with
  | "1" => 1
  | "L" => 8
  | "P" => 8
  | "RGBA" => 32
  | _ => 24

/-- The size of the file: exact for uncompressed pictures, small for the others. -/
def fileSize (p : Picture) : Nat :=
  if p.format == "BMP" then
    let palette := if p.depth ≤ 8 then 4 * Nat.pow 2 p.depth else 0
    54 + palette + (p.width * p.depth + 31) / 32 * 4 * p.height
  else 100

end Picture

namespace Content

def toBytes : Content → Bytes
  | .bytes bs => bs
  | .text s => ofText s
  | .document layout v => ofText (render layout v)
  | .word w => ofText (render .line (.list [
      .list (w.paragraphs.map fun p => .list [p.1, p.2]),
      .list (w.tables.map fun t => .list (t.map .texts))]))
  | .pages ps => ofText ("%PDF-1.4\n" ++ String.join (ps.map fun p => p.textOrEmpty ++ "\x0c"))
  | .picture p => p.signature ++ ofText
      (p.format ++ p.mode ++ toString p.width ++ "x" ++ toString p.height)
  | .store _ => ofText "SQLite format 3\x00"
  | .archive a => [0x50, 0x4B, 3, 4] ++ a.entries.flatMap fun e => ofText e.name ++ e.bytes

def size : Content → Nat
  | .text s => s.utf8ByteSize
  | .picture p => p.fileSize
  | c => c.toBytes.length

/-- The text of a file, when it is UTF-8, line ends as they are. -/
def rawText? : Content → Option String
  | .text s => some s
  | .document layout v => some (render layout v)
  | c => text? c.toBytes

/-- The text of a file, when it is UTF-8, with single line feeds. -/
def text? (c : Content) : Option String := c.rawText?.map withUnifiedLineEnds

def textLenient : Content → String
  | .text s => withUnifiedLineEnds s
  | .document layout v => render layout v
  | c => withUnifiedLineEnds (Bytes.textLenient c.toBytes)

def textBytewise (c : Content) : String := withUnifiedLineEnds (Bytes.textBytewise c.toBytes)

end Content

/-- A file with the time of its last change as people see it, and the number of the write that
made it. -/
structure File where
  content : Content
  modified : Moment
  changed : Nat
  deriving Inhabited

inductive Node where
  | dir (entries : List (String × Node))
  | file (f : File)
  | link (target : String)
  deriving Inhabited

namespace Node

def empty : Node := .dir []

def isDir : Node → Bool
  | .dir _ => true
  | _ => false

def isFile : Node → Bool
  | .file _ => true
  | _ => false

def isLink : Node → Bool
  | .link _ => true
  | _ => false

def entries : Node → List (String × Node)
  | .dir es => es
  | _ => []

def child? (n : Node) (name : String) : Option Node := n.entries.lookup name

def putEntry (name : String) (n : Node) : List (String × Node) → List (String × Node)
  | [] => [(name, n)]
  | (k, m) :: rest =>
    if k == name then (k, n) :: rest
    else if name < k then (name, n) :: (k, m) :: rest
    else (k, m) :: putEntry name n rest

def dropEntry (name : String) (es : List (String × Node)) : List (String × Node) :=
  es.filter fun e => e.1 != name

def at? : Node → List String → Option Node
  | n, [] => some n
  | n, name :: rest =>
    match n.child? name with
    | some m => m.at? rest
    | none => none

/-- Change what stands at the end of a way.  Missing directories on the way are made; a way
through something that is no directory changes nothing. -/
def alter (change : Option Node → Option Node) : List String → Option Node → Option Node
  | [], n => change n
  | name :: rest, none =>
    match alter change rest none with
    | some m => some (.dir [(name, m)])
    | none => none
  | name :: rest, some (.dir es) =>
    match alter change rest (es.lookup name) with
    | some m => some (.dir (putEntry name m es))
    | none => some (.dir (dropEntry name es))
  | _ :: _, some n => some n

mutual

/-- Everything below a directory: its own entries first, then what is below each of its
directories in turn.  Links are listed and not followed. -/
def inside (base : Path) : Node → List (Path × Node)
  | .dir es => es.map (fun e => (base.entry e.1, e.2)) ++ insideEntries base es
  | _ => []

def insideEntries (base : Path) : List (String × Node) → List (Path × Node)
  | [] => []
  | (name, n) :: es => inside (base.entry name) n ++ insideEntries base es

end

mutual

def dirs (base : Path) : Node → List (Path × List (String × Node))
  | .dir es => (base, es) :: dirsOfEntries base es
  | _ => []

def dirsOfEntries (base : Path) : List (String × Node) → List (Path × List (String × Node))
  | [] => []
  | (name, n) :: es => dirs (base.entry name) n ++ dirsOfEntries base es

end

mutual

def count : Node → Nat
  | .dir es => countEntries es + 1
  | _ => 1

def countEntries : List (String × Node) → Nat
  | [] => 0
  | (_, n) :: es => count n + countEntries es

end

end Node

end Folio

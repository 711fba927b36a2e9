/-
# Archive.Extraction -- unpacking an uploaded archive

An archive is checked before it is unpacked: it has to be readable, every entry has to pass its checksum, and no entry
may point outside, by an absolute path, a drive, or a step upward.  Backslashes count as separators here.  Afterwards a
file whose suffix promises a format has to start as that format does.
-/
import Folio.Workspace

namespace Folio.Archive

open Action Text

variable (a : Archive) (temp : Path) (dir : Path) (name : String)

variable (bs : Bytes) (d : Disk) (stem : String)

/-! ## Entry names -/

def isUnsafeName : Bool :=
  let slashed := name.toList.map fun c => if c == '\\' then '/' else c
  match slashed with
  | [] => false
  | '/' :: _ => true
  | _ :: ':' :: _ => true
  | _ => (Path.ofString (String.ofList slashed)).parts.contains ".."

/-! ## Reading archives -/

def endMark : Bytes := [0x50, 0x4B, 5, 6]

def word16 (at_ : Nat) : Nat :=
  ((bs.drop at_).headD 0).toNat + 256 * ((bs.drop (at_ + 1)).headD 0).toNat

/-- The last place where the end record starts; it is 22 bytes long at least. -/
def endRecord? : Option Bytes :=
  ((List.range (bs.length + 1)).reverse.map fun i => bs.drop i).find? fun rest =>
    rest.take 4 == endMark && rest.length ≥ 22

/-- The archive in bytes; only an empty one can be told from its end record. -/
def ofBytes? : Option Archive :=
  (endRecord? bs).map fun r => ⟨[], word16 r 12 != 0 || word16 r 14 != 0⟩

def ofContent? : Content → Option Archive
  | .archive a => some a
  | .bytes bs => ofBytes? bs
  | .text s => ofBytes? (Bytes.ofText s)
  | _ => none

/-- The entry that is read under a name: the last one. -/
def entryNamed? : Option ArchiveEntry :=
  a.entries.reverse.find? (·.name == name)

def damaged? : Option String :=
  (a.entries.find? fun e => ((entryNamed? a e.name).map (·.damaged)).getD false).map (·.name)

def escaping? : Option String :=
  (a.entries.find? fun e => isUnsafeName e.name).map (·.name)

/-- What is wrong with an archive, in words; nothing when it may be unpacked. -/
def complaint? : Option String :=
  if a.broken then some "Error! Zip file is bad!"
  else
    match damaged? a with
    | some name => some ("Error! Zip file contains bad file: " ++ name)
    | none => (escaping? a).map ("Error! Zip file contains unsafe path: " ++ ·)

/-! ## Checking files -/

def signatures : List (String × Bytes) := [
  (".png", [0x89, 0x50, 0x4E, 0x47, 0x0D, 0x0A, 0x1A, 0x0A]),
  (".jpg", [0xFF, 0xD8, 0xFF]),
  (".jpeg", [0xFF, 0xD8, 0xFF]),
  (".gif", [0x47, 0x49, 0x46, 0x38]),
  (".pdf", [0x25, 0x50, 0x44, 0x46]),
  (".zip", [0x50, 0x4B, 0x03, 0x04])]

def extension : String :=
  let tail := name.toList.reverse.takeWhile (· != '.')
  let front := name.toList.take (name.length - tail.length)
  if front.all (· == '.') then "" else "." ++ String.ofList tail.reverse

def isSideFile : Bool :=
  startsWith name "._" || contains dir.text "__MACOSX"

def startsRight (p : Path) : Bool :=
  match signatures.lookup (lower (extension p.name)) with
  | none => true
  | some mark =>
    match d.content p with
    | .ok c => c.toBytes.take mark.length == mark
    | .error _ => false

def corruptFile? (root : Path) : Option Path :=
  ((d.walk root).flatMap fun (dir, names) =>
    (names.filter (!isSideFile dir ·)).map dir.entry).find? fun p => !startsRight d p

def fileComplaint? (root : Path) : Option String :=
  (corruptFile? d root).map fun p =>
    "Error! Corrupt file detected - invalid header: " ++ p.text

/-! ## Unpacking -/

inductive Source where
  | file (p : Path)
  | upload (filename : Option String) (content : Content)

/-- The name of the directory for an archive: letters, digits, bars and underscores. -/
def directoryName : String :=
  String.ofList (stem.toList.map fun c =>
    if isAlnum c || c == '-' || c == '_' then c else '_') ++ "_"

/-- The first of the names with one more `X` each that is free. -/
def freeName (taken : String → Bool) (name : String) : (tries : Nat) → String
  | 0 => name ++ "X"
  | tries + 1 => if taken (name ++ "X") then freeName taken (name ++ "X") tries else name ++ "X"

def unpackDir : Path := temp.entry "devdoc_extracts"

def freshDirectory : Action Path := do
  let base := unpackDir temp
  makeDirs base
  let d ← disk
  let name := freeName (fun n => d.present (base.entry n)) (directoryName stem)
    ((d.list base).toOption.getD []).length
  let dir := base.entry name
  makeDirs dir
  return dir

/-- The place of an entry below a directory: empty names and dots do not count. -/
def entryPlace : Path :=
  (splitOn name "/").foldl (fun p part =>
    if part == "" || part == "." || part == ".." then p else p.entry part) dir

def makeParent (place : Path) : Action Unit := do
  if !(← disk).present place.parent then makeDirs place.parent

def unpackDirectory (place : Path) : Action Unit := do
  if !(← disk).isDir place then
    if (← disk).present place then throw (Trouble.taken.fault place.text)
    else makeDirs place

/-- Unpack one entry.  Of entries with one name only the last is checked beforehand, so a damaged
one may still turn up here. -/
def unpackEntry (e : ArchiveEntry) : Action Unit := do
  let place := entryPlace dir e.name
  makeParent place
  if endsWith e.name "/" then unpackDirectory place
  else
    write place (.bytes e.bytes)
    if e.damaged then throw (.met .damagedArchive ("Bad CRC-32 for file '" ++ e.name ++ "'"))

def restoreTime (e : ArchiveEntry) : Action Unit := do
  let place := (← disk).resolved (dir.child e.name)
  match (← disk).node place with
  | .ok (.file f) => change fun d => d.write place f.content e.modified
  | .ok _ => pure ()
  | .error t => throw (t.fault place.text)

inductive Outcome where
  | unpacked (dir : Path)
  | refused (words : String)
  deriving Repr, DecidableEq

/-- Unpack a checked archive.  The time of entries can only be restored from a file. -/
def unpack (onDisk : Bool) (a : Archive) : Action Outcome := do
  let dir ← freshDirectory temp stem
  for e in a.entries do unpackEntry dir e
  if !onDisk then throw (.wrongType "an upload is no path")
  for e in a.entries do restoreTime dir e
  match fileComplaint? (← disk) dir with
  | some words =>
    change fun d => .ok (d.removeTree dir)
    return .refused words
  | none => return .unpacked dir

def extract (source : Source) : Action Outcome := do
  let d ← disk
  let (content, stem, onDisk) ←
    match source with
    | .file p =>
      match d.node p with
      | .ok (.file f) => pure (some f.content, p.stem, true)
      | .ok _ => pure (some (.bytes []), p.stem, true)
      | .error _ => pure (none, p.stem, true)
    | .upload filename content =>
      let name := match filename with
        | some n => if n == "" then "uploaded_project.zip" else n
        | none => "uploaded_project.zip"
      pure (some content, (Path.ofString name).stem, false)
  match content with
  | none =>
    let name := match source with | .file p => p.text | .upload _ _ => ""
    return .refused ("Error! File not found at path: " ++ name)
  | some c =>
    match ofContent? c with
    | none => return .refused "Error! File at path is not a ZIP file:\n"
    | some a =>
      match complaint? a with
      | some words => return .refused words
      | none => unpack temp stem onDisk a

def extractOrFail (source : Source) : Action Path := do
  match ← extract temp source with
  | .unpacked dir => return dir
  | .refused words => throw (.say .badValue ("Extraction failed: " ++ words))

end Folio.Archive

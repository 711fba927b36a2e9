/-
# Thumbnail -- one picture per project

Thumbnails stand in one directory, named for their projects.  A new thumbnail takes the place of the old one.  A format
holds some colour modes; what it gives back may be another mode than what was written.
-/
import Folio.Naming
import Folio.Workspace

namespace Folio.Picture

open Decimal

/-! ## Pictures -/

def formatOf? (suffix : String) : Option String :=
  [(".jpg", "JPEG"), (".jpeg", "JPEG"), (".png", "PNG"), (".gif", "GIF"), (".webp", "WEBP"),
    (".bmp", "BMP")].lookup suffix

/-- The colour mode read back after writing a mode in a format; nothing when the format cannot
hold it. -/
def modeIn? (format mode : String) : Option String :=
  match format with
  | "JPEG" =>
    [("1", "L"), ("L", "L"), ("RGB", "RGB"), ("RGBX", "RGB"), ("CMYK", "CMYK"),
      ("YCbCr", "RGB")].lookup mode
  | "PNG" => if ["1", "L", "LA", "I", "I;16", "P", "RGB", "RGBA"].contains mode then some mode
    else none
  | "BMP" =>
    [("1", "1"), ("L", "L"), ("P", "P"), ("RGB", "RGB"), ("RGBA", "RGB")].lookup mode
  | "GIF" => some (if ["1", "L", "LA", "I", "F"].contains mode then "L" else "P")
  | "WEBP" => some (if ["RGBA", "LA", "PA"].contains mode then "RGBA" else "RGB")
  | _ => none

def written? (p : Picture) (format : String) : Option Picture :=
  (modeIn? format p.mode).map fun mode => { p with mode, format }

/-- Of the two whole numbers around a positive number the one with the smaller miss, at least
one; the lower one when they miss alike. -/
def nearerWhole (x : Float) (miss : Nat → Float) : Nat :=
  let low := x.floor.toUInt64.toNat
  let high := x.ceil.toUInt64.toNat
  Nat.max (if miss high < miss low then high else low) 1

def distance (a b : Float) : Float := (a - b).abs

/-- The size of a picture shrunk into a frame: its shape is kept, and it never grows. -/
def fitted (width height frameWidth frameHeight : Nat) : Nat × Nat :=
  if frameWidth ≥ width && frameHeight ≥ height then (width, height)
  else
    let aspect := quotient width height
    if quotient frameWidth frameHeight ≥ aspect then
      (nearerWhole (ofInt frameHeight * aspect) fun n =>
        distance aspect (quotient n frameHeight), frameHeight)
    else
      (frameWidth, nearerWhole (ofInt frameWidth / aspect) fun n =>
        if n == 0 then 0.0 else distance aspect (quotient frameWidth n))

def shrunk (p : Picture) : Picture :=
  let (width, height) := fitted p.width p.height 400 300
  { p with width, height }

end Folio.Picture

namespace Folio.Thumbnail

variable (d : Disk) (dir : Path) (project : String)

set_option autoImplicit false

/-! ## Thumbnails -/

def suffixes : List String := [".bmp", ".gif", ".jpeg", ".jpg", ".png", ".webp"]

def sizeLimit : Nat := 5 * 1024 * 1024

def place (project suffix : String) : Path :=
  dir.entry (Naming.thumbnail project ++ suffix)

inductive Refusal where
  | notFound (p : Path)
  | badSuffix
  | tooLarge
  | noPicture
  | unprocessed
  deriving Repr, DecidableEq

def Refusal.message : Refusal → String
  | .notFound p => "File not found: " ++ p.text
  | .badSuffix => "Unsupported format. Use: " ++ Text.join ", " suffixes
  | .tooLarge => "File too large. Maximum size: 5.0MB"
  | .noPicture => "Invalid image file"
  | .unprocessed => "Failed to process image"

def validate (p : Path) : Except Refusal Picture :=
  match d.node p with
  | .error _ => .error (.notFound p)
  | .ok n =>
    if !suffixes.contains (Text.lower p.suffix) then .error .badSuffix
    else
      match n with
      | .file f =>
        if f.content.size > sizeLimit then .error .tooLarge
        else
          match f.content with
          | .picture pic => .ok pic
          | _ => .error .noPicture
      | _ => .error .noPicture

/-- The picture to be stored: without transparency where the format has none, and shrunk when
asked. -/
def prepared (pic : Picture) (format : String) (resize : Bool) : Picture :=
  let pic := if format == "JPEG" && pic.mode == "RGBA" then { pic with mode := "RGB" } else pic
  if resize then pic.shrunk else pic

def drop (p : Path) : Action Unit := do
  if ← Action.ask (·.exists? p) then Action.change (·.unlink p)

def dropOthers (project keep : String) : Action Unit := do
  for suffix in suffixes.filter (· != keep) do drop (place dir project suffix)

/-- Store a prepared picture.  A format that cannot hold it leaves an empty file in the place of
an old one. -/
def store (place : Path) (pic : Picture) (format : String) : Action Unit := do
  match pic.written? format with
  | some w => Action.write place (.picture w)
  | none =>
    if (← Action.disk).present place then Action.write place (.bytes [])
    throw (.met .system "cannot write this mode")

def unopened : Fault := .met .system "cannot identify image file"

def replace (file : Path) (resize : Bool) : Action Path := do
  let suffix := Text.lower file.suffix
  let format := (Picture.formatOf? suffix).getD ""
  dropOthers dir project suffix
  -- The picture is opened again, and may have been one of the old thumbnails.
  match validate (← Action.disk) file with
  | .error _ => throw unopened
  | .ok pic => store (place dir project suffix) (prepared pic format resize) format
  return place dir project suffix

def add (file : Path) (resize : Bool) : Action (Except Refusal Path) := do
  -- A name that is too long is a fault, and not a missing file.
  discard (Action.ask (·.exists? file))
  match validate (← Action.disk) file with
  | .error r => return .error r
  | .ok _ => return (← Action.attempt (replace dir project file resize)).mapError fun _ => .unprocessed

def findIn? (order : List String) (d : Disk) (dir : Path) (project : String) : Except Fault (Option Path) :=
  (order.map (place dir project)).findM? d.exists?

def find? : Disk → Path → String → Except Fault (Option Path) := findIn? suffixes

def bytes? : Except Fault (Option Bytes) := do
  return (← find? d dir project).bind fun p => ((d.content p).map Content.toBytes).toOption

def remove : Action Bool := do
  match ← Action.ask fun d => find? d dir project with
  | none => return false
  | some p => return (← Action.attempt (Action.change (·.unlink p))).isOk

def all : List (String × Path) :=
  let names := ((d.list dir).toOption.getD []).map (·.1)
  suffixes.flatMap fun suffix =>
    (names.filter (Text.endsWith · suffix)).map fun n => (Path.nameStem n, dir.entry n)

def describe (insight : Value) : Except Fault Value := do
  let id := insight.getOrNull "id"
  if !id.truthy then return insight
  let found ← find? d dir id.textOrEmpty
  return insight.set "thumbnail" (.object [
    ("path", .textOrNull (found.map (·.text))),
    ("filename", .textOrNull (found.map (·.name))),
    ("exists", found.isSome)])

end Folio.Thumbnail

/-
# Disk -- a directory tree with its current directory

Paths are looked up by name, through links.  What goes wrong on the way is a `Trouble`; asking
whether something exists takes most troubles for "no", opening it turns them into faults.
-/
import Folio.Disk.Node

namespace Folio

open Json

inductive Trouble where
  | absent
  | notADirectory
  | isADirectory
  /-- Links that lead in a circle. -/
  | circular
  | nameTooLong
  /-- A name with a zero character. -/
  | badName
  | taken
  | notEmpty
  deriving Repr, DecidableEq

namespace Trouble

def fault (t : Trouble) (place : String) : Fault :=
  let worded (cause : Cause) (n : String) (what : String) : Fault :=
    .met cause ("[Errno " ++ n ++ "] " ++ what ++ ": '" ++ place ++ "'")
  match t with
  | .absent => worded .noSuchFile "2" "No such file or directory"
  | .notADirectory => worded .notADirectory "20" "Not a directory"
  | .isADirectory => worded .isADirectory "21" "Is a directory"
  | .circular => worded .system "40" "Too many levels of symbolic links"
  | .nameTooLong => worded .system "36" "File name too long"
  | .badName => .met .badValue "embedded null byte"
  | .taken => worded .fileExists "17" "File exists"
  | .notEmpty => worded .system "39" "Directory not empty"

/-- Whether asking for existence takes the trouble for "no". -/
def meansNo : Trouble → Bool
  | .nameTooLong => false
  | _ => true

end Trouble

structure Disk where
  root : Node
  current : Path
  owner : String
  writes : Nat
  deriving Inhabited

namespace Disk

variable (d : Disk) (p : Path)

def absolute : Path := d.current.join p

/-- How many steps a look-up may take; only circular links need more. -/
def stepLimit : Nat := 4096

/-- Resolve names one by one below the resolved names `done`, through links.  With `last` a link
at the very end is followed too. -/
def resolve (root : Node) (last : Bool) : (steps : Nat) → (done todo : List String) → Except Trouble (List String)
  | 0, _, _ => .error .circular
  | _, done, [] => .ok done
  | steps + 1, done, name :: rest =>
    if name == ".." then resolve root last steps done.dropLast rest
    else if name.toList.contains '\x00' then .error .badName
    else if name.utf8ByteSize > 255 then .error .nameTooLong
    else
      match (root.at? done).bind (·.child? name) with
      | none => .error .absent
      | some (.link target) =>
        if rest.isEmpty && !last then .ok (done ++ [name])
        else
          let t := Path.ofString target
          resolve root last steps (if t.isAbsolute then [] else done) (t.parts ++ rest)
      | some (.file _) => if rest.isEmpty then .ok (done ++ [name]) else .error .notADirectory
      | some (.dir _) => resolve root last steps (done ++ [name]) rest

def locate : Except Trouble (List String) :=
  resolve d.root true stepLimit [] (d.absolute p).parts

def node : Except Trouble Node := do
  match d.root.at? (← d.locate p) with
  | some n => .ok n
  | none => .error .absent

def nodeUnfollowed : Except Trouble Node := do
  match d.root.at? (← resolve d.root false stepLimit [] (d.absolute p).parts) with
  | some n => .ok n
  | none => .error .absent

/-- The real absolute path, as far as it exists; the rest is kept with double dots taken out. -/
def resolved : Path :=
  let p := d.absolute p
  let rec go : List String → List String → List String
    | done, [] => done
    | done, name :: rest =>
      if name == ".." then go done.dropLast rest
      else
        match resolve d.root true stepLimit [] (done ++ [name]) with
        | .ok real => go real rest
        | .error _ =>
          match (d.root.at? done).bind (·.child? name) with
          | some (.link target) =>
            let t := Path.ofString target
            go (Path.normalParts ((if t.isAbsolute then [] else done) ++ t.parts)) rest
          | _ => go (done ++ [name]) rest
  ⟨"/", go [] p.parts⟩

def ask (test : Node → Bool) : Except Fault Bool :=
  match d.node p with
  | .ok n => .ok (test n)
  | .error t => if t.meansNo then .ok false else .error (t.fault p.text)

def exists? : Except Fault Bool := d.ask p fun _ => true
def isDir? : Except Fault Bool := d.ask p Node.isDir
def isFile? : Except Fault Bool := d.ask p Node.isFile

def present : Bool := (d.node p).isOk

def isDir : Bool :=
  match d.node p with
  | .ok n => n.isDir
  | .error _ => false

def isFile : Bool :=
  match d.node p with
  | .ok n => n.isFile
  | .error _ => false

def isLink : Bool :=
  match d.nodeUnfollowed p with
  | .ok n => n.isLink
  | .error _ => false

def file : Except Fault File :=
  match d.node p with
  | .ok (.file f) => .ok f
  | .ok _ => .error (Trouble.isADirectory.fault p.text)
  | .error t => .error (t.fault p.text)

def content : Except Fault Content := return (← d.file p).content

def undecodable : Fault := .met .undecodable "'utf-8' codec can't decode byte: invalid start byte"

def text : Except Fault String := do
  match (← d.content p).text? with
  | some s => .ok s
  | none => .error undecodable

def document : Except Fault Value := do
  match ← d.content p with
  | .document _ v => .ok v
  | c =>
    match c.text? with
    | some s => parse s
    | none => .error undecodable

/-- The document in the file at a path, read strictly.  A document that was written strictly comes
back, numbers that have no strict form as nothing. -/
def strictDocument : Except Fault Value := do
  match ← d.content p with
  | .document layout v =>
    if layout.strict then .ok (finite v)
    else parseStrict (render layout v)
  | c =>
    match c.rawText? with
    | some s => parseStrict s
    | none => .error malformed

def list : Except Fault (List (String × Node)) :=
  match d.node p with
  | .ok (.dir es) => .ok es
  | .ok _ => .error (Trouble.notADirectory.fault p.text)
  | .error t => .error (t.fault p.text)

/-- Everything below a directory, directory by directory; nothing below anything else. -/
def below : List Path :=
  match d.node p with
  | .ok n => (n.inside p).map (·.1)
  | .error _ => []

def filesBelow : List Path := (d.below p).filter d.isFile

/-- The directories from a path on, each with the names of its files: everything in it that is no
directory, links looked through. -/
def walk : List (Path × List String) :=
  match d.node p with
  | .ok n => (n.dirs p).map fun (dir, es) =>
      (dir, (es.filter fun e => !(d.isDir (dir.entry e.1))).map (·.1))
  | .error _ => []

def putAt (parts : List String) (n : Node) : Disk :=
  { d with root := (Node.alter (fun _ => some n) parts (some d.root)).getD d.root }

def dropAt (parts : List String) : Disk :=
  { d with root := (Node.alter (fun _ => none) parts (some d.root)).getD .empty }

/-- The real place of a path that may not exist yet; its directory has to. -/
def placeFor : Except Trouble (List String) := do
  let p := d.absolute p
  if p.name.toList.contains '\x00' then .error .badName
  else if p.name.utf8ByteSize > 255 then .error .nameTooLong
  else
    match d.locate p with
    | .ok real => .ok real
    | .error .absent => do
      match d.nodeUnfollowed p with
      | .ok (.link target) =>
        let t := (p.parent.child target)
        let dir ← d.locate t.parent
        .ok (dir ++ [t.name])
      | _ =>
        let dir ← d.locate p.parent
        match d.root.at? dir with
        | some (.dir _) => .ok (dir ++ [p.name])
        | _ => .error .notADirectory
    | .error t => .error t

def write (c : Content) (modified : Moment) : Except Fault Disk :=
  match d.placeFor p with
  | .error t => .error (t.fault p.text)
  | .ok place =>
    match d.root.at? place with
    | some (.dir _) => .error (Trouble.isADirectory.fault p.text)
    | _ =>
      let n := d.writes + 1
      .ok { d.putAt place (.file ⟨c, modified, n⟩) with writes := n }

def makeDirs : Except Fault Disk :=
  let p := d.absolute p
  let rec go (d : Disk) : Path → List String → Except Fault Disk
    | _, [] => .ok d
    | base, name :: rest =>
      let here := base.entry name
      match d.node here with
      | .ok (.dir _) => go d here rest
      | .ok _ =>
        .error ((if rest.isEmpty then Trouble.taken else Trouble.notADirectory).fault p.text)
      | .error .absent =>
        -- A link that leads nowhere is in the way.
        if d.isLink here then .error (Trouble.taken.fault here.text)
        else
          match d.placeFor here with
          | .ok place =>
            if (d.root.at? place).isSome then .error (Trouble.taken.fault p.text)
            else go (d.putAt place .empty) here rest
          | .error t => .error (t.fault p.text)
      | .error t => .error (t.fault p.text)
  go d ⟨"/", []⟩ p.parts

def unlink : Except Fault Disk :=
  match resolve d.root false stepLimit [] (d.absolute p).parts with
  | .error t => .error (t.fault p.text)
  | .ok place =>
    match d.root.at? place with
    | some (.dir _) => .error (Trouble.isADirectory.fault p.text)
    | some _ => .ok (d.dropAt place)
    | none => .error (Trouble.absent.fault p.text)

/-- Give a file or directory another path; a file that stood there is replaced. -/
def rename (old new : Path) : Except Fault Disk :=
  match resolve d.root false stepLimit [] (d.absolute old).parts, d.locate (d.absolute new).parent with
  | .error t, _ => .error (t.fault old.text)
  | _, .error t => .error (t.fault new.text)
  | .ok place, .ok dir =>
    match d.root.at? place, d.root.at? (dir ++ [new.name]) with
    | none, _ => .error (Trouble.absent.fault old.text)
    | some _, some (.dir _) => .error (Trouble.isADirectory.fault new.text)
    | some n, _ => .ok ((d.dropAt place).putAt (dir ++ [new.name]) n)

def removeTree : Disk :=
  match resolve d.root false stepLimit [] (d.absolute p).parts with
  | .ok place =>
    match d.root.at? place with
    | some (.dir _) => d.dropAt place
    | _ => d
  | .error _ => d

end Disk

end Folio

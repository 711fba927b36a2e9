/-
# Pattern -- text patterns with ordered choice

Matching is search in a fixed order: the first alternative before the second, a greedy repetition as long as it can go,
a lazy one as short.  The first way that succeeds is the match.

`Pattern.run` passes the rest of the work along as a continuation, so it recurses on the tree; a repetition that makes
no progress stops, which bounds it by the length of the text.
-/
import Folio.Text.Case
import Folio.Text.Pieces

namespace Folio

open Text

/-- A place in a text: what lies before it (nearest first), what follows, and how many
characters were passed. -/
structure Spot where
  before : List Char
  after : List Char
  pos : Nat

namespace Spot

def start (cs : List Char) : Spot := ⟨[], cs, 0⟩

def next? (s : Spot) : Option (Char × Spot) :=
  match s.after with
  | [] => none
  | c :: cs => some (c, ⟨c :: s.before, cs, s.pos + 1⟩)

def upTo (s t : Spot) : List Char := s.after.take (t.pos - s.pos)

end Spot

inductive Pattern where
  | empty
  | char (test : Char → Bool)
  /-- A condition on what lies before (nearest first) and after. -/
  | edge (test : List Char → List Char → Bool)
  /-- A run of characters of a class. -/
  | span (greedy : Bool) (least : Nat) (most : Option Nat) (test : Char → Bool)
  | seq (first second : Pattern)
  | alt (first second : Pattern)
  | many (greedy : Bool) (least : Nat) (most : Option Nat) (body : Pattern)
  | group (number : Nat) (body : Pattern)
  | again (number : Nat)

abbrev Groups := List (Nat × List Char)

structure Ending where
  spot : Spot
  groups : Groups

namespace Pattern

variable (p : Pattern) (s : String) (test : Char → Bool)

abbrev Rest := Spot → Groups → Option Ending

def within (most : Option Nat) (count : Nat) : Bool :=
  match most with
  | some m => decide (count < m)
  | none => true

/-- The places reached by a run of at most `most` characters of a class, the farthest first. -/
def reach (test : Char → Bool) (most : Option Nat) (taken : Nat) (before : List Char)
    (pos : Nat) (found : List Spot) : List Char → List Spot
  | [] => ⟨before, [], pos⟩ :: found
  | c :: cs =>
    let found := ⟨before, c :: cs, pos⟩ :: found
    if test c && within most taken then
      reach test most (taken + 1) (c :: before) (pos + 1) found cs
    else found

/-- Repeat a step: at least `least` times, then as the mode says, never more than `most`. -/
def repeatWith (step : Spot → Groups → Rest → Option Ending) (greedy : Bool) (least : Nat)
    (most : Option Nat) (rest : Rest) : (fuel count : Nat) → Spot → Groups → Option Ending
  | 0, _, _, _ => none
  | fuel + 1, count, s, g =>
    if count < least then
      step s g fun t h => repeatWith step greedy least most rest fuel (count + 1) t h
    else
      let further (_ : Unit) : Option Ending :=
        if within most count then
          step s g fun t h =>
            if t.pos == s.pos then none
            else repeatWith step greedy least most rest fuel (count + 1) t h
        else none
      if greedy then
        match further () with
        | some e => some e
        | none => rest s g
      else
        match rest s g with
        | some e => some e
        | none => further ()

def run : Pattern → Spot → Groups → Rest → Option Ending
  | .empty, s, g, rest => rest s g
  | .char test, s, g, rest =>
    match s.next? with
    | some (c, t) => if test c then rest t g else none
    | none => none
  | .edge test, s, g, rest => if test s.before s.after then rest s g else none
  | .span greedy least most test, s, g, rest =>
    let far := (reach test most 0 s.before s.pos [] s.after).filter
      fun t => s.pos + least ≤ t.pos
    (if greedy then far else far.reverse).findSome? fun t => rest t g
  | .seq a b, s, g, rest => a.run s g fun t h => b.run t h rest
  | .alt a b, s, g, rest =>
    match a.run s g rest with
    | some e => some e
    | none => b.run s g rest
  | .many greedy least most body, s, g, rest =>
    repeatWith body.run greedy least most rest (least + s.after.length + 2) 0 s g
  | .group n body, s, g, rest => body.run s g fun t h => rest t ((n, s.upTo t) :: h)
  | .again n, s, g, rest =>
    match g.lookup n with
    | some text =>
      match dropHead? text s.after with
      | some after => rest ⟨text.reverse ++ s.before, after, s.pos + text.length⟩ g
      | none => none
    | none => none

structure Match where
  start : Spot
  stop : Spot
  groups : Groups

namespace Match

def text (m : Match) : String := String.ofList (m.start.upTo m.stop)

def group? (m : Match) (n : Nat) : Option String := (m.groups.lookup n).map String.ofList

def group (m : Match) (n : Nat) : String := (m.group? n).getD ""

end Match

def matchAt? (s : Spot) : Option Match :=
  (p.run s [] fun t g => some ⟨t, g⟩).map fun e => ⟨s, e.spot, e.groups⟩

def searchFrom? (p : Pattern) (before : List Char) (pos : Nat) : List Char → Option Match
  | [] => p.matchAt? ⟨before, [], pos⟩
  | c :: cs =>
    match p.matchAt? ⟨before, c :: cs, pos⟩ with
    | some m => some m
    | none => searchFrom? p (c :: before) (pos + 1) cs

def matchHead? : Option Match := p.matchAt? (.start s.toList)

def search? : Option Match := p.searchFrom? [] 0 s.toList

def occurs : Bool := (p.search? s).isSome

def heads : Bool := (p.matchHead? s).isSome

def atEnd : Pattern := .edge fun _ after => after.isEmpty

def covers : Bool := (Pattern.seq p atEnd).heads s

def allFrom (p : Pattern) : (fuel : Nat) → Spot → List Match
  | 0, _ => []
  | fuel + 1, s =>
    match p.searchFrom? s.before s.pos s.after with
    | none => []
    | some m =>
      if m.stop.pos == m.start.pos then
        match m.stop.next? with
        | some (_, t) => m :: allFrom p fuel t
        | none => [m]
      else m :: allFrom p fuel m.stop

def all : List Match :=
  p.allFrom (s.length + 1) (.start s.toList)

def texts : List String := (p.all s).map Match.text

def between (from_ : Spot) : List Match → List String
  | [] => [String.ofList from_.after]
  | m :: ms => String.ofList (from_.upTo m.start) :: between m.stop ms

def splitText : List String := between (.start s.toList) (p.all s)

def replaceAll (new : String) (s : String) : String :=
  String.intercalate new (p.splitText s)

/-! ## Building patterns -/

def sequence (ps : List Pattern) : Pattern := ps.foldr .seq .empty

def choice : List Pattern → Pattern
  | [] => .edge fun _ _ => false
  | [p] => p
  | p :: ps => .alt p (choice ps)

def lit : Pattern := sequence (s.toList.map fun c => .char (· == c))

/-- Whether two characters are equal but for case; `c` is a character of the basic alphabet. -/
def sameFolded (c x : Char) : Bool :=
  lowerChar x == lowerChar c
    || (lowerChar c == 'i' && x.toNat == 305)
    || (lowerChar c == 's' && x.toNat == 383)

def litFolded : Pattern := sequence (s.toList.map fun c => .char (sameFolded c))

def letterFolded (c : Char) : Bool :=
  let l := lowerChar c
  ('a' ≤ l && l ≤ 'z') || c.toNat == 305 || c.toNat == 383

def anyFolded (ws : List String) : Pattern := choice (ws.map litFolded)

def plus : Pattern := .span true 1 none test

def star : Pattern := .span true 0 none test

def optional : Pattern := .alt p .empty

def blanks : Pattern := star isBlank

def gap : Pattern := plus isBlank

def word : Pattern := plus isWordChar

def digits (n : Nat) : Pattern := .span true n (some n) isDecimalDigit

def wordEdge : Pattern := .edge fun before after =>
  (match before with | c :: _ => isWordChar c | [] => false)
    != (match after with | c :: _ => isWordChar c | [] => false)

def atStart : Pattern := .edge fun before _ => before.isEmpty

/-- The end of the text, or the place before a last line feed. -/
def atTextEnd : Pattern := .edge fun _ after => after.isEmpty || after == ['\n']

def atLineStart : Pattern := .edge fun before _ =>
  match before with
  | [] => true
  | c :: _ => c == '\n'

def notNewline (c : Char) : Bool := c != '\n'

end Pattern

end Folio

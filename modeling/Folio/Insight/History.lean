/-
# Insight.History -- insights in order, and how projects changed

For one contributor the score of a project is the share in percent, or the count when no share is told; for the whole
project it is the strongest count, or the strongest share.  The composite score adds a small multiple of the count.

All orders are stable: of equals the earlier recorded one comes first.  The evolution compares the first insight of a
project with the last; a card shows the last together with the evolution, and cards are ordered by the strength of the
contribution.
-/
import Folio.Insight.Basic

namespace Folio.Insight

open Contributor Decimal Insight Value

variable (is : List Insight) (since : Option Moment) (i : Insight) (who : Option String)

def dataOf? : Option Fields :=
  who.bind fun name => if name == "" then none else i.contributors.lookup name

def asksFor : Bool := who.getD "" != ""

def total (key : String) : Value := (Fields.get? i.stats key).getD .null

def score : Except Fault Float := do
  match i.dataOf? who with
  | some data =>
    match ← share? data with
    | some p => return p
    | none => toDouble (Contributor.total data)
  | none =>
    if asksFor who then return 0.0
    let top := count (i.total "top_contribution_count")
    if top > 0 then toDouble top
    else return (← percent? (i.total "top_contribution_percentage")).getD 0.0

def contributionCount : Int :=
  match i.dataOf? who with
  | some data => Contributor.total data
  | none => count (i.total "top_contribution_count")

def contributionMetric : String :=
  match i.dataOf? who with
  | some data => metric data
  | none => metric i.stats

inductive Basis where
  | share
  | count
  deriving Repr, DecidableEq

def Basis.text : Basis → String
  | .share => "percentage"
  | .count => "count"

/-- The part of a composite score that tells equal shares apart: a multiple of the count when the
score rests on a share, and nothing otherwise. -/
def tieBreak {α : Type} [Mul α] (zero : α) (basis : Basis) (count scale : α) : α :=
  match basis with
  | .share => count * scale
  | .count => zero

/-- A score and the part of it that tells equal shares apart. -/
def composed {α : Type} [Add α] [Mul α] (zero : α) (basis : Basis) (base count scale : α) : α × α :=
  let extra := tieBreak zero basis count scale
  (base + extra, extra)

def isWholePercent (x : Float) : Bool :=
  0.0 ≤ x && x ≤ 100.0 && ofInt ((truncate? x).getD 0) == x

/-- What the score of a contributor rests on: a share that is told, or a count that reads as one. -/
def basis (base : Float) : Basis :=
  match i.dataOf? who with
  | some data =>
    let told (key : String) : Bool := !(read data key .null).isNull
    if told "contribution_percentage" || told "percentage" || isWholePercent base then .share
    else .count
  | none => .count

structure Composite where
  score : Number
  base : Float
  basis : Basis
  count : Int
  metric : String
  extra : Number

def usualScale : Number := .real 0.0001

def composite (scale : Number) : Except Fault Composite := do
  let base ← i.score who
  let count := i.contributionCount who
  let basis := i.basis who base
  match scale, basis with
  | .real _, .share => discard (toDouble (max 0 count))
  | _, _ => pure ()
  let (score, extra) := composed (.real 0.0) basis (.real base) (.int (max 0 count)) scale
  return ⟨score, base, basis, count, i.contributionMetric who, extra⟩

def Composite.parts (c : Composite) : Value := .object [
  ("basis", c.basis.text),
  ("contribution", .real c.base),
  ("count", .int c.count),
  ("metric", c.metric),
  ("tie_break", .ofNumber c.extra)]

def chronological : List Insight :=
  is.mergeSort fun a b => a.time.instant ≤ b.time.instant

def atMost {α : Type} (limit : Option Int) (xs : List α) : List α :=
  match limit with
  | none => xs
  | some n => xs.take n.toNat

def account (i : Insight) : Except Fault Value := do
  return .object [
    ("project_name", i.projectName),
    ("summary", i.summary),
    ("analyzed_at", i.analyzedAt),
    ("contributors", i.total "contributors"),
    ("top_contribution_count", i.total "top_contribution_count"),
    ("score", .real (← i.score who))]

def skillEntry : Value := .object [
  ("project_name", i.projectName),
  ("skills", .list i.skills),
  ("analyzed_at", i.analyzedAt),
  ("skill_count", i.skills.length)]

def namesAny (wanted : String) : List Value → Except Fault Bool
  | [] => .ok false
  | v :: vs => do
    if Text.lower (← v.asText "lower") == wanted then return true
    namesAny wanted vs

def meets (wanted : Option String) (names : List Value) : Except Fault Bool :=
  match wanted with
  | none => .ok true
  | some w => if w == "" then .ok true else namesAny (Text.lower w) names

def isSince : Except Fault Bool := do
  match since with
  | none => return true
  | some s =>
    match ← dateTime? i.analyzedAt with
    | some t => return s.instant ≤ t.instant
    | none => return true

def passes (language skill : Option String) (since : Option Moment) (i : Insight) : Except Fault Bool := do
  if !(← meets language i.languages) then return false
  if !(← meets skill i.skills) then return false
  isSince since i

def filtered (language skill : Option String) (since : Option Moment) (is : List Insight) :
    Except Fault (List Insight) := is.filterM (passes language skill since)

open Text

/-- The insights of a chronological list by project, in the order of first occurrence. -/
def histories : List (String × List Insight) :=
  (unique (is.map (·.projectName))).map fun n => (n, is.filter (·.projectName == n))

def trimmedText (v : Value) : Except Fault String := do
  if v.truthy then return trim (← v.asText "strip") else return ""

def added (first last : List Value) : Except Fault (List Value) := do
  let old ← members first
  let new ← members last
  sorted (new.filter (!old.contains ·))

def fileCount : Int := count ((i.fileAnalysis.get? "file_count").getD (.int 0))

def change (first last : Insight) (snapshots : Nat) : Except Fault Value := do
  let newSkills ← added first.skills last.skills
  let newLanguages ← added first.languages last.languages
  let kind (i : Insight) : Value := i.projectType.orElse "unknown"
  return .object [
    ("project_name", last.projectName),
    ("snapshot_count", snapshots),
    ("first_analyzed_at", first.analyzedAt),
    ("latest_analyzed_at", last.analyzedAt),
    ("new_skills", .list newSkills),
    ("new_languages", .list newLanguages),
    ("file_count_delta", .int (last.fileCount - first.fileCount)),
    ("summary_changed", (← trimmedText first.summary) != (← trimmedText last.summary)),
    ("project_type_changed", !(kind first == kind last))]

def noEvolution : Value := .object [
  ("project_name", ""),
  ("snapshot_count", .int 0),
  ("first_analyzed_at", .null),
  ("latest_analyzed_at", .null),
  ("new_skills", .list []),
  ("new_languages", .list []),
  ("file_count_delta", .int 0),
  ("summary_changed", false),
  ("project_type_changed", false)]

def evolution (history : List Insight) : Except Fault Value :=
  match chronological history with
  | [] => .ok noEvolution
  | first :: rest => change first (rest.getLast?.getD first) (rest.length + 1)

structure Card where
  name : String
  snapshots : Nat
  score : Float
  latest : Insight
  evolution : Value

namespace Card

def toValue (c : Card) : Value := .object [
  ("project_name", c.name),
  ("snapshot_count", c.snapshots),
  ("score", .real c.score),
  ("latest", c.latest.toValue),
  ("evolution", c.evolution)]

def seconds (c : Card) : Float := quotient c.latest.time.sinceEpoch 1000000

/-- Whether a card comes first: by score, number of skills, time, strongest count and name. -/
def precedes (a b : Card) : Bool :=
  let top (c : Card) : Int := count (c.latest.total "top_contribution_count")
  if a.score != b.score then b.score < a.score
  else if a.latest.skills.length != b.latest.skills.length then
    b.latest.skills.length < a.latest.skills.length
  else if a.seconds != b.seconds then b.seconds < a.seconds
  else if top a != top b then top b < top a
  else le (lower a.name) (lower b.name)

end Card

def card? (name : String) (history : List Insight) : Except Fault (Option Card) := do
  match (chronological history).getLast? with
  | none => return none
  | some latest =>
    let changes ← evolution history
    return some ⟨name, history.length, ← latest.score who, latest, changes⟩

def folded (s : String) : String := lower (trim s)

def allowedHistories (allowed : Option (List Value)) (hs : List (String × List Insight)) :
    List (String × List Insight) :=
  match allowed with
  | none => hs
  | some names =>
    let wanted := (names.map fun v => folded v.shown).filter (· != "")
    hs.filter fun h => wanted.contains (folded h.1)

def topCards (limit : Int) (allowed : Option (List Value)) : Except Fault (List Card) := do
  if limit ≤ 0 then return []
  let cards ← (allowedHistories allowed (histories is)).filterMapM fun h => card? who h.1 h.2
  return atMost (some limit) (cards.mergeSort Card.precedes)

end Folio.Insight

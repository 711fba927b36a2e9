/-
# Document.Passages -- title, summary, key points, authors and venue

The passages of a text that tell what it is about are found by scoring its lines and sentences.
-/
import Folio.Document.Signals
import Folio.Decimal.Binary

namespace Folio.Document

open Char Pattern Text

variable (text : String) (headings : List String) (line : String) (s : String)

/-! ## The title -/

def notTitleWords : List String := ["provided proper attribution", "permission to reproduce",
  "copyright", "all rights reserved", "arxiv", "doi:", "conference", "proceedings", "submitted",
  "accepted", "equal contribution", "listing order", "corresponding author", "http://", "https://"]

/-- Lines with these verbs are sentences, not titles. -/
def narrativeVerbs : List String := ["proposed", "started", "developed", "evaluated", "presented"]

def titleWord : Pattern :=
  .seq (.char isAlpha) (plus fun c => c.isAlpha || c == '-' || c == '\'')

def titleScore? : Option Int :=
  let ws := titleWord.texts line
  let n := ws.length
  let capital := ws.countP fun w => (w.toList.head?.map isUpper).getD false
  if n < 3 || n > 15 then none
  else if Decimal.quotient capital n < 0.6 then none
  else if line.toList.any (fun c => isDecimalDigit c || c == '%') then none
  else
    let long := ws.countP fun w => w.length ≥ 4
    let off : Nat := if n < 8 then 8 - n else n - 8
    some (2 * (capital : Int) + long - off
      + (if containsAny line [":", "—", "-"] then 1 else 0))

def betterTitle (best : String × Int) (line : String) : String × Int :=
  match titleScore? line with
  | some s => if best.2 < s then (line, s) else best
  | none => best

def mayBeTitle : Bool :=
  let lowered := lower line
  line != "" && !containsAny lowered notTitleWords && !containsAny lowered narrativeVerbs

def title : String :=
  match headings with
  | h :: _ => takeChars 120 h
  | [] =>
    let lines := (lines text).map trim
    let beforeAbstract :=
      match indexOf? (lower text) "abstract" with
      | some i => (Text.lines (Text.slice text (i - 800) i)).map Text.trim
      | none => []
    let early := (lines.take 120).filter fun l =>
      8 ≤ l.length && l.length ≤ 140
        && !(sequence [atStart, plus isDecimalDigit, blanks, atTextEnd]).occurs l
    let best := ((beforeAbstract ++ early).filter mayBeTitle).foldl betterTitle ("", 0)
    if best.1 != "" then best.1
    else (lines.find? fun l => 6 ≤ l.length && l.length ≤ 160).getD "Untitled document"

/-! ## Sections and sentences -/

def sentenceGap : Pattern :=
  .seq (.edge fun before _ => match before with
    | c :: _ => c == '.' || c == '!' || c == '?'
    | [] => false) gap

def sentences : List String := sentenceGap.splitText (trim text)

def sectionHead (name : String) : Pattern :=
  sequence [atStart, blanks, litFolded name, wordEdge]

def nextHeading : Pattern :=
  let inner (c : Char) : Bool := c.isAlphanum || isBlank c || c == '-'
  sequence [atStart, blanks, .char isUpper, .span true 2 none inner, blanks, atTextEnd]

def sectionLines? (name : String) : List String → Option (List String)
  | [] => none
  | l :: ls =>
    if (sectionHead name).heads (trim l) then
      some (ls.takeWhile fun x => !nextHeading.heads (trim x))
    else sectionLines? name ls

def headedSection? (text name : String) : Option String :=
  (sectionLines? name (lines text)).map fun ls =>
    takeChars 1200 (trim (join "\n" ls))

def markedSection (text name stop : String) : String :=
  let lowered := lower text
  match indexOf? lowered name with
  | none => ""
  | some i =>
    let j := (indexFrom? lowered stop (i + name.length)).getD (i + 1200)
    let chunk := trim (slice text i j)
    let head : Pattern := sequence [atStart, blanks, litFolded name, blanks,
      optional (.char fun c => c == ':' || c == '-'), blanks]
    let rest := match head.matchHead? chunk with
      | some m => String.ofList m.stop.after
      | none => chunk
    takeChars 1200 rest

/-- The section of a name: under its heading when the text has headings, else from the word that
names it up to the word that ends it. -/
def section_ (name stop : String) : String :=
  let headed := if headings.isEmpty then "" else (headedSection? text name).getD ""
  if headed != "" then headed
  else
    match headedSection? text name with
    | some s => s
    | none => markedSection text name stop

def pickTwo : (picked : List String) → List String → List String
  | picked, [] => picked
  | picked, s :: ss =>
    let s := collapsed s
    let picked := if 50 ≤ s.length && s.length ≤ 220 then picked ++ [s] else picked
    if picked.length ≥ 2 then picked else pickTwo picked ss

def digest (block : String) : String :=
  takeChars 420 (join " " (pickTwo [] (sentences block)))

def boilerplate : List String := ["provided proper attribution", "permission to reproduce",
  "reproduce the tables and figures", "all rights reserved", "copyright", "arxiv", "doi:",
  "conference on", "proceedings"]

def cleaned : String :=
  join "\n" (((lines text).map trim).filter fun l =>
    l != "" && !containsAny (lower l) boilerplate)

def fourDigits : Pattern := sequence [wordEdge, digits 4, wordEdge]

def percentMark : Pattern := sequence [wordEdge, decimal, blanks, lit "%", wordEdge]

def numberPoints : Nat :=
  (if fourDigits.occurs s then 1 else 0) + (if percentMark.occurs s then 1 else 0)

def summaryWords : List String :=
  ["goal", "objective", "purpose", "summary", "overview", "finding", "results", "conclusion"]

/-- The score of a sentence for the summary; nothing for one that is too short or too long. -/
def summaryScore? (index : Nat) (s : String) : Option (Nat × Nat × String) :=
  let s := collapsed s
  let n := wordCount s
  if s.length < 40 || n < 8 || n > 40 then none
  else
    let score := (if index < 3 then 2 else 0)
      + (if containsAny (lower s) summaryWords then 2 else 0) + numberPoints s
    some (score, index, s)

/-- The summary of a text: its abstract, or its two best sentences in their order. -/
def summary : String :=
  let clean := cleaned text
  let abstract := section_ clean headings "abstract" "introduction"
  if abstract != "" then digest abstract
  else
    let scored := (sentences clean).zipIdx.filterMap fun (s, i) => summaryScore? i s
    let best := (scored.mergeSort fun a b => b.1 < a.1 || (a.1 == b.1 && a.2.1 ≤ b.2.1)).take 2
    let inOrder := best.mergeSort fun a b => a.2.1 ≤ b.2.1
    takeChars 420 (join " " (inOrder.map (·.2.2)))

/-! ## Key points -/

def bullet : Pattern :=
  .seq (.char fun c => c == '-' || c == '*' || c == '•') gap

def deedWords : List String :=
  ["built", "created", "designed", "implemented", "analyzed", "evaluated", "proposed", "authored",
    "drafted"]

def deedScore? : Option (Nat × String) :=
  let s := collapsed s
  let score := (if containsAny (lower s) deedWords then 2 else 0) + numberPoints s
  if s.length < 50 || score == 0 then none else some (score, s)

def keyPoints : List String :=
  let conclusion := section_ text headings "conclusion" "references"
  let told := if conclusion == "" then "" else digest conclusion
  if told != "" then [told]
  else
    let bullets := ((lines text).map trim).filterMap fun l =>
      (bullet.matchHead? l).map fun m => String.ofList m.stop.after
    if !bullets.isEmpty then bullets.take 6
    else
      let scored := (sentences text).filterMap deedScore?
      ((scored.mergeSort fun a b =>
        b.1 < a.1 || (a.1 == b.1 && a.2.length ≤ b.2.length)).take 1).map (·.2)

/-! ## Authors and venue -/

def notAuthorWords : List String := ["provided proper attribution", "permission to reproduce",
  "copyright", "all rights reserved", "conference", "proceedings", "arxiv"]

def organisationWords : List String := ["University", "Institute", "Laboratory", "Labs",
  "Research", "Department", "School", "College", "Inc", "Ltd", "LLC", "Company", "Google",
  "Microsoft", "Facebook", "Meta", "Amazon", "Apple"]

def notNames : List String := ["Abstract", "Conference", "Proceedings", "Information", "Systems",
  "Beach", "Attention", "Neural", "Need", "The", "Long", "Introduction", "Recurrent",
  "Convolutional", "Decoder", "Encoder"]

def smallLetter (c : Char) : Bool := 'a' ≤ c && c ≤ 'z'

def properWord : Pattern := .seq (.char isUpper) (plus smallLetter)

def properName : Pattern :=
  sequence [wordEdge, properWord, .many true 1 (some 2) (.seq gap properWord), wordEdge]

def mayBeAuthor (titleWords : List String) (name : String) : Bool :=
  !containsAny name organisationWords
    && !(words name).any notNames.contains
    && !containsAny name titleWords
    && name.length ≤ 60

def authors (text title : String) : List String :=
  let lines := (((lines text).take 80).map trim).filter (· != "")
  let head := lines.takeWhile fun l => !contains (lower l) "abstract"
  let listed := head.filter fun l =>
    !containsAny (lower l) notAuthorWords && contains l "," && properWord.occurs l
  let place := join " " (if listed.isEmpty then lines else listed)
  let titleWords := (((plus isAlpha).texts title).filter fun w => w.length > 3)
  unique (((properName.texts place).filter (mayBeAuthor titleWords)).take 10)

def venueWord : Pattern :=
  choice (["conference", "proceedings", "journal", "workshop"].map fun w =>
    sequence [wordEdge, litFolded w, wordEdge])

def venue : String :=
  ((((lines text).take 120).map trim).find? fun l =>
    l != "" && venueWord.occurs l && l.length ≤ 160).getD ""

def venueYear (venue : String) : String :=
  let pattern : Pattern := sequence [wordEdge,
    .alt (.seq (lit "19") (digits 2)) (.seq (lit "20") (digits 2)), wordEdge]
  ((pattern.search? venue).map (·.text)).getD ""

end Folio.Document

/-
# Document.Signals -- figures, dates, roles, skills and topics in a text

What a search finds is listed once, in the order in which it stands in the text.
-/
import Folio.Pattern

namespace Folio.Document

open Pattern Text

variable (text : String) (lowered : String)

def firstTen (xs : List String) : List String := (uniqueBy lower xs).take 10

def wordCount : Nat := ((sequence [wordEdge, word, wordEdge]).all text).length

def digit : Char → Bool := isDecimalDigit

def decimal : Pattern := .seq (plus digit) (optional (.seq (lit ".") (plus digit)))

/-- `12,345.6 %`. -/
def percentage : Pattern :=
  sequence [wordEdge, .span true 1 (some 3) digit,
    .many true 0 none (.seq (lit ",") (digits 3)),
    optional (.seq (lit ".") (plus digit)), blanks, lit "%"]

def countedThings : List String :=
  ["users", "clients", "tickets", "tests", "deployments", "issues", "prs", "pull requests"]

def countOfThings : Pattern :=
  sequence [wordEdge, decimal, blanks, anyFolded countedThings, wordEdge]

/-- A factor such as `3x` or `3 times`. -/
def factor : Pattern := sequence [wordEdge, decimal, blanks, anyFolded ["x", "X", "times"], wordEdge]

def figures : List String :=
  firstTen (([percentage, countOfThings, factor].flatMap (·.texts text)).map trim)

/-! ## Dates -/

def months : List String :=
  ["Jan", "Feb", "Mar", "Apr", "May", "Jun", "Jul", "Aug", "Sep", "Sept", "Oct", "Nov", "Dec"]

def month : Pattern := .seq (anyFolded months) (star letterFolded)

def untilEnd : Pattern :=
  sequence [blanks, anyFolded ["-", "to", "through", "–", "—"], blanks,
    .alt (anyFolded ["Present", "Now"]) (digits 4)]

def year : Pattern :=
  .alt (.seq (lit "20") (digits 2)) (.seq (lit "19") (digits 2))

def datePatterns : List Pattern := [
  sequence [wordEdge, month, gap, digits 4, untilEnd],
  sequence [wordEdge, digits 4, untilEnd],
  sequence [wordEdge, month, gap, digits 4, wordEdge],
  sequence [wordEdge, year, wordEdge]]

/-- Words near a bare year that make it a date of publication. -/
def publicationWords : List String :=
  ["published", "accepted", "conference", "journal", "arxiv", "doi", "copyright", "submitted",
    "proceedings", "volume", "issue"]

def numberRange : Pattern :=
  let dash (c : Char) : Bool := c == '–' || c == '—' || c == '-'
  sequence [wordEdge, .span true 3 (some 4) digit, blanks, .char dash, blanks,
    .span true 3 (some 4) digit, wordEdge]

def yearInContext (lowered found : String) : Bool :=
  match indexOf? lowered (lower found) with
  | some i => containsAny (slice lowered (i - 40) (i + 40)) publicationWords
  | none => false

def dates : List String :=
  let head := takeChars 2000 text
  let lowered := lower head
  firstTen ((datePatterns.flatMap (·.texts head)).filter fun d =>
    !numberRange.occurs d && (!year.covers d || yearInContext lowered d))

/-! ## Roles, skills and topics -/

def roleWords : List String :=
  ["engineer", "developer", "manager", "lead", "researcher", "analyst", "designer", "architect",
    "consultant"]

def roles (headings : List String) : List String :=
  let head := takeChars 1200 lowered
  let places := head :: headings.map lower
  sorted ((roleWords.filter fun r => places.any (contains · r)).map title)

def skillWords : List (String × String) := [
  ("python", "Python"), ("java", "Java"), ("javascript", "JavaScript"),
  ("typescript", "TypeScript"), ("c++", "C++"), ("c+", "C++"), ("cpp", "C++"), ("c#", "C#"),
  ("golang", "Go"), ("go language", "Go"), ("rust", "Rust"), ("sql", "SQL"), ("react", "React"),
  ("node.js", "Node.js"), ("nodejs", "Node.js"), ("express", "Express"), ("django", "Django"),
  ("flask", "Flask"), ("fastapi", "FastAPI"), ("spring", "Spring"), ("angular", "Angular"),
  ("vue", "Vue"), ("next.js", "Next.js"), ("nestjs", "NestJS"), ("pytorch", "PyTorch"),
  ("tensorflow", "TensorFlow"), ("docker", "Docker")]

def skills : List String :=
  unique ((skillWords.filter fun w => contains lowered w.1).map (·.2))

def commonWords : List String := [
  "the", "and", "for", "with", "from", "that", "this", "these", "those", "your", "you", "our",
  "are", "was", "were", "have", "has", "had", "not", "but", "into", "over", "under", "between",
  "within", "about", "project", "document", "report", "analysis", "summary", "section", "page",
  "pages", "file", "files", "data", "information", "results", "more", "less", "than", "also",
  "use", "using", "used", "arxiv", "paper", "et", "al", "figure", "table"]

def topicWord : Pattern :=
  let small (c : Char) : Bool := 'a' ≤ c && c ≤ 'z'
  let inner (c : Char) : Bool := small c || c.isDigit || c == '-'
  sequence [wordEdge, .char small, .span true 3 none inner, wordEdge]

def frequencies (ws : List String) : List (String × Nat) :=
  (unique ws).map fun w => (w, ws.count w)

def topics : List String :=
  let found := frequencies ((topicWord.texts lowered).filter (!commonWords.contains ·))
  let before (a b : String × Nat) : Bool := b.2 < a.2 || (a.2 == b.2 && le a.1 b.1)
  ((found.mergeSort before).take 12).map (·.1)

/-! ## The kind of a document -/

def kindRules : List (String × List String) := [
  ("research paper",
    ["abstract", "introduction", "method", "results", "conclusion", "references"]),
  ("resume/cv",
    ["resume", "curriculum vitae", "experience", "education", "skills", "objective", "summary"]),
  ("proposal",
    ["proposal", "scope of work", "statement of work", "sow", "deliverables", "timeline"]),
  ("report", ["report", "findings", "analysis", "results", "summary", "conclusion"]),
  ("research",
    ["research", "methodology", "hypothesis", "literature review", "dataset", "experiment"]),
  ("policy", ["policy", "compliance", "regulation", "governance", "risk management"]),
  ("specification",
    ["specification", "requirements", "acceptance criteria", "user story", "use case"]),
  ("manual/guide", ["guide", "manual", "instructions", "how to", "procedure", "step-by-step"]),
  ("minutes/agenda", ["meeting minutes", "minutes", "agenda", "action items", "attendees"]),
  ("invoice/receipt", ["invoice", "receipt", "bill to", "amount due", "total due"]),
  ("budget/financial",
    ["budget", "forecast", "revenue", "expense", "balance sheet", "cash flow"]),
  ("presentation", ["slide", "deck", "presentation", "speaker notes"]),
  ("software/technical", ["api", "endpoint", "code", "repository", "build", "deployment"])]

structure Kind where
  label : String
  score : Nat
  signals : List String

/-- The signals for a kind: one point for each word in the text, two for each in a heading. -/
def kindScore (lowered headings : String) (rule : String × List String) : Kind :=
  let hits := rule.2.map fun w =>
    let whole : Pattern := sequence [wordEdge, lit w, wordEdge]
    (w, whole.occurs lowered, whole.occurs headings)
  { label := rule.1
    score := (hits.map fun h => (if h.2.1 then 1 else 0) + (if h.2.2 then 2 else 0)).foldl (· + ·) 0
    signals := hits.flatMap fun h =>
      (if h.2.1 then [h.1] else []) ++ (if h.2.2 then [h.1] else []) }

/-- The kind with the most points, the first one among equals; a resume needs three. -/
def kindOf (headings : List String) : Kind :=
  let blob := join " " (headings.map lower)
  let best := (kindRules.map (kindScore lowered blob)).foldl
    (fun best k => if best.score < k.score then k else best) ⟨"unknown", 0, []⟩
  if best.label == "resume/cv" && best.score < 3 then ⟨"unknown", 0, []⟩ else best

def Kind.confidence (k : Kind) : String :=
  if k.score ≥ 4 then "high" else if k.score ≥ 2 then "medium"
  else if k.score ≥ 1 then "low" else "unknown"

/-! ## References, figures and tables -/

def referenceCount : Nat :=
  match indexOf? (lower text) "references" with
  | none => 0
  | some i =>
    let entry : Pattern := sequence [lit "\n", blanks, lit "[", plus digit, lit "]", gap]
    Nat.min (entry.all (slice text i (i + 3000))).length 200

def figureCount : Nat :=
  let mention : Pattern := sequence [wordEdge, litFolded "fig", optional (litFolded "ure"),
    optional (lit "."), blanks, plus digit]
  Nat.min (mention.all text).length 200

def tableCount : Nat :=
  let mention : Pattern := sequence [wordEdge, litFolded "table", blanks, plus digit]
  Nat.min (mention.all text).length 200

end Folio.Document

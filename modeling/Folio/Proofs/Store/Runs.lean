/-
# Proofs.Store.Runs -- what holds of the store after every run

A run is a list of calls, each at its own moment; a call that fails ends and the next one follows.  Beside the run
stands a machine that has a log of writes for each name, and a call moves the log of its own name only (`Call.on`).  One
call on an open store answers what the machine answers and leaves a store that shows its logs (`act_agrees`);
`play_follows` carries that over whole runs.

So from an empty store the rows fit together and no rule of the tables was ever broken (`coherent_after_every_run`), and
asking for a project gives back its log of writes (`versions_follow_writes`).
-/
import Folio.Proofs.Action
import Folio.Proofs.Disk.Fresh
import Folio.Proofs.Store.History
import Folio.Store.Session

namespace Folio.Store.Session

open Action Disk

variable {log : Option History} {other : String} {s' : Store} {w' : Workspace}

/-! ## Calls and runs -/

/-- A change of the store. -/
inductive Call where
  | insert (name : String) (content : Value) (blob : Option Bytes)
  | update (name : String) (input : Input)
  | delete (name : String)
  | prune (name : String) (keepNewest : Int)

inductive Answer where
  | inserted (known : Option Bool)
  | updated (found : Bool)
  | deleted (found : Bool)
  | pruned (removed : Nat)

namespace Call

def name : Call → String
  | insert name _ _ | update name _ | delete name | prune name _ => name

def act : Call → Action Answer
  | insert name content blob => .inserted <$> Session.insert name content blob
  | update name input => .updated <$> Session.update name input
  | delete name => .deleted <$> Session.delete name
  | prune name keepNewest => .pruned <$> Session.prune name keepNewest

end Call

/-- Calls one after the other, each at its moment: their answers and what they leave. -/
def play : List (Moment × Call) → Workspace → List (Except Fault Answer) × Workspace
  | [], w => ([], w)
  | (now, c) :: rest, w =>
    let done := c.act.outcome { w with now }
    let later := play rest done.2
    (done.1 :: later.1, later.2)

/-! ## The machine of logs -/

abbrev Logs := String → Option History

/-- A call on the log of its project. -/
def Call.on : Call → Option History → Except Fault (Answer × Option History)
  | insert _ content blob, log =>
    if Json.isPlain content then
      .ok (.inserted (some log.isSome), some (.next log ⟨content, blob.getD (bytesOf content)⟩))
    else .error unwritable
  | update _ input, log => do
    let (content, blob) ← input.read
    return (.updated log.isSome, log.map (·.write ⟨content, blob⟩))
  | delete _, log => .ok (.deleted log.isSome, none)
  | prune _ keepNewest, log => do
    if log.isNone then return (.pruned 0, none)
    let n ← word keepNewest
    return (.pruned (History.removed log n), log.map (·.prune n))

namespace Logs

/-- No project was ever written. -/
def none : Logs := fun _ => .none

def put (logs : Logs) (name : String) (log : Option History) : Logs :=
  fun other => if other = name then log else logs other

/-- What the machine answers to a call. -/
def answer (logs : Logs) (c : Call) : Except Fault Answer := (c.on (logs c.name)).map (·.1)

/-- The logs after a call; one that fails changes nothing. -/
def advance (logs : Logs) (c : Call) : Logs :=
  match c.on (logs c.name) with
  | .ok (_, log) => logs.put c.name log
  | .error _ => logs

def after (logs : Logs) (calls : List (Moment × Call)) : Logs :=
  calls.foldl (fun logs c => logs.advance c.2) logs

/-- What the machine answers to the calls of a run. -/
def answers : Logs → List (Moment × Call) → List (Except Fault Answer)
  | _, [] => []
  | logs, c :: rest => logs.answer c.2 :: answers (logs.advance c.2) rest

theorem put_self (logs : Logs) (name : String) (log : Option History) : logs.put name log name = log := if_pos rfl

theorem put_of_ne {logs : Logs} {name : String} (ne : other ≠ name) : logs.put name log other = logs other := if_neg ne

theorem put_same (logs : Logs) (name : String) : logs.put name (logs name) = logs := by
  funext other
  unfold put
  split
  · next here => rw [here]
  · rfl

theorem advance_of_ne {logs : Logs} {c : Call} (ne : other ≠ c.name) : logs.advance c other = logs other := by
  unfold advance
  cases c.on (logs c.name) with
  | ok done => exact put_of_ne ne
  | error f => rfl

end Logs

/-! ## Open stores -/

/-- The connection is live, and its file holds these tables. -/
structure Opened (w : Workspace) (s : Store) : Prop where
  live : w.context.connection = .live
  rooted : (w.disk.absolute w.context.storeFile).isAbsolute
  holds : w.disk.content w.context.storeFile = .ok (.store s)

/-- The store is open and shows these logs. -/
def Follows (w : Workspace) (logs : Logs) : Prop :=
  ∃ s, Opened w s ∧ ∀ name, Shows s name (logs name)

variable {w : Workspace} {s : Store} {logs : Logs}

theorem outcome_connection (opened : Opened w s) : connection.outcome w = (.ok .live, w) := by
  rw [← opened.live]
  rfl

/-- The second that a write is stamped with. -/
def secondOf (w : Workspace) : Int := w.now.sinceEpoch.fdiv Calendar.microsPerSecond

theorem outcome_second (w : Workspace) : second.outcome w = (.ok (secondOf w), w) := rfl

theorem outcome_work {α : Type} (opened : Opened w s) (without : Except Fault α)
    (step : Store → Action α) : (work without step).outcome w = (step s).outcome w := by
  have there : tables.outcome w = (.ok s, w) := by
    simp [tables, outcome_bind, opened.holds]
  rw [work, bind_of_ok (outcome_connection opened), bind_of_ok there]

theorem Opened.file (opened : Opened w s) : ∃ f, w.disk.file w.context.storeFile = .ok f ∧ f.content = .store s :=
  file_of_content opened.holds

theorem outcome_keep (opened : Opened w s) (s' : Store) : ∃ w', (keep s').outcome w = (.ok (), w') ∧ Opened w' s' := by
  obtain ⟨f, found, -⟩ := opened.file
  obtain ⟨d', written, current, again⟩ := write_file opened.rooted found (.store s') w.now
  refine ⟨{ w with disk := d' }, ?_, opened.live, ?_, ?_⟩
  · rw [keep, bind_of_ok (outcome_get w), outcome_write, written]
  · simpa [absolute, current] using opened.rooted
  · simp only [content, again]
    rfl

/-! ## One call -/

variable {name : String}

theorem follows_put (opened' : Opened w' s') (shown : ∀ name, Shows s name (logs name))
    (moved : Shows s' name log) (same : SameElsewhere name s s') : Follows w' (logs.put name log) := by
  refine ⟨s', opened', fun other => ?_⟩
  by_cases here : other = name
  · subst here
    rwa [Logs.put_self]
  · rw [Logs.put_of_ne here]
    exact (shown other).congr (same other here).1 (same other here).2

theorem outcome_keep_follows (opened : Opened w s) (shown : ∀ name, Shows s name (logs name))
    (moved : Shows s' name log) (same : SameElsewhere name s s') :
    ∃ w', (keep s').outcome w = (.ok (), w') ∧ Follows w' (logs.put name log) := by
  obtain ⟨w', kept, opened'⟩ := outcome_keep opened s'
  exact ⟨w', kept, follows_put opened' shown moved same⟩

/-- The call answers what the machine of logs answers, and leaves a store that shows its logs. -/
def Agrees (w : Workspace) (logs : Logs) (c : Call) : Prop :=
  ∃ w', c.act.outcome w = (logs.answer c, w') ∧ Follows w' (logs.advance c)

variable {c : Call}

theorem agrees_ok {a : Answer} (done : c.on (logs c.name) = .ok (a, log)) (ran : c.act.outcome w = (.ok a, w'))
    (follows : Follows w' (logs.put c.name log)) : Agrees w logs c := by
  refine ⟨w', ?_, ?_⟩
  · rw [ran, Logs.answer, done]
    rfl
  · simpa [Logs.advance, done] using follows

theorem agrees_idle {a : Answer} (done : c.on (logs c.name) = .ok (a, logs c.name))
    (ran : c.act.outcome w = (.ok a, w)) (follows : Follows w logs) : Agrees w logs c :=
  agrees_ok done ran (by rwa [Logs.put_same])

theorem agrees_error {f : Fault} (done : c.on (logs c.name) = .error f)
    (ran : c.act.outcome w = (.error f, w)) (follows : Follows w logs) : Agrees w logs c := by
  refine ⟨w, ?_, ?_⟩
  · rw [ran, Logs.answer, done]
    rfl
  · simpa [Logs.advance, done] using follows

theorem outcome_insert (opened : Opened w s) {h : Option History} (shows_ : Shows s name h)
    {content : Value} (plain : Json.isPlain content) (blob : Option Bytes) :
    ∃ s' w', (Session.insert name content blob).outcome w = (.ok (some h.isSome), w') ∧ Opened w' s' ∧
      Shows s' name (some (History.next h ⟨content, blob.getD (bytesOf content)⟩)) ∧ SameElsewhere name s s' := by
  obtain ⟨s', inserted, moved, same⟩ := insert_shows shows_ (secondOf w) ⟨content, blob.getD (bytesOf content)⟩
  obtain ⟨w', kept, opened'⟩ := outcome_keep opened s'
  refine ⟨s', w', ?_, opened', moved, same⟩
  simp only [Session.insert, plain, bind_of_ok (outcome_connection opened), Bool.not_true, Bool.and_false,
    Bool.false_eq_true, if_false, outcome_work opened, bind_of_ok (outcome_second w), inserted,
    outcome_bind, outcome_lift, outcome_pure, kept]

theorem insert_agrees (follows : Follows w logs) (name : String) (content : Value)
    (blob : Option Bytes) : Agrees w logs (.insert name content blob) := by
  obtain ⟨s, opened, shown⟩ := follows
  cases plain : Json.isPlain content with
  | false =>
    refine agrees_error (f := unwritable) ?_ ?_ ⟨s, opened, shown⟩
    · simp [Call.on, plain]
    · simp only [Call.act, outcome_map, Session.insert, plain,
        bind_of_ok (outcome_connection opened)]
      rfl
  | true =>
    obtain ⟨s', w', ran, opened', moved, same⟩ := outcome_insert opened (shown name) plain blob
    refine agrees_ok (by simp [Call.on, Call.name, plain]; rfl) ?_ (follows_put opened' shown moved same)
    rw [Call.act, outcome_map, ran]
    rfl

theorem outcome_update (name : String) {s : Store} {input : Input} {p : Payload} (opened : Opened w s)
    (read : input.read = .ok (p.content, p.blob)) : (s.update? (secondOf w) name p.content p.blob = .ok none →
      (Session.update name input).outcome w = (.ok false, w)) ∧
    ∀ s' w', s.update? (secondOf w) name p.content p.blob = .ok (some s') →
      (keep s').outcome w = (.ok (), w') → (Session.update name input).outcome w = (.ok true, w') := by
  have there : ¬(Connection.live == Connection.absent) := by decide
  rw [Session.update, bind_of_ok (outcome_connection opened), if_neg there, read,
    bind_of_ok (outcome_lift (.ok (p.content, p.blob)) w), outcome_work opened,
    bind_of_ok (outcome_second w)]
  constructor
  · intro unknown
    rw [unknown]
    exact bind_of_ok (outcome_lift (.ok none) w)
  · intro s' w' updated kept
    rw [updated, bind_of_ok (outcome_lift (.ok (some s')) w)]
    exact bind_of_ok kept

section

variable (follows : Follows w logs) (name : String)

include follows

theorem update_agrees (input : Input) : Agrees w logs (.update name input) := by
  obtain ⟨s, opened, shown⟩ := follows
  cases read : input.read with
  | error f =>
    refine agrees_error (f := f) ?_ ?_ ⟨s, opened, shown⟩
    · simp only [Call.on, read]
      rfl
    · rw [Call.act, outcome_map, Session.update, bind_of_ok (outcome_connection opened), read]
      rfl
  | ok p =>
    obtain ⟨content, blob⟩ := p
    obtain ⟨whenUnknown, whenKnown⟩ := outcome_update name (p := ⟨content, blob⟩) opened read
    cases log : logs name with
    | none =>
      have unknown := update?_absent (log ▸ shown name) (secondOf w) ⟨content, blob⟩
      refine agrees_idle (a := .updated false) ?_ ?_ ⟨s, opened, shown⟩
      · simp only [Call.on, Call.name, read, log]
        rfl
      · rw [Call.act, outcome_map, whenUnknown unknown]
        rfl
    | some h =>
      obtain ⟨s', updated, moved, same⟩ :=
        update?_present (log ▸ shown name) (secondOf w) ⟨content, blob⟩
      obtain ⟨w', kept, follows'⟩ := outcome_keep_follows opened shown moved same
      refine agrees_ok (a := .updated true) ?_ ?_ follows'
      · simp only [Call.on, Call.name, read, log]
        rfl
      · rw [Call.act, outcome_map, whenKnown s' w' updated kept]
        rfl

theorem delete_agrees : Agrees w logs (.delete name) := by
  obtain ⟨s, opened, shown⟩ := follows
  obtain ⟨moved, same⟩ := delete_shows (shown name)
  obtain ⟨w', kept, follows'⟩ := outcome_keep_follows opened shown moved same
  refine agrees_ok (a := .deleted (logs name).isSome) rfl ?_ follows'
  simp only [Call.act, outcome_map, Session.delete, outcome_work opened, bind_of_ok kept, (shown name).has]
  rfl

theorem prune_agrees (keepNewest : Int) : Agrees w logs (.prune name keepNewest) := by
  obtain ⟨s, opened, shown⟩ := follows
  have known := (shown name).has
  cases log : logs name with
  | none =>
    refine agrees_idle (a := .pruned 0) ?_ ?_ ⟨s, opened, shown⟩
    · simp only [Call.name, log]
      rfl
    · simp only [Call.act, outcome_map, Session.prune, outcome_work opened, known, log]
      rfl
  | some h =>
    cases fits : word keepNewest with
    | error f =>
      refine agrees_error (f := f) ?_ ?_ ⟨s, opened, shown⟩
      · simp only [Call.on, Call.name, log, fits]
        rfl
      · simp only [Call.act, outcome_map, Session.prune, outcome_work opened, known, log, fits]
        rfl
    | ok n =>
      obtain ⟨moved, removed, same⟩ := prune_shows (log ▸ shown name) n
      obtain ⟨w', kept, follows'⟩ := outcome_keep_follows opened shown moved same
      refine agrees_ok (a := .pruned (History.removed (some h) n)) ?_ ?_ follows'
      · simp only [Call.on, Call.name, log, fits]
        rfl
      · have ran : (Session.prune name keepNewest).outcome w = (.ok (s.prune name n).2, w') := by
          simp only [Session.prune, outcome_work opened, known, log, fits, Option.isSome_some,
            Bool.not_true, Bool.false_eq_true, if_false,
            bind_of_ok (outcome_lift (.ok n) w), bind_of_ok kept,
            outcome_pure]
        rw [Call.act, outcome_map, ran, removed]
        rfl

theorem act_agrees (c : Call) : Agrees w logs c := by
  cases c with
  | insert name content blob => exact insert_agrees follows name content blob
  | update name input => exact update_agrees follows name input
  | delete name => exact delete_agrees follows name
  | prune name keepNewest => exact prune_agrees follows name keepNewest

end

/-! ## Whole runs -/

theorem Opened.later (opened : Opened w s) (now : Moment) : Opened { w with now } s :=
  ⟨opened.live, opened.rooted, opened.holds⟩

theorem play_follows (follows : Follows w logs) (calls : List (Moment × Call)) :
    (play calls w).1 = logs.answers calls ∧ Follows (play calls w).2 (logs.after calls) := by
  induction calls generalizing w logs with
  | nil => exact ⟨rfl, follows⟩
  | cons call rest ih =>
    obtain ⟨now, c⟩ := call
    obtain ⟨s, opened, shown⟩ := follows
    obtain ⟨w', ran, follows'⟩ := act_agrees ⟨s, opened.later now, shown⟩ c
    obtain ⟨answers, after⟩ := ih follows'
    simp only [play, ran]
    exact ⟨congrArg _ answers, after⟩

theorem follows_empty (opened : Opened w .empty) : Follows w .none := ⟨_, opened, shows_empty⟩

open History Call List

variable {calls : List (Moment × Call)} {f : Fault}

/-! ## The rules of the tables -/

theorem read_cause {input : Input} (refused : input.read = .error f) : f.cause ≠ .notUnique := by
  unfold Input.read at refused
  split at refused
  · split at refused
    · cases refused
    · cases refused
      decide
  · cases refused
    decide
  · split at refused
    · next text _ =>
        unfold Json.parse at refused
        split at refused
        · cases refused
        · cases refused
          decide
    · cases refused
      decide

theorem word_cause {n : Int} (refused : word n = .error f) : f.cause ≠ .notUnique := by
  unfold word at refused
  split at refused
  · cases refused
  · cases refused
    decide

/-- A call is refused for what it brings along, never for a row. -/
theorem on_cause {log : Option History} (refused : c.on log = .error f) : f.cause ≠ .notUnique := by
  cases c with
  | insert name content blob =>
    simp only [on] at refused
    split at refused
    · cases refused
    · cases refused
      decide
  | update name input =>
    cases read : input.read with
    | error g =>
      simp only [on, read] at refused
      cases refused
      exact read_cause read
    | ok p =>
      simp only [on, read] at refused
      cases refused
  | delete name => cases refused
  | prune name keepNewest =>
    cases log with
    | none => cases refused
    | some h =>
      cases fits : word keepNewest with
      | error g =>
        simp only [on, fits] at refused
        cases refused
        exact word_cause fits
      | ok n =>
        simp only [on, fits] at refused
        cases refused

theorem answers_cause (refused : .error f ∈ logs.answers calls) : f.cause ≠ .notUnique := by
  induction calls generalizing logs with
  | nil => simp [Logs.answers] at refused
  | cons call rest ih =>
    rcases mem_cons.1 refused with here | later
    · unfold Logs.answer at here
      cases done : call.2.on (logs call.2.name) with
      | ok moved =>
        rw [done] at here
        cases here
      | error g =>
        rw [done] at here
        cases here
        exact on_cause done
    · exact ih later

/-- After every run the rows fit together, and no call met a taken number or a missing entry. -/
theorem coherent_after_every_run (opened : Opened w .empty) (calls : List (Moment × Call)) :
    (∃ s, Opened (play calls w).2 s ∧ Coherent s) ∧
      ∀ f, .error f ∈ (play calls w).1 → f ≠ numberTaken ∧ f ≠ noEntry := by
  obtain ⟨answers, s, opened', shown⟩ := play_follows (follows_empty opened) calls
  refine ⟨⟨s, opened', coherent_of_shows shown⟩, fun f refused => ?_⟩
  rw [answers] at refused
  have cause := answers_cause refused
  constructor
  · rintro rfl
    exact cause rfl
  · rintro rfl
    exact cause rfl

def freshStore : Workspace :=
  { (default : Workspace) with
    disk := ⟨.dir [("appdb.db", .file ⟨.store .empty, default, 0⟩)], ⟨"/", []⟩, "user", 0⟩
    context := { Context.ofHome ⟨"/", []⟩ with connection := .live } }

theorem opened_freshStore : Opened freshStore .empty := ⟨rfl, rfl, rfl⟩

/-- Writes by both ways, pruning and a second life of a project. -/
def busyRun : List (Moment × Call) := [
  (⟨1000000, none⟩, .insert "plan" (.object [("a", .int 1)]) none),
  (⟨2000000, none⟩, .update "plan" (.document (.object [("a", .int 2)]))),
  (⟨2000000, none⟩, .insert "plan" (.object [("a", .int 3)]) (some [1, 2])),
  (⟨3000000, none⟩, .prune "plan" 1),
  (⟨3000000, none⟩, .update "plan" (.document (.object []))),
  (⟨4000000, none⟩, .delete "plan"),
  (⟨4000000, none⟩, .insert "plan" (.object []) none)]

theorem coherent_after_busyRun :
    Opened freshStore .empty ∧ (∃ s, Opened (play busyRun freshStore).2 s ∧ Coherent s) :=
  ⟨opened_freshStore, (coherent_after_every_run opened_freshStore busyRun).1⟩

/-! ## Asking for a project -/

/-- What can be asked about a project: its newest content, each of its versions and the list of
them. -/
structure View where
  newest : Except Fault (Option Value)
  version : Int → Except Fault (Option (Int × Payload))
  lines : Except Fault (List VersionLine)

def view (w : Workspace) (name : String) : View where
  newest := ((fetch? name).outcome w).1
  version i := ((version? name i).outcome w).1.map (·.map fun v => ((v.number : Int), v.payload))
  lines := ((versions name).outcome w).1

/-- The lines of the list of versions that belong to a log. -/
def linesOf (log : Option History) : List VersionLine :=
  (log.map fun h => h.numbers.map fun n => ⟨n, n == h.length⟩).getD []

/-- What there is to say about a log: the last write, the write of each number that fits and was not
dropped, and the numbers that are left. -/
def viewOf (log : Option History) : View where
  newest := .ok (log.map (·.newest.content))
  version i := (word i).map fun i => (log.bind (·.version? i)).map (i, ·)
  lines := .ok (linesOf log)

theorem view_of_follows (follows : Follows w logs) (name : String) : view w name = viewOf (logs name) := by
  obtain ⟨s, opened, shown⟩ := follows
  have newest : ((fetch? name).outcome w).1 = .ok (s.content? name) := by
    rw [fetch?, outcome_work opened]
    rfl
  have version : ∀ i, ((version? name i).outcome w).1 = (word i).map (s.version? name) := by
    intro i
    rw [version?, outcome_work opened]
    cases word i <;> rfl
  have lines : ((versions name).outcome w).1 = .ok (s.versionLines name) := by
    rw [versions, ask, outcome_work opened]
    rfl
  unfold view
  rw [newest, lines, content?_of_shows (shown name), versionLines_of_shows (shown name)]
  congr 1
  funext i
  rw [version]
  cases word i with
  | error f => rfl
  | ok i => exact congrArg Except.ok (version?_of_shows (shown name) i)

variable (log : Option History)

theorem linesOf_decrease : (linesOf log).Pairwise fun a b => a.number > b.number := by
  cases log with
  | none => exact .nil
  | some h => exact pairwise_map.2 h.numbers_decrease

theorem linesOf_current (h : History) : ∃ first rest, linesOf (some h) = first :: rest ∧ first.isCurrent ∧
      ∀ line ∈ rest, line.isCurrent = false := by
  have decrease := h.numbers_decrease
  have head := h.head?_numbers
  cases numbers : h.numbers with
  | nil => simp [numbers] at head
  | cons n rest =>
    rw [numbers] at head decrease
    obtain rfl : n = h.length := by simpa using head
    refine ⟨⟨h.length, true⟩, rest.map fun n => ⟨n, n == h.length⟩, ?_, rfl, ?_⟩
    · simp [linesOf, numbers]
    · intro line member
      obtain ⟨m, below, rfl⟩ := mem_map.1 member
      have := (pairwise_cons.1 decrease).1 m below
      simp only [beq_eq_false_iff_ne]
      omega

theorem linesOf_prune (keep : Int) : linesOf (log.map (·.prune keep)) =
      if 1 ≤ keep then (linesOf log).take keep.toNat else linesOf log := by
  cases log with
  | none => simp [linesOf]
  | some h =>
    split
    · next positive => simp [linesOf, h.numbers_prune positive]
    · next low => simp [h.prune_of_nonpos (by omega : keep ≤ 0)]

theorem removed_eq_lines (keep : Int) :
    removed log keep = (linesOf log).length - (linesOf (log.map (·.prune keep))).length := by
  cases log with
  | none => rfl
  | some h => simp [removed, linesOf, length_numbers]

theorem after_of_ne (others : ∀ c ∈ calls, c.2.name ≠ name) : logs.after calls name = logs name := by
  induction calls generalizing logs with
  | nil => rfl
  | cons call rest ih =>
    have first : logs.advance call.2 name = logs name :=
      Logs.advance_of_ne (others call (by simp)).symm
    rw [← first]
    exact ih fun c member => others c (mem_cons_of_mem _ member)

theorem prune_lines (follows : Follows w logs) (now : Moment) (name : String) {keep : Int}
    (low : -wordLimit ≤ keep) (high : keep < wordLimit) :
    let kept := if 1 ≤ keep then (linesOf (logs name)).take keep.toNat else linesOf (logs name)
    (play [(now, .prune name keep)] w).1 = [.ok (.pruned ((linesOf (logs name)).length - kept.length))] ∧
      (view (play [(now, .prune name keep)] w).2 name).lines = .ok kept := by
  obtain ⟨answers, after⟩ := play_follows follows [(now, .prune name keep)]
  have fits : word keep = .ok keep := if_pos (by simp [low, high])
  have done : (Call.prune name keep).on (logs name) =
      .ok (.pruned (removed (logs name) keep), (logs name).map (·.prune keep)) := by
    cases logs name with
    | none => rfl
    | some h =>
      simp only [on, fits]
      rfl
  have moved : logs.after [(now, .prune name keep)] name = (logs name).map (·.prune keep) := by
    simp [Logs.after, Logs.advance, Call.name, done, Logs.put_self]
  constructor
  · rw [answers, ← linesOf_prune, ← removed_eq_lines]
    simp only [Logs.answers, Logs.answer, Call.name, done]
    rfl
  · rw [view_of_follows after, moved, ← linesOf_prune]
    rfl

/-- After every run, asking for a project gives its log of writes: the newest content is that of the
last write, version `i` is the `i`-th write unless it was dropped, and the list of versions falls
from the current one.  Pruning to `keep` versions cuts that list to its first `keep` lines and counts
the rest; calls about other projects change no answer. -/
theorem versions_follow_writes (opened : Opened w .empty) (calls : List (Moment × Call))
    (name : String) :
    let log := Logs.none.after calls name
    let later := (play calls w).2
    (play calls w).1 = Logs.none.answers calls ∧
    view later name = viewOf log ∧
    (linesOf log).Pairwise (fun a b => a.number > b.number) ∧
    (log.isSome → ∃ first rest, linesOf log = first :: rest ∧ first.isCurrent = true ∧
      ∀ line ∈ rest, line.isCurrent = false) ∧
    (∀ now keep, -wordLimit ≤ keep → keep < wordLimit →
      let kept := if 1 ≤ keep then (linesOf log).take keep.toNat else linesOf log
      (play [(now, .prune name keep)] later).1 = [.ok (.pruned ((linesOf log).length - kept.length))] ∧
      (view (play [(now, .prune name keep)] later).2 name).lines = .ok kept) ∧
    (∀ others : List (Moment × Call), (∀ c ∈ others, c.2.name ≠ name) →
      view (play others later).2 name = view later name) := by
  intro log later
  obtain ⟨answers, follows⟩ := play_follows (follows_empty opened) calls
  refine ⟨answers, view_of_follows follows name, linesOf_decrease log, fun written => ?_,
    fun now keep low high => prune_lines follows now name low high, fun others away => ?_⟩
  · obtain ⟨h, some_⟩ := Option.isSome_iff_exists.1 written
    rw [some_]
    exact linesOf_current h
  · rw [view_of_follows (play_follows follows others).2, view_of_follows follows, after_of_ne away]

/-- The third write of the busy run is version 3, and pruning to one version left only that one. -/
theorem third_write_of_busyRun :
    Opened freshStore .empty ∧
      (view (play (busyRun.take 4) freshStore).2 "plan").lines = .ok [⟨3, true⟩] ∧
      (view (play (busyRun.take 4) freshStore).2 "plan").version 3 =
        .ok (some (3, ⟨.object [("a", .int 3)], [1, 2]⟩)) := by
  have seen := (versions_follow_writes opened_freshStore (busyRun.take 4) "plan").2.1
  refine ⟨opened_freshStore, ?_, ?_⟩
  · rw [seen]
    rfl
  · rw [seen]
    rfl

end Folio.Store.Session

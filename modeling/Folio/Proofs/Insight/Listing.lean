/-
# Proofs.Insight.Listing -- what was recorded is listed

An insight that was made from an analysis is the one that is read from its entry (`ofEntry_toValue`): reading does again
what making did.  So listing a log that was built by recording reads each insight back (`Holds.lists`), in the order of
the times, and of equal ones the earlier recorded first; a new insight has exactly one place there
(`chronological_concat`).
-/
import Folio.Proofs.Calendar
import Folio.Proofs.Insight.Log

namespace Folio.Insight

open Action Contributor Contributors Except Fields List Option Value

variable {analysis : Value} {d : Draft} {i : Insight} {now : Moment}

/-! ## Times -/

theorem instant_analysisTime {t : Moment} {s : String} (stamped : stamp t = .ok s) :
    (analysisTime (.text s)).instant = t.instant := by
  obtain ⟨u, clock, rfl⟩ : ∃ u, onUniversalClock t = .ok u ∧ u.iso = s := by
    obtain ⟨u, clock, written⟩ := ok_of_bind stamped
    exact ⟨u, clock, ok.inj written⟩
  rw [onUniversalClock, Moment.toUniversal?] at clock
  by_cases inRange : Moment.inRange (t.ticks - t.offset.getD 0)
  · simp only [inRange] at clock
    cases clock
    simp only [Moment.inRange, Bool.and_eq_true, decide_eq_true_eq] at inRange
    rw [analysisTime, Moment.ofIso?_iso inRange.1 inRange.2 rfl]
    simp [inUniversalTime, Moment.instant]
  · simp only [inRange] at clock
    cases clock

/-! ## Contributors -/

namespace Contributor

/-- A value that JSON can hold, apart from fractions. -/
def isDatum : Value → Bool
  | .real _ | .moment _ | .span _ => false
  | _ => true

theorem toString_int_ne_empty (i : Int) : toString i ≠ "" := by
  cases i with
  | ofNat n =>
    show toString n ≠ ""
    intro empty
    have digits : Nat.toDigits 10 n = [] := by simpa using congrArg String.toList empty
    exact Nat.toDigits_ne_nil digits
  | negSucc n =>
    show "-" ++ toString (n + 1) ≠ ""
    simp

theorem shown_ne_empty {v : Value} (datum : isDatum v) (truthy : v.truthy) : v.shown ≠ "" := by
  cases v with
  | text s =>
    rw [shown]
    simpa [Value.truthy] using truthy
  | int i =>
    exact toString_int_ne_empty i
  | bool b => cases b <;> decide
  | list xs | object fs => simp [shown, notated]
  | null => cases truthy
  | real x | moment t | span d => cases datum

variable {data out : Fields}

theorem metric_ne_empty (fit : ∀ f ∈ data, isDatum f.2) : metric data ≠ "" := by
  rw [metric, read, orElse]
  cases found : get? data "contribution_metric" with
  | none => decide
  | some v =>
    split
    · rename_i truthy
      exact shown_ne_empty (fit _ (mem_of_get? found)) truthy
    · decide

theorem tally_metric_ne_empty (fit : ∀ f ∈ data, isDatum f.2) : (tally data).metric ≠ "" := by
  unfold tally
  dsimp only
  split
  · exact metric_ne_empty fit
  all_goals simp

/-- What normalizing has written. -/
structure Normal (data out : Fields) (share : Option Float) : Prop where
  count : get? out "contribution_count" = some (.int (tally data).count)
  metric : get? out "contribution_metric" = some (.text (tally data).metric)
  files : get? out "file_count" = some (.int (fileCount data))
  given : get? out "percentage" = get? data "percentage"
  shared : ∀ p, share = some p → get? out "contribution_percentage" = some (.real p)

theorem normal_of_normalized (run : normalized data = .ok out) :
    ∃ share, percent? (read data "percentage" .null) = .ok share ∧ Normal data out share := by
  obtain ⟨share, told, run⟩ := ok_of_bind run
  refine ⟨share, told, ?_⟩
  have written := ok.inj run
  cases share with
  | none | some p =>
    subst written
    constructor
    all_goals simp [get?_set]

theorem normalized_again (fit : ∀ f ∈ data, isDatum f.2) (run : normalized data = .ok out) :
    normalized out = .ok out := by
  obtain ⟨share, told, normal⟩ := normal_of_normalized run
  have same : tally out = tally data := by
    have unit : metric out = (tally data).metric := by
      have some_ : (text (tally data).metric).truthy := by
        simpa [Value.truthy] using tally_metric_ne_empty fit
      rw [metric, read, normal.metric, getD_some, orElse, if_pos some_]
      rfl
    unfold tally
    simp only [normal.count, unit]
    rfl
  have files : fileCount out = fileCount data := by
    rw [fileCount, normal.files]
    rfl
  have told' : percent? (read out "percentage" .null) = .ok share := by
    rw [read, normal.given]
    exact told
  unfold normalized
  simp only [same, files, told', set_of_get? normal.files, set_of_get? normal.count, set_of_get? normal.metric]
  cases share with
  | none => rfl
  | some p => exact congrArg ok (set_of_get? (normal.shared p rfl))

end Contributor

namespace Contributors

variable {v : Value} {cs : Contributors}

/-- Contributors as they are named: nothing, or an object for every name. -/
def Named (v : Value) : Prop :=
  v = .null ∨ ∃ fs, v = .object fs ∧ ∀ f ∈ fs, ∃ data, f.2 = .object data ∧ ∀ d ∈ data, isDatum d.2

def readOne (f : String × Value) : Except Fault (String × Fields) := do
  let data ← if f.2.truthy then f.2.toFields else pure []
  return (f.1, ← normalized data)

theorem readOne_object (name : String) (data : Fields) :
    readOne (name, .object data) = (do return (name, ← normalized data)) := by
  cases data with
  | nil | cons d ds => rfl

theorem readOne_again {name : String} {data : Fields} {c : String × Fields}
    (fit : ∀ d ∈ data, isDatum d.2) (run : readOne (name, .object data) = .ok c) :
    readOne (c.1, .object c.2) = .ok c := by
  rw [readOne_object] at run
  obtain ⟨out, normal, run⟩ := ok_of_bind run
  obtain rfl := ok.inj run
  rw [readOne_object, normalized_again fit normal]
  rfl

theorem ofValue_object (fs : Fields) : ofValue (.object fs) = fs.mapM readOne := by
  cases fs with
  | nil | cons f fs => rfl

theorem ofValue_toValue (named : Named v) (run : ofValue v = .ok cs) : ofValue cs.toValue = .ok cs := by
  rcases named with rfl | ⟨fs, rfl, each⟩
  · cases run
    rfl
  rw [ofValue_object] at run
  rw [toValue, ofValue_object]
  induction fs generalizing cs with
  | nil =>
    cases run
    rfl
  | cons f fs ih =>
    rw [mapM_cons] at run
    obtain ⟨c, first, run⟩ := ok_of_bind run
    obtain ⟨rest, later, run⟩ := ok_of_bind run
    obtain rfl := ok.inj run
    obtain ⟨name, w⟩ := f
    obtain ⟨data, object, fit⟩ := each _ mem_cons_self
    cases object
    rw [map_cons, mapM_cons, readOne_again fit first, ih (fun g member => each g (mem_cons_of_mem _ member)) later]
    rfl

end Contributors

/-! ## Entries -/

/-- What reading an entry relies on. -/
structure Readable (i : Insight) : Prop where
  contributors : ofValue i.contributors.toValue = .ok i.contributors
  summary : ∃ s, i.contributors.summary = .ok s
  stats : ∃ (s : Summary) (n : Nat), i.stats = s.toFields ++ [("skill_count", .nat n)]
  languages : (list i.languages).sortedElements = .ok i.languages
  frameworks : (list i.frameworks).sortedElements = .ok i.frameworks
  skills : (list i.skills).sortedElements = .ok i.skills
  files : i.fileAnalysis.isObject

theorem withDefaults_stats (s t : Summary) (v w : Value) :
    withDefaults (s.toFields ++ [("skill_count", v)]) (t.toFields ++ [("skill_count", w)]) =
      s.toFields ++ [("skill_count", v)] := by
  have has : ∀ f ∈ t.toFields ++ [("skill_count", w)], has (s.toFields ++ [("skill_count", v)]) f.1 := by
    intro f member
    simp only [Summary.toFields, cons_append, nil_append, mem_cons, not_mem_nil, or_false] at member
    rcases member with rfl | rfl | rfl | rfl | rfl | rfl | rfl
    all_goals rfl
  rw [withDefaults, filter_eq_nil_iff.2 fun f member => by simp [has f member], append_nil]

theorem ofEntry_toValue (readable : Readable i) {current : String} (clock : stamp now = .ok current) :
    ∃ rest, ofEntry now i.toValue = .ok rest ∧ ∀ fresh, rest fresh = .ok i := by
  obtain ⟨summary, summed⟩ := readable.summary
  obtain ⟨s, n, stats⟩ := readable.stats
  have people : i.toValue.fieldD "contributors" .null = .ok i.contributors.toValue := rfl
  have skills : ((i.toValue.get? "skills").getD .null).sortedElements = .ok i.skills := readable.skills
  have languages : ((i.toValue.get? "languages").getD .null).sortedElements = .ok i.languages := readable.languages
  have frameworks : ((i.toValue.get? "frameworks").getD .null).sortedElements = .ok i.frameworks := readable.frameworks
  have files : ((i.toValue.get? "file_analysis").getD .null).isObject := readable.files
  have some_ : ((i.toValue.get? "stats").getD .null).truthy := by
    show (object i.stats).truthy
    rw [stats]
    rfl
  have told : ((i.toValue.get? "stats").getD .null).toFields = .ok i.stats := rfl
  have kept : withDefaults i.stats (summary.toFields ++ [("skill_count", .nat i.skills.length)]) = i.stats := by
    rw [stats]
    exact withDefaults_stats s summary _ _
  unfold ofEntry
  simp only [people, readable.contributors, skills, some_, told, summed, clock, files, if_true, bind, Except.bind, kept]
  refine ⟨_, rfl, fun fresh => ?_⟩
  simp only [languages, frameworks]
  rfl

/-! ## Insights of analyses -/

/-- An analysis whose resume item lists languages, frameworks and skills by their names, as far as it lists them. -/
def Listed (analysis : Value) : Prop :=
  ∀ key ∈ ["languages", "frameworks", "skills"], (analysis.getOrNull "resume_item").get? key = none ∨
    ∃ names, (analysis.getOrNull "resume_item").get? key = some (.texts names)

theorem isObject_ofHierarchy (hierarchy : Value) : Gives (·.isObject) (FileStats.ofHierarchy hierarchy) :=
  .bind fun _ _ => .bind fun _ _ => gives_ok rfl

theorem parts_of_draft {people : Value} (run : draft analysis people = .ok d) :
    ((analysis.getOrNull "resume_item").orElse (.object [])).asObject "get" = .ok d.resume ∧
      ofValue people = .ok d.contributors ∧
      ∃ s n, d.contributors.summary = .ok s ∧ d.stats = s.toFields ++ [("skill_count", .nat n)] := by
  obtain ⟨item, field, run⟩ := ok_of_bind run
  obtain ⟨resume, object, run⟩ := ok_of_bind run
  obtain ⟨cs, read, run⟩ := ok_of_bind run
  obtain ⟨s, summed, run⟩ := ok_of_bind run
  obtain ⟨n, -, run⟩ := ok_of_bind run
  obtain rfl := ok.inj run
  refine ⟨?_, read, s, n, summed, rfl⟩
  rw [fieldD_of_isObject (isObject_of_fieldD field)] at field
  rw [getOrNull, ok.inj field]
  exact object

theorem listed_of_draft {people : Value} (listed : Listed analysis)
    (run : draft analysis people = .ok d) {key : String} (member : key ∈ ["languages", "frameworks", "skills"]) :
    (get? d.resume key).getD .null = .null ∨ ∃ names, (get? d.resume key).getD .null = .texts names := by
  obtain ⟨object, -, -⟩ := parts_of_draft run
  have told := listed key member
  generalize analysis.getOrNull "resume_item" = item at object told
  unfold orElse at object
  split at object
  · cases item with
    | object fs =>
      obtain rfl : fs = d.resume := ok.inj object
      rcases told with nothing | ⟨names, there⟩
      · exact Or.inl (congrArg (·.getD .null) nothing)
      · exact Or.inr ⟨names, congrArg (·.getD .null) there⟩
    | _ => cases object
  · obtain nothing : [] = d.resume := ok.inj object
    rw [← nothing]
    exact Or.inl rfl

theorem readable_of_insightOf {id : String} {note : Log.Note}
    (listed : Listed analysis) (named : Named note.contributors) (made : Log.insightOf now id analysis note = .ok i) :
    Readable i ∧ i.time.instant = (note.analyzedAt.getD now).instant := by
  obtain ⟨d, drafted, made⟩ := ok_of_bind made
  obtain ⟨s, stamped, made⟩ := ok_of_bind made
  obtain ⟨languages, sorted₁, made⟩ := ok_of_bind made
  obtain ⟨frameworks, sorted₂, made⟩ := ok_of_bind made
  obtain ⟨skills, sorted₃, made⟩ := ok_of_bind made
  obtain ⟨files, analyzed, made⟩ := ok_of_bind made
  obtain rfl := ok.inj made
  obtain ⟨-, read, summary, n, summed, stats⟩ := parts_of_draft drafted
  refine ⟨⟨ofValue_toValue named read, ⟨summary, summed⟩, ⟨summary, n, stats⟩, ?_, ?_, ?_,
    isObject_ofHierarchy _ analyzed⟩, instant_analysisTime stamped⟩
  · exact sortedElements_again (listed_of_draft listed drafted (by simp)) sorted₁
  · exact sortedElements_again (listed_of_draft listed drafted (by simp)) sorted₂
  · exact sortedElements_again (listed_of_draft listed drafted (by simp)) sorted₃

open Or

variable {current : String}

/-! ## The order of times -/

section Order

variable {α : Type} {key : α → Int} {xs ys : List α}

theorem eq_of_filters (orderedX : xs.Pairwise fun a b => key a ≤ key b) (orderedY : ys.Pairwise fun a b => key a ≤ key b)
    (same : ∀ k, xs.filter (key · == k) = ys.filter (key · == k)) : xs = ys := by
  have moves {xs ys : List α} (same : ∀ k, xs.filter (key · == k) = ys.filter (key · == k)) {x : α} (member : x ∈ xs) :
      x ∈ ys := by
    have own : x ∈ xs.filter (key · == key x) := mem_filter.2 ⟨member, beq_self_eq_true _⟩
    rw [same] at own
    exact (mem_filter.1 own).1
  induction xs generalizing ys with
  | nil =>
    cases ys with
    | nil => rfl
    | cons y ys => exact absurd (moves (fun k => (same k).symm) mem_cons_self) (not_mem_nil)
  | cons x xs ih =>
    cases ys with
    | nil => exact absurd (moves same mem_cons_self) (not_mem_nil)
    | cons y ys =>
      obtain ⟨firstX, restX⟩ := pairwise_cons.1 orderedX
      obtain ⟨firstY, restY⟩ := pairwise_cons.1 orderedY
      -- Both lists begin with the smallest key.
      have equal : key x = key y := by
        have below : key x ≤ key y := by
          rcases mem_cons.1 (moves (fun k => (same k).symm) (mem_cons_self (a := y))) with rfl | later
          · exact Int.le_refl _
          · exact firstX y later
        have above : key y ≤ key x := by
          rcases mem_cons.1 (moves same (mem_cons_self (a := x))) with rfl | later
          · exact Int.le_refl _
          · exact firstY x later
        exact Int.le_antisymm below above
      have heads := same (key x)
      simp only [filter_cons, beq_self_eq_true, if_true, ← equal, cons.injEq] at heads
      obtain ⟨rfl, -⟩ := heads
      refine congrArg (x :: ·) (ih restX restY fun k => ?_)
      have tails := same k
      simp only [filter_cons] at tails
      split at tails
      · exact (cons.inj tails).2
      · exact tails

theorem split_at_key (ordered : xs.Pairwise fun a b => key a ≤ key b) (k : Int) :
    ∃ front back, xs = front ++ back ∧ (∀ x ∈ front, key x ≤ k) ∧ ∀ x ∈ back, k < key x := by
  induction xs with
  | nil => exact ⟨[], [], rfl, nofun, nofun⟩
  | cons x xs ih =>
    obtain ⟨first, rest⟩ := pairwise_cons.1 ordered
    by_cases early : key x ≤ k
    · obtain ⟨front, back, rfl, below, beyond⟩ := ih rest
      exact ⟨x :: front, back, rfl, forall_mem_cons.2 ⟨early, below⟩, beyond⟩
    · refine ⟨[], x :: xs, rfl, nofun, forall_mem_cons.2 ⟨by omega, fun y mem => ?_⟩⟩
      have := first y mem
      omega

end Order

variable {is : List Insight}

theorem transitive_le (a b c : Insight) : decide (a.time.instant ≤ b.time.instant) →
    decide (b.time.instant ≤ c.time.instant) → decide (a.time.instant ≤ c.time.instant) := by
  simp only [decide_eq_true_eq]
  exact Int.le_trans

theorem total_le (a b : Insight) :
    (decide (a.time.instant ≤ b.time.instant) || decide (b.time.instant ≤ a.time.instant)) := by
  simp only [Bool.or_eq_true, decide_eq_true_eq]
  exact Int.le_total _ _

variable (is : List Insight)

theorem pairwise_chronological : (chronological is).Pairwise fun a b => a.time.instant ≤ b.time.instant :=
  (pairwise_mergeSort transitive_le total_le is).imp fun le => of_decide_eq_true le

theorem filter_chronological (k : Int) :
    (chronological is).filter (·.time.instant == k) = is.filter (·.time.instant == k) := by
  have equal : (is.filter (·.time.instant == k)).Pairwise fun a b => decide (a.time.instant ≤ b.time.instant) := by
    refine pairwise_of_forall_mem_list fun a first b second => ?_
    rw [decide_eq_true_eq, eq_of_beq (mem_filter.1 first).2, eq_of_beq (mem_filter.1 second).2]
  have within : (is.filter (·.time.instant == k)).Sublist (chronological is) :=
    sublist_mergeSort transitive_le total_le equal filter_sublist
  have kept := within.filter (·.time.instant == k)
  rw [List.filter_filter] at kept
  simp only [Bool.and_self] at kept
  refine (kept.eq_of_length ?_).symm
  exact ((mergeSort_perm is _).filter _).length_eq.symm

theorem chronological_concat (i : Insight) :
    ∃ front back, chronological is = front ++ back ∧ chronological (is ++ [i]) = front ++ i :: back ∧
      (∀ j ∈ front, j.time.instant ≤ i.time.instant) ∧ ∀ j ∈ back, i.time.instant < j.time.instant := by
  have ordered := pairwise_chronological is
  obtain ⟨front, back, split, early, late⟩ := split_at_key ordered i.time.instant
  -- Lists in the order of time are told apart by what they hold of one time.
  refine ⟨front, back, split, eq_of_filters (pairwise_chronological _) ?_ fun k => ?_, early, late⟩
  · rw [split] at ordered
    obtain ⟨before, after, across⟩ := pairwise_append.1 ordered
    refine pairwise_append.2 ⟨before, pairwise_cons.2 ⟨fun j mem => Int.le_of_lt (late j mem), after⟩, ?_⟩
    intro j mem k other
    rcases mem_cons.1 other with rfl | other
    · exact early j mem
    · exact across j mem k other
  · rw [filter_chronological, filter_append, ← filter_chronological is, split]
    by_cases here : i.time.instant = k
    · have none : back.filter (·.time.instant == k) = [] := by
        rw [filter_eq_nil_iff]
        intro j mem same
        have := late j mem
        have := eq_of_beq same
        omega
      simp [here, none]
    · simp [here]

theorem chronological_sublist (is js : List Insight) : (chronological is).Sublist (chronological (is ++ js)) := by
  induction js generalizing is with
  | nil => simp
  | cons j js tail =>
    obtain ⟨front, back, old, new, _⟩ := chronological_concat is j
    have next := tail (is ++ [j])
    rw [append_assoc] at next
    refine Sublist.trans ?_ next
    rw [old, new]
    exact (Sublist.refl front).append (sublist_cons_self j back)

namespace Log

/-! ## Calls that record -/

/-- A call that records an analysis, and when it is made. -/
structure Call where
  now : Moment
  analysis : Value
  note : Note

/-- The analysis lists its names as texts, and what it says of contributors is an object for each. -/
structure Call.Fit (c : Call) : Prop where
  listed : Listed c.analysis
  named : Contributors.Named c.note.contributors

def Call.time (c : Call) : Moment := c.note.analyzedAt.getD c.now

def Call.run (file : Path) (c : Call) (w : Workspace) : Except Fault Insight × Workspace :=
  (record file c.analysis c.note).outcome { w with now := c.now }

/-- Make calls one after another, and collect the insights of those that succeed. -/
def recordAll (file : Path) : List Call → Workspace → List Insight × Workspace
  | [], w => ([], w)
  | c :: cs, w =>
    let rest := recordAll file cs (c.run file w).2
    ((c.run file w).1.toOption.toList ++ rest.1, rest.2)

variable {w : Workspace} {base : Path} {name : String} {is : List Insight} {c : Call}

/-- A log that holds the entries of insights, which can be read back, or is not there yet. -/
structure Holds (w : Workspace) (base : Path) (name : String) (is : List Insight) : Prop where
  room : w.disk.Room base name
  orderly : Orderly w.disk (base.entry name)
  held : logged w.disk (base.entry name) = is.map toValue
  readable : ∀ i ∈ is, Readable i

theorem holds_nil (room : w.disk.Room base name) (absent : w.disk.root.leaf? (base.entry name).parts = none) :
    Holds w base name [] := by
  have empty := logged_of_room room absent
  exact ⟨room, ⟨inl absent, by rw [empty]; rfl⟩, empty, fun _ member => absurd member not_mem_nil⟩

/-- Recording goes on as if the directory of the log had been there, or it fails before it comes to that. -/
theorem record_made {d : Disk} (room : w.disk.Room base name) (orderly : Orderly w.disk (base.entry name))
    (made : w.disk.makeDirs base = .ok d) (analysis : Value) (note : Note) :
    (record (base.entry name) analysis note).outcome w =
        (record (base.entry name) analysis note).outcome { w with disk := d } ∨
      ∃ f issued, (record (base.entry name) analysis note).outcome w = (.error f, { w with issued := issued }) := by
  obtain ⟨ready, frame⟩ := room.ready made
  have same := frame.leaves (base.entry name).parts not_false
  obtain ⟨id, issued, each⟩ := outcome_record (base.entry name) analysis note w
  rw [each w.disk, each d]
  cases draft analysis note.contributors with
  | error f => exact inr ⟨f, w.issued, rfl⟩
  | ok dr =>
    cases insightOf w.now id analysis note with
    | error f => exact inr ⟨f, issued, rfl⟩
    | ok i =>
      refine inl ?_
      have first : ({ w with issued := issued } : Workspace).disk.Room base name := room
      have second : ({ w with disk := d, issued := issued } : Workspace).disk.Room base name := ready.room
      have orderly' := orderly.of_leaf room.linkless ready.linkless room.straight same
      have read := outcome_entries first orderly
      have read' := outcome_entries second orderly'
      rw [logged_of_leaf room.linkless ready.linkless room.straight same] at read'
      dsimp only
      rw [add, bind_of_ok read, bind_of_ok read', outcome_bind, outcome_bind]
      simp [store, outcome_store, Path.parent_entry, made, ready.makeDirs]

theorem Holds.step (holds : Holds w base name is) (fit : c.Fit) :
    Holds (c.run (base.entry name) w).2 base name (is ++ (c.run (base.entry name) w).1.toOption.toList) ∧
      ∀ i, (c.run (base.entry name) w).1 = .ok i → i.time.instant = c.time.instant := by
  obtain ⟨d, made⟩ := holds.room.made
  obtain ⟨ready, frame⟩ := holds.room.ready made
  have same := frame.leaves (base.entry name).parts not_false
  have straight := holds.room.straight
  have linkless := holds.room.linkless
  have orderly := holds.orderly.of_leaf linkless ready.linkless straight same
  have held := (logged_of_leaf linkless ready.linkless straight same).trans holds.held
  rw [Call.run]
  rcases record_made (w := { w with now := c.now }) holds.room holds.orderly made c.analysis c.note with
    run | ⟨f, issued, run⟩
  · rw [run]
    obtain ⟨id, w', -, ready', orderly', ⟨i, insight, run, added⟩ | ⟨f, run, kept, -⟩⟩ :=
      record_cases (w := { w with now := c.now, disk := d }) ready orderly c.analysis c.note
    · obtain ⟨readable, time⟩ := readable_of_insightOf fit.listed fit.named insight
      rw [run]
      refine ⟨⟨ready'.room, orderly', ?_, ?_⟩, ?_⟩
      · rw [added, held, map_append]
        rfl
      · exact forall_mem_append.2 ⟨holds.readable, forall_mem_singleton.2 readable⟩
      · rintro i ⟨⟩
        exact time
    · rw [run]
      refine ⟨⟨ready'.room, orderly', ?_, ?_⟩, nofun⟩
      · rw [kept, held]
        exact congrArg _ (append_nil is).symm
      · exact fun i member => holds.readable i (append_nil is ▸ member)
  · rw [run]
    refine ⟨⟨holds.room, holds.orderly, ?_, ?_⟩, nofun⟩
    · rw [holds.held]
      exact congrArg _ (append_nil is).symm
    · exact fun i member => holds.readable i (append_nil is ▸ member)

theorem Holds.run {cs : List Call} (holds : Holds w base name is) (fit : ∀ c ∈ cs, c.Fit) :
    Holds (recordAll (base.entry name) cs w).2 base name (is ++ (recordAll (base.entry name) cs w).1) := by
  induction cs generalizing w is with
  | nil =>
    rw [recordAll, append_nil]
    exact holds
  | cons c cs ih =>
    obtain ⟨first, rest⟩ := forall_mem_cons.1 fit
    rw [recordAll, ← append_assoc]
    exact ih (holds.step first).1 rest

/-! ## Listing -/

theorem outcome_read {i : Insight} (readable : Readable i) (clock : stamp w.now = .ok current) :
    (read i.toValue).outcome w = (.ok i, { w with issued := w.issued + 1 }) := by
  obtain ⟨rest, opened, ends⟩ := ofEntry_toValue readable clock
  have fresh : freshId.outcome w =
      (.ok (Value.hex 8 (w.issued + 1) ++ "-0000-4000-8000-000000000000"), { w with issued := w.issued + 1 }) := rfl
  rw [read, bind_of_ok (outcome_now w), opened]
  show (freshId >>= fun fresh => liftM (rest fresh)).outcome w = _
  rw [bind_of_ok fresh, outcome_lift, ends]

theorem outcome_readAll (readable : ∀ i ∈ is, Readable i) (clock : stamp w.now = .ok current) :
    ((is.map toValue).mapM read).outcome w = (.ok is, { w with issued := w.issued + is.length }) := by
  induction is generalizing w with
  | nil => rfl
  | cons i is ih =>
    obtain ⟨first, rest⟩ := forall_mem_cons.1 readable
    have next : stamp ({ w with issued := w.issued + 1 } : Workspace).now = .ok current := clock
    rw [map_cons, mapM_cons, bind_of_ok (outcome_read first clock),
      bind_of_ok (ih rest next), length_cons, Nat.add_comm is.length, ← Nat.add_assoc]
    rfl

/-- What a log lists at any time, and that listing changes nothing but the count of identifiers. -/
def Lists (file : Path) (w : Workspace) (is : List Insight) : Prop :=
  ∀ now current, stamp now = .ok current → (list file).outcome { w with now := now } =
    (.ok is, { w with now := now, issued := w.issued + is.length })

theorem Holds.lists (holds : Holds w base name is) : Lists (base.entry name) w (chronological is) := by
  intro now current clock
  have read := outcome_entries (w := { w with now := now }) holds.room holds.orderly
  rw [list, bind_of_ok read]
  rw [holds.held, bind_of_ok (outcome_readAll (w := { w with now := now }) holds.readable clock)]
  simp only [chronological, length_mergeSort]
  rfl

/-- What was recorded is listed as it was, in the order of time. -/
theorem recorded_then_listed {w₁ w₂ w₃ : Workspace} {before after : List Call} {js : List Insight} {i : Insight}
    (room : w.disk.Room base name) (absent : w.disk.root.leaf? (base.entry name).parts = none)
    (fit : ∀ c' ∈ before ++ c :: after, c'.Fit)
    (earlier : recordAll (base.entry name) before w = (is, w₁))
    (recorded : c.run (base.entry name) w₁ = (.ok i, w₂))
    (later : recordAll (base.entry name) after w₂ = (js, w₃)) :
    ∃ front back, chronological is = front ++ back ∧ Lists (base.entry name) w₁ (front ++ back) ∧
      Lists (base.entry name) w₂ (front ++ i :: back) ∧
      (front ++ i :: back).Pairwise (fun a b => a.time.instant ≤ b.time.instant) ∧
      i.time.instant = c.time.instant ∧
      (∀ j ∈ front, j.time.instant ≤ c.time.instant) ∧ (∀ j ∈ back, c.time.instant < j.time.instant) ∧
      Lists (base.entry name) w₃ (chronological (is ++ i :: js)) ∧
      (front ++ i :: back).Sublist (chronological (is ++ i :: js)) := by
  obtain ⟨fit₁, fit₂⟩ := forall_mem_append.1 fit
  obtain ⟨own, fit₃⟩ := forall_mem_cons.1 fit₂
  have holds₁ := (holds_nil room absent).run fit₁
  rw [earlier, nil_append] at holds₁
  obtain ⟨holds₂, timed⟩ := holds₁.step own
  rw [recorded] at holds₂ timed
  have holds₃ := holds₂.run fit₃
  rw [later] at holds₃
  have time := timed i rfl
  obtain ⟨front, back, old, new, early, late⟩ := chronological_concat is i
  rw [time] at early late
  have whole : is ++ [i] ++ js = is ++ i :: js := by rw [append_assoc, singleton_append]
  refine ⟨front, back, old, old ▸ holds₁.lists, new ▸ holds₂.lists, new ▸ pairwise_chronological _, time, early, late,
    whole ▸ holds₃.lists, ?_⟩
  rw [← whole, ← new]
  exact chronological_sublist _ js

def bareDisk : Workspace := { (default : Workspace) with disk := ⟨.dir [], ⟨"/", []⟩, "user", 0⟩ }

def dataDir : Path := ⟨"/", ["data"]⟩

/-- The analysis of a project with a contributor, at a time. -/
def callAt (ticks : Int) : Call where
  now := ⟨0, some 0⟩
  analysis := .object [("resume_item", .object [("project_name", .text "proj"), ("skills", .texts ["b", "a"])])]
  note := { contributors := .object [("ann", .object [("commits", .nat 2)])], analyzedAt := some ⟨ticks, some 0⟩ }

theorem fit_callAt (ticks : Int) : (callAt ticks).Fit where
  listed key member := by
    simp only [mem_cons, not_mem_nil, or_false] at member
    rcases member with rfl | rfl | rfl
    · exact inl rfl
    · exact inl rfl
    · exact inr ⟨["b", "a"], rfl⟩
  named := by
    refine inr ⟨_, rfl, forall_mem_singleton.2 ⟨_, rfl, forall_mem_singleton.2 ?_⟩⟩
    rfl

theorem room_bareDisk : bareDisk.disk.Room dataDir "log.json" := by
  have made : (bareDisk.disk.makeDirs dataDir).isOk := by decide
  refine ⟨Disk.linkless_of_isLinkless ⟨_, rfl⟩ rfl, rfl, ?_, by decide, by decide, ?_⟩
  · rintro ⟨es, found⟩
    cases found
  · cases run : bareDisk.disk.makeDirs dataDir with
    | ok d => exact ⟨d, rfl⟩
    | error t =>
      rw [run] at made
      cases made

/-- An analysis that is recorded second and was made first is listed first. -/
theorem second_listed_first :
    ∃ h i w₁ w₂, recordAll (dataDir.entry "log.json") [callAt 2] bareDisk = ([h], w₁) ∧
      (callAt 1).run (dataDir.entry "log.json") w₁ = (.ok i, w₂) ∧ Lists (dataDir.entry "log.json") w₂ [i, h] := by
  obtain ⟨is, w₁, earlier⟩ : ∃ is w₁, recordAll (dataDir.entry "log.json") [callAt 2] bareDisk = (is, w₁) := ⟨_, _, rfl⟩
  have one : (recordAll (dataDir.entry "log.json") [callAt 2] bareDisk).1.length = 1 := by decide +kernel
  have after : (recordAll (dataDir.entry "log.json") [callAt 2] bareDisk).1.all (fun h => 1 < h.time.instant) = true := by
    decide +kernel
  have fine : ((callAt 1).run (dataDir.entry "log.json")
      (recordAll (dataDir.entry "log.json") [callAt 2] bareDisk).2).1.isOk = true := by decide +kernel
  rw [earlier] at one after fine
  obtain ⟨h, rfl⟩ := length_eq_one_iff.1 one
  obtain ⟨i, w₂, recorded⟩ := Action.ok_of_isOk fine
  have fit : ∀ c ∈ [callAt 2] ++ callAt 1 :: [], c.Fit := by simp [fit_callAt]
  obtain ⟨front, back, old, -, new, -, -, early, -⟩ :=
    recorded_then_listed room_bareDisk rfl fit earlier recorded (recordAll.eq_1 _ _)
  refine ⟨h, i, w₁, w₂, earlier, recorded, ?_⟩
  rw [chronological, mergeSort_singleton] at old
  rcases append_eq_singleton_iff.1 old.symm with ⟨rfl, rfl⟩ | ⟨rfl, rfl⟩
  · exact new
  · have late : 1 < h.time.instant := by simpa using after
    have : h.time.instant ≤ 1 := early h mem_cons_self
    omega

end Log

end Folio.Insight

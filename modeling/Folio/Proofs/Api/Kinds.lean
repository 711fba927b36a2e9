/-
# Proofs.Api.Kinds -- the two places of a project's type

A record tells the type of its project twice: in the resume item, which a client sees, and in a part of its own, which
the facts of a new resume are read from.  A correction writes the first place only (`stored_of_setKind`), so the two
agree only when the last request asked for the old type.
-/
import Folio.Api.Projects
import Folio.Proofs.Store.Runs
import Folio.Proofs.Value
import Folio.Resume.Entry

namespace Folio.Api.Projects

open Action Store Store.Session
open Resume (Facts)

variable {w w' w'' : Workspace} {file : String} {record : Value} {kinds : List Value}

/-- The store is open, and this is the newest record under a name. -/
def Stored (w : Workspace) (file : String) (record : Value) : Prop :=
  ∃ s h, Opened w s ∧ Shows s file (some h) ∧ h.newest.content = record

section

variable (stored : Stored w file record)

include stored

theorem Stored.fetched : (fetch? file).outcome w = (.ok (some record), w) := by
  obtain ⟨s, h, opened, shows_, rfl⟩ := stored
  rw [fetch?, outcome_work opened, content?_of_shows shows_]
  rfl

theorem Stored.later (now : Moment) : Stored { w with now } file record := by
  obtain ⟨s, h, opened, rest⟩ := stored
  exact ⟨s, h, ⟨opened.live, opened.rooted, opened.holds⟩, rest⟩

theorem Stored.updated {changed : Value} {found : Bool}
    (ran : (update file (.document changed)).outcome w = (.ok found, w')) : Stored w' file changed := by
  obtain ⟨s, h, opened, shows_, -⟩ := stored
  have read := ran
  rw [update, bind_of_ok (outcome_connection opened)] at read
  obtain ⟨p, read, -⟩ := step_of_lift read
  have content : p.1 = changed := by
    cases changed with
    | object fs =>
      rw [Input.read] at read
      split at read
      · cases read
        rfl
      · cases read
    | _ => cases read
  obtain ⟨s', updated, moved, -⟩ := update?_present shows_ (secondOf w) ⟨p.1, p.2⟩
  obtain ⟨mid, kept, opened'⟩ := outcome_keep opened s'
  rw [(outcome_update file (p := ⟨p.1, p.2⟩) opened read).2 s' mid updated kept] at ran
  cases ran
  exact ⟨s', _, opened', moved, by simpa using content⟩

end

/-- The type of a project in the part that became a resume item. -/
def itemKind (record : Value) : Option Value := (record.get? "resume_item").bind (·.get? "project_type")

/-- One correction: the record has the new type in one place and is what it was in all others. -/
theorem stored_of_setKind {r : Request} {answer : Value} (stored : Stored w (fileOf (r.text "id")) record)
    (ran : (setKind r).outcome w = (.ok answer, w')) : ∃ item, record.get? "resume_item" = some item ∧
      item.isObject ∧ Stored w' (fileOf (r.text "id"))
        (record.set "resume_item" (item.set "project_type" (r.value "project_type"))) := by
  obtain ⟨v, mid, read, corrected⟩ := steps_of_bind ran
  rw [storedRecord, bind_of_ok stored.fetched] at read
  have same : v = record ∧ mid = w := by
    dsimp only at read
    split at read
    · cases read
      exact ⟨rfl, rfl⟩
    · cases read
  rw [same.1, same.2] at corrected
  obtain ⟨item, found, assigns⟩ := step_of_lift corrected
  obtain ⟨item', made, updates⟩ := step_of_lift assigns
  obtain ⟨_, last, updated, answered⟩ := steps_of_bind updates
  cases answered
  cases item with
  | object fs =>
    cases made
    refine ⟨_, Value.get?_of_field found, rfl, ?_⟩
    rw [outcome_discard] at updated
    generalize wrote : (update _ _).outcome w = ended at updated
    obtain ⟨f | b, last⟩ := ended
    · cases updated
    · cases updated
      exact stored.updated wrote
  | _ => cases made

/-- Corrections of one project's type, one after the other, all of them answered, with the types they ask for. -/
inductive Corrected (file : String) : List Value → Workspace → Workspace → Prop where
  | done (w : Workspace) : Corrected file [] w w
  | next {kinds : List Value} {w w' w'' : Workspace} {answer : Value} (now : Moment) (r : Request) (named : fileOf (r.text "id") = file)
      (ran : (setKind r).outcome { w with now } = (.ok answer, w')) (rest : Corrected file kinds w' w'') :
      Corrected file (r.value "project_type" :: kinds) w w''

theorem kindOf_set_item (record item : Value) : Facts.kindOf (record.set "resume_item" item) = Facts.kindOf record := by
  rw [Facts.kindOf, Value.get?_set_ne record (by decide), Facts.kindOf]

theorem itemKind_set {item : Value} (found : record.get? "resume_item" = some item) (object : item.isObject)
    (kind : Value) : itemKind (record.set "resume_item" (item.set "project_type" kind)) = some kind := by
  rw [itemKind, Value.get?_set_self (Value.isObject_of_get? found), Option.bind_some, Value.get?_set_self object]

theorem stored_of_corrected (run : Corrected file kinds w w') : ∀ record, Stored w file record →
    ∃ record', Stored w' file record' ∧ Facts.kindOf record' = Facts.kindOf record ∧
      itemKind record' = kinds.getLast?.or (itemKind record) := by
  induction run with
  | done w => exact fun record stored => ⟨record, stored, rfl, rfl⟩
  | @next kinds w mid w'' answer now r named ran rest ih =>
    intro record stored
    subst named
    obtain ⟨item, found, object, stored'⟩ := stored_of_setKind (stored.later now) ran
    obtain ⟨record', ended, kept, last⟩ := ih _ stored'
    refine ⟨record', ended, kept.trans (kindOf_set_item ..), ?_⟩
    rw [last, itemKind_set found object]
    cases kinds <;> simp [List.getLast?_cons]

theorem kind_of_read {facts : Facts} (read : Facts.ofRecord record = .ok facts) : facts.kind = Facts.kindOf record := by
  repeat obtain ⟨_, -, read⟩ := ok_of_bind read
  cases read
  rfl

/-- After any run of answered corrections, a client sees the type asked for last with the record, and a new resume has
the type from before; the two agree just when the last request changed nothing. -/
theorem kinds_agree_iff (stored : Stored w file record) (one : itemKind record = some (Facts.kindOf record))
    (run : Corrected file kinds w w') {r : Request} (named : fileOf (r.text "id") = file) :
    ∃ shown, (view r).outcome w' = (.ok (.object [("project_name", .text (Path.ofString file).stem),
        ("source", .text "database"), ("analysis", shown)]), w') ∧
      itemKind shown = some (kinds.getLast?.getD (Facts.kindOf record)) ∧
      (∀ facts, (Facts.stored? file).outcome w' = (.ok (some facts), w') → facts.kind = Facts.kindOf record) ∧
      (itemKind shown = some (Facts.kindOf shown) ↔ ∀ last ∈ kinds.getLast?, last = Facts.kindOf record) := by
  obtain ⟨shown, ended, kept, last⟩ := stored_of_corrected run record stored
  rw [one] at last
  subst named
  refine ⟨shown, ?_, ?_, ?_, ?_⟩
  · rw [view, bind_of_ok ended.fetched]
    rfl
  · rw [last]
    cases kinds.getLast? <;> rfl
  · intro facts told
    rw [Facts.stored?, bind_of_ok ended.fetched] at told
    dsimp only at told
    split at told
    · obtain ⟨facts', read, told⟩ := step_of_lift told
      cases told
      exact (kind_of_read read).trans kept
    · cases told
  · rw [last, kept]
    cases kinds.getLast? <;> simp

def individual : Value := .object [("resume_item", .object [("project_type", .text "individual")]),
  ("project_type", .object [("project_type", .text "individual")])]

def onlyIndividual : Workspace :=
  { freshStore with disk := ⟨.dir [("appdb.db", .file ⟨.store ⟨[⟨"plan.json", individual, [], 0, 1⟩],
    [⟨"plan.json", 0, 1, individual, []⟩]⟩, default, 0⟩)], ⟨"/", []⟩, "user", 0⟩ }

theorem stored_onlyIndividual : Stored onlyIndividual "plan.json" individual :=
  ⟨_, .created ⟨individual, []⟩, ⟨rfl, rfl, rfl⟩, .present _ _ rfl rfl rfl rfl, rfl⟩

def becomesCollaborative : Request :=
  ⟨.object [("id", .text "plan"), ("project_type", .text "collaborative")], none⟩

/-- A correction that the facts of a new resume do not show. -/
theorem collaborative_for_clients_only :
    ∃ shown, ((view becomesCollaborative).outcome ((setKind becomesCollaborative).outcome onlyIndividual).2).1 =
        .ok (.object [("project_name", .text "plan"), ("source", .text "database"), ("analysis", shown)]) ∧
      itemKind shown = some (.text "collaborative") ∧ Facts.kindOf shown = .text "individual" :=
  ⟨_, rfl, rfl, rfl⟩

theorem one_correction_splits_kinds : ∃ w' shown, Corrected "plan.json" [.text "collaborative"] onlyIndividual w' ∧
    (view becomesCollaborative).outcome w' = (.ok (.object [("project_name", .text "plan"),
      ("source", .text "database"), ("analysis", shown)]), w') ∧ itemKind shown ≠ some (Facts.kindOf shown) := by
  have run : Corrected "plan.json" [.text "collaborative"] onlyIndividual _ :=
    .next default becomesCollaborative rfl (Prod.ext rfl rfl) (.done _)
  obtain ⟨shown, seen, -, -, agree⟩ := kinds_agree_iff stored_onlyIndividual rfl run (r := becomesCollaborative) rfl
  refine ⟨_, shown, run, seen, fun same => ?_⟩
  have unchanged := agree.1 same (.text "collaborative") rfl
  exact absurd (Value.text.inj unchanged) (by decide)

end Folio.Api.Projects

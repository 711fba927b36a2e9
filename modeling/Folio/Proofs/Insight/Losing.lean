/-
# Proofs.Insight.Losing -- when a log loses entries

Four calls change a log (`Edit`).  Each looks at the entries and stores all of them again, or stores nothing.  What it
was not asked to change is in the log afterwards, when the look at the entries was one (`Makes.keeps`).

The system may refuse that look, and the log is then taken for empty.  The calls that change or leave out entries then
store nothing (`record_of_makes_nil`).  Recording stores its own entry alone: the others are lost, and the call returns.
-/
import Folio.Proofs.Api.Deleting

namespace Folio.Insight.Log

open Action Except List

variable {i : Insight} {id : String} {name : Value} {note : Note} {e : Edit} {step : Value → Value}
  {w w' : Workspace} {file : Path} {es kept : List Value} {look : Action (List Value)}

/-! ## Calls that change a log -/

inductive Edit where
  | record (analysis : Value) (note : Note)
  | setThumbnail (id : Value) (picture : Path)
  | clearThumbnail (id : Value)
  | removeProject (name : Value)

namespace Edit

/-- The call itself; only that it returns is of interest. -/
def run (file : Path) : Edit → Action Unit
  | .record analysis note => discard (Log.record file analysis note)
  | .setThumbnail id picture => discard (Log.setThumbnail file id picture)
  | .clearThumbnail id => discard (Log.clearThumbnail file id)
  | .removeProject name => discard (Log.removeProject file name)

def after (look : Action (List Value)) (file : Path) : Edit → Action Unit
  | .record analysis note => discard (recordAfter look file analysis note)
  | .setThumbnail id picture => discard (setThumbnailAfter look file id picture)
  | .clearThumbnail id => discard (changeAfter look file id fun e => e.set "thumbnail" .null)
  | .removeProject name => discard (removeProjectAfter look file name)

theorem run_eq_after (e : Edit) (file : Path) : e.run file = e.after (entries file) file := by
  cases e <;> rfl

def isRecord : Edit → Bool
  | .record _ _ => true
  | _ => false

/-- The entries that a call was not asked to change. -/
def untouched : Edit → List Value → List Value
  | .record _ _, es => es
  | .setThumbnail id _, es => es.eraseP fun e => e.getOrNull "id" == id
  | .clearThumbnail id, es => es.eraseP fun e => e.getOrNull "id" == id
  | .removeProject name, es => es.filter fun e => !(e.getOrNull "project_name" == name)

theorem untouched_sublist (e : Edit) (es : List Value) : (e.untouched es).Sublist es := by
  cases e with
  | record _ _ => exact Sublist.refl es
  | setThumbnail _ _ | clearThumbnail _ => exact eraseP_sublist
  | removeProject _ => exact filter_sublist

/-- What a call makes of the entries that it saw, when it stores any. -/
def Makes : Edit → List Value → List Value → Prop
  | .record _ _, es, es' => ∃ i : Insight, es' = es ++ [i.toValue]
  | .setThumbnail id _, es, es' => ∃ step, changeFirst? id step es = .ok (some es')
  | .clearThumbnail id, es, es' => ∃ step, changeFirst? id step es = .ok (some es')
  | .removeProject name, es, es' => ofOthers name es = .ok es' ∧ es'.length < es.length

end Edit

/-! ## What is made of the entries -/

theorem untouched_of_changeFirst {id : Value} (changed : changeFirst? id step es = .ok (some kept)) :
    (es.eraseP fun e => e.getOrNull "id" == id).Sublist kept := by
  induction es generalizing kept with
  | nil => cases changed
  | cons e es ih =>
    obtain ⟨v, read, rest⟩ := ok_of_bind changed
    have own := Value.getOrNull_of_fieldD read
    cases here : v == id with
    | true =>
      rw [here] at rest
      obtain rfl : step e :: es = kept := Option.some.inj (ok.inj rest)
      rw [eraseP_cons_of_pos (by rw [own, here])]
      exact sublist_cons_self _ _
    | false =>
      rw [here] at rest
      obtain ⟨found, further, same⟩ := ok_of_bind rest
      cases found with
      | none => cases same
      | some more =>
        obtain rfl : e :: more = kept := Option.some.inj (ok.inj same)
        rw [eraseP_cons_of_neg (by rw [own, here]; exact Bool.false_ne_true)]
        exact (ih further).cons_cons e

theorem ofOthers_eq (run : ofOthers name es = .ok kept) :
    kept = es.filter fun e => !(e.getOrNull "project_name" == name) := by
  have decides : ∀ e ∈ es, (do return !((← e.fieldD "project_name" .null) == name) : Except Fault Bool) =
      .ok (!(e.getOrNull "project_name" == name)) := by
    intro e member
    obtain ⟨kept, here⟩ := ok_of_filterM run e member
    obtain ⟨v, read, rest⟩ := ok_of_bind here
    rw [read, Value.getOrNull_of_fieldD read]
    rfl
  exact ok.inj (run.symm.trans (filterM_of_ok decides))

theorem Edit.Makes.keeps (makes : e.Makes es kept) : (e.untouched es).Sublist kept := by
  cases e with
  | record _ _ =>
    obtain ⟨i, rfl⟩ := makes
    exact sublist_append_left es _
  | setThumbnail _ _ | clearThumbnail _ => exact untouched_of_changeFirst makes.choose_spec
  | removeProject _ =>
    rw [ofOthers_eq makes.1]
    exact Sublist.refl _

theorem Edit.record_of_makes_nil (makes : e.Makes [] kept) : e.isRecord ∧ ∃ i : Insight, kept = [i.toValue] := by
  cases e with
  | record _ _ => exact ⟨rfl, makes⟩
  | setThumbnail _ _ | clearThumbnail _ => cases makes.choose_spec
  | removeProject _ => exact absurd makes.2 (Nat.not_lt_zero _)

/-! ## What a call does -/

/-- A look at the disk that finds these entries and changes nothing. -/
def Finds (d : Disk) (look : Action (List Value)) (es : List Value) : Prop :=
  ∀ w : Workspace, w.disk = d → look.outcome w = (.ok es, w)

/-- A call that returned found nothing to do, or it stored what it made of the entries that it saw. -/
def Done (e : Edit) (file : Path) (es : List Value) (w w' : Workspace) : Prop :=
  e.isRecord = false ∧ w'.disk = w.disk ∨
  ∃ kept w₁, e.Makes es kept ∧ w₁.disk = w.disk ∧ (store file kept).outcome w₁ = (.ok (), w')

section

variable (finds : Finds w.disk look es)

include finds

theorem stored_of_named {dr : Draft} (ran : (finish look file note dr id).outcome w = (.ok i, w')) :
    (store file (es ++ [i.toValue])).outcome w = (.ok (), w') := by
  rw [finish, bind_of_ok (outcome_now w)] at ran
  obtain ⟨made, -, ran⟩ := step_of_lift ran
  rw [add, bind_of_ok (finds w rfl)] at ran
  obtain ⟨_, w₂, stored, ran⟩ := steps_of_bind ran
  cases ran
  exact stored

theorem done_record {analysis : Value} (ran : (recordAfter look file analysis note).outcome w = (.ok i, w')) :
    Done (.record analysis note) file es w w' := by
  rw [recordAfter_eq] at ran
  obtain ⟨dr, -, ran⟩ := step_of_lift ran
  obtain ⟨id, w₂, identified, ran⟩ := steps_of_bind ran
  obtain ⟨_, issued, same⟩ := outcome_identifier note w
  cases identified.symm.trans (same w.disk)
  exact .inr ⟨_, { w with issued := issued }, ⟨i, rfl⟩, rfl, stored_of_named finds ran⟩

theorem done_change {id : Value} {b : Bool} (ran : (changeAfter look file id step).outcome w = (.ok b, w')) :
    w' = w ∨ ∃ kept, changeFirst? id step es = .ok (some kept) ∧ (store file kept).outcome w = (.ok (), w') := by
  rw [changeAfter, bind_of_ok (finds w rfl)] at ran
  obtain ⟨found, changed, ran⟩ := step_of_lift ran
  cases found with
  | none =>
    cases ran
    exact .inl rfl
  | some kept =>
    obtain ⟨_, w₂, stored, ran⟩ := steps_of_bind ran
    cases ran
    exact .inr ⟨kept, changed, stored⟩

theorem done_remove {n : Nat}
    (ran : (removeProjectAfter look file name).outcome w = (.ok n, w')) : Done (.removeProject name) file es w w' := by
  rw [removeProjectAfter, bind_of_ok (finds w rfl)] at ran
  obtain ⟨kept, chosen, ran⟩ := step_of_lift ran
  dsimp only at ran
  split at ran
  · obtain ⟨_, w₂, stored, ran⟩ := steps_of_bind ran
    cases ran
    exact .inr ⟨kept, w, ⟨chosen, by omega⟩, rfl, stored⟩
  · cases ran
    exact .inl ⟨rfl, rfl⟩

end

theorem ok_of_discard {α : Type} {a : Action α} (ran : (discard a).outcome w = (.ok (), w')) :
    ∃ x, a.outcome w = (.ok x, w') := by
  rw [outcome_discard] at ran
  rcases done : a.outcome w with ⟨o, w₁⟩
  rw [done] at ran
  cases o with
  | error f => cases ran
  | ok x =>
    cases ran
    exact ⟨x, rfl⟩

theorem done_of_ok (finds : Finds w.disk look es) (ran : (e.after look file).outcome w = (.ok (), w')) :
    Done e file es w w' := by
  have changes {id : Value} {step : Value → Value} {b : Bool} {e : Edit} (other : e.isRecord = false)
      (makes : ∀ kept, changeFirst? id step es = .ok (some kept) → e.Makes es kept)
      (ran : (changeAfter look file id step).outcome w = (.ok b, w')) : Done e file es w w' := by
    rcases done_change finds ran with rfl | ⟨kept, changed, stored⟩
    · exact .inl ⟨other, rfl⟩
    · exact .inr ⟨kept, w, makes kept changed, rfl, stored⟩
  cases e with
  | record analysis note =>
    obtain ⟨i, ran⟩ := ok_of_discard ran
    exact done_record finds ran
  | setThumbnail id picture =>
    obtain ⟨b, ran⟩ := ok_of_discard ran
    rw [setThumbnailAfter, bind_of_ok (outcome_now w)] at ran
    obtain ⟨current, -, ran⟩ := step_of_lift ran
    exact changes rfl (fun kept changed => ⟨_, changed⟩) ran
  | clearThumbnail id =>
    obtain ⟨b, ran⟩ := ok_of_discard ran
    exact changes rfl (fun kept changed => ⟨_, changed⟩) ran
  | removeProject name =>
    obtain ⟨n, ran⟩ := ok_of_discard ran
    exact done_remove finds ran

/-! ## What the log holds afterwards -/

theorem document_of_stored (rooted : (w.disk.absolute file).isAbsolute)
    (stored : (store file es).outcome w = (.ok (), w')) : w'.disk.document file = .ok (.list es) := by
  obtain ⟨d, d', made, written, rfl⟩ := stored_of_ok stored
  have frame := Disk.frame_makeDirs made
  exact Disk.document_of_file (Disk.file_of_written (by rwa [frame.absolute]) written) rfl

theorem finds_entries {d : Disk} (read : d.document file = .ok (.list es)) : Finds d (entries file) es := by
  rintro w rfl
  have asks : (ask (·.exists? file)).outcome w = (.ok true, w) :=
    congrArg (·, w) (exists?_of_document read)
  rw [entries, bind_of_ok asks]
  show (disk >>= _).outcome w = _
  rw [bind_of_ok (outcome_disk w), read]
  rfl

theorem finds_list (d : Disk) (file : Path) (es : List Value) : Finds d (entriesOf file (.ok (.list es))) es :=
  fun _ _ => rfl

/-- A log that the system does not let us read is taken for empty. -/
theorem finds_nothing (d : Disk) (file : Path) {f : Fault} (system : f.cause.isSystem) :
    Finds d (entriesOf file (.error f)) [] := by
  intro w _
  have other : ¬ (f.cause == .malformed) := by
    intro malformed
    rw [eq_of_beq malformed] at system
    cases system
  rw [entriesOf, if_neg other, if_pos system]
  rfl

section

variable (rooted : (w.disk.absolute file).isAbsolute) (held : w.disk.document file = .ok (.list es))

include rooted held

theorem kept_of_done (done : Done e file es w w') :
    ∃ kept, w'.disk.document file = .ok (.list kept) ∧ (e.untouched es).Sublist kept := by
  rcases done with ⟨-, same⟩ | ⟨kept, w₁, makes, same, stored⟩
  · exact ⟨es, by rw [same, held], e.untouched_sublist es⟩
  · exact ⟨kept, document_of_stored (by rwa [same]) stored, makes.keeps⟩

/-- After a call that saw none of the entries, all are there or the one that was recorded is there alone. -/
theorem lost_of_done (done : Done e file [] w w') : e.isRecord = false ∧ w'.disk.document file = .ok (.list es) ∨
    e.isRecord ∧ ∃ i : Insight, w'.disk.document file = .ok (.list [i.toValue]) := by
  rcases done with ⟨other, same⟩ | ⟨kept, w₁, makes, same, stored⟩
  · exact .inl ⟨other, by rw [same, held]⟩
  · obtain ⟨record, i, rfl⟩ := Edit.record_of_makes_nil makes
    exact .inr ⟨record, i, document_of_stored (by rwa [same]) stored⟩

end

/-- A log that holds entries, and a call that returns.  As the disk is, the entries that the call was not asked to
change are in the log afterwards, unchanged and in order; and so they are whatever reading the log came to, except
where the system refused to read it and the call was to record.  Then the log holds the recorded entry alone, and what
it held before is lost. -/
theorem entries_kept_unless_recorded_unread (e : Edit) (file : Path) (w : Workspace) (es : List Value)
    (rooted : (w.disk.absolute file).isAbsolute) (held : w.disk.document file = .ok (.list es)) :
    (∀ w', (e.run file).outcome w = (.ok (), w') →
      ∃ kept, w'.disk.document file = .ok (.list kept) ∧ (e.untouched es).Sublist kept) ∧
    (∀ w', (e.after (entriesOf file (.ok (.list es))) file).outcome w = (.ok (), w') →
      ∃ kept, w'.disk.document file = .ok (.list kept) ∧ (e.untouched es).Sublist kept) ∧
    ∀ f w', f.cause.isSystem = true → (e.after (entriesOf file (.error f)) file).outcome w = (.ok (), w') →
      e.isRecord = false ∧ w'.disk.document file = .ok (.list es) ∨
      e.isRecord = true ∧ ∃ i : Insight, w'.disk.document file = .ok (.list [i.toValue]) ∧
        ((e.untouched es).Sublist [i.toValue] ↔ es = [] ∨ es = [i.toValue]) := by
  refine ⟨fun w' ran => ?_, fun w' ran => ?_, fun f w' system ran => ?_⟩
  · rw [e.run_eq_after] at ran
    exact kept_of_done rooted held (done_of_ok (finds_entries held) ran)
  · exact kept_of_done rooted held (done_of_ok (finds_list w.disk file es) ran)
  · rcases lost_of_done rooted held (done_of_ok (finds_nothing w.disk file system) ran) with
      ⟨other, same⟩ | ⟨record, i, alone⟩
    · exact .inl ⟨other, same⟩
    · refine .inr ⟨record, i, alone, ?_⟩
      cases e with
      | record _ _ => exact List.sublist_singleton
      | setThumbnail _ _ => cases record
      | clearThumbnail _ => cases record
      | removeProject _ => cases record

def oneEntry : Workspace :=
  { (default : Workspace) with
    disk := ⟨.dir [("log.json", .file ⟨.document .pretty (.list [.object [("id", .text "old")]]), default, 0⟩)],
      ⟨"/", []⟩, "user", 0⟩ }

def logFile : Path := ⟨"/", ["log.json"]⟩

def recording : Edit := .record (.object []) { id := some "new", analyzedAt := some ⟨0, some 0⟩ }

def identifiers (v : Value) : List String := v.itemsOrEmpty.map fun e => (e.getOrNull "id").textOrEmpty

/-- The log can be written but not read: the old entry is gone, and the call returns. -/
theorem old_entry_lost :
    ((recording.after (entriesOf logFile (.error (.met .denied "Permission denied"))) logFile).outcome
      oneEntry).1.isOk = true ∧
    (((recording.after (entriesOf logFile (.error (.met .denied "Permission denied"))) logFile).outcome
      oneEntry).2.disk.document logFile).toOption.map identifiers = some ["new"] ∧
    ¬ ∃ kept, ((recording.after (entriesOf logFile (.error (.met .denied "Permission denied"))) logFile).outcome
        oneEntry).2.disk.document logFile = .ok (.list kept) ∧
      (recording.untouched [.object [("id", .text "old")]]).Sublist kept := by
  have left : (((recording.after (entriesOf logFile (.error (.met .denied "Permission denied"))) logFile).outcome
      oneEntry).2.disk.document logFile).toOption.map identifiers = some ["new"] := by decide
  refine ⟨by decide, left, ?_⟩
  rintro ⟨kept, read, within⟩
  rw [read] at left
  have names : kept.map (fun e => (e.getOrNull "id").textOrEmpty) = ["new"] := Option.some.inj left
  have among := within.map fun e => (e.getOrNull "id").textOrEmpty
  rw [names] at among
  exact absurd among (by decide)

/-- Where the log can be read, the old entry stays. -/
theorem old_entry_kept :
    oneEntry.disk.document logFile = .ok (.list [.object [("id", .text "old")]]) ∧
    ∃ w' kept, (recording.run logFile).outcome oneEntry = (.ok (), w') ∧
      w'.disk.document logFile = .ok (.list kept) ∧ [.object [("id", .text "old")]].Sublist kept := by
  have fine : ((recording.run logFile).outcome oneEntry).1.isOk = true := by decide
  obtain ⟨_, w', ran⟩ := Action.ok_of_isOk fine
  obtain ⟨kept, read, within⟩ :=
    (entries_kept_unless_recorded_unread recording logFile oneEntry _ (by decide) rfl).1 w' ran
  exact ⟨rfl, w', kept, ran, read, within⟩

end Folio.Insight.Log

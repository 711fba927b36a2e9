/-
# Proofs.Api.Truth -- whether an answer tells what was done

A request to add, change or remove something should be turned down exactly if nothing was done (`Truthful`).  The answer
is found in the words of what is told, and these quote the client: an entry named "not found" is removed and reported as
missing.  `truthful_iff` says for which requests the answer is right.
-/
import Folio.Proofs.Api.Batches

namespace Folio.Api.Entries

open List Or

open Cv (Kind Document Editing Edit Edited Part Outcome Reply Current)
open Cv.Editing (fileOf)
open Documents (Loads)
open Text (Has)

variable {a : Except Fault Value} {done : Prop} {e : Value} {f : Fault} {kind : Kind} {r : Request}
  {v : Reply}

/-! ## What is told -/

/-- The value that is quoted where nothing was done. -/
def quoted : Reply → Option Value
  | .outcome _ (.taken v) | .outcome _ (.absent v) | .outcome _ (.badField v) => some v
  | _ => none

theorem text_outcome (p : Part) (o : Outcome) : (Reply.outcome p o).text?.getD "" = o.message p := rfl

theorem success_of_absent_iff (p : Part) (name : Value) :
    Has (Outcome.message p (.absent name)) "successfully" ↔ Has name.shown "successfully" := by
  refine Text.has_quoting_iff (by decide) rfl ?_ (by decide)
  cases p <;> decide

theorem success_of_badField_iff (p : Part) (field : Value) :
    Has (Outcome.message p (.badField field)) "successfully" ↔ Has field.shown "successfully" := by
  refine Text.has_quoting_iff (a := "Invalid field ") (b := ". Valid: " ++ Text.join ", " p.editable) (by decide) ?_
    (by decide) ?_
  · rw [← String.append_assoc]
    rfl
  · cases p <;> decide +kernel

variable (name : Value)

theorem success_of_taken_iff :
    Has (Outcome.message .connections (.taken name)) "successfully" ↔ Has name.shown "successfully" :=
  Text.has_quoting_iff (by decide) rfl (by decide) (by decide)

theorem second_of_added_iff :
    Has (Outcome.message .awards (.added name)) "already exists" ↔ Has name.shown "already exists" := by
  refine Text.has_quoting_iff (a := "Successfully added award ") (b := "") (by decide) ?_ (by decide) (by decide)
  rw [String.append_empty]
  rfl

/-- The words by which an entry counts as missing. -/
def TellsMissing (p : Part) (text : String) : Prop := Has text "not found" ∨ Has text (noneLeft p)

instance (p : Part) (text : String) : Decidable (TellsMissing p text) :=
  inferInstanceAs (Decidable (Has text "not found" ∨ Has text (noneLeft p)))

theorem missing_of_nothing (p : Part) : TellsMissing p (Outcome.message p (.nothingTo "delete")) := by
  cases p <;> decide

def NamesRemoved (p : Part) : Prop := p = .projects ∨ p = .awards

theorem has_deleted_iff (name words : String) (free : ¬ Has "Successfully deleted: " words)
    (apart : ∀ t ∈ (Text.small "Successfully deleted: ".toList).tails, t ≠ [] → ¬ t <+: words.toList) :
    Has ("Successfully deleted: " ++ name) words ↔ Has name words := by
  rw [Text.has_append_apart apart]
  simp [free]

theorem missing_of_removed_iff {p : Part} (other : p ≠ .connections) :
    TellsMissing p (Outcome.message p (.removed name)) ↔ NamesRemoved p ∧ TellsMissing p name.shown := by
  have found := has_deleted_iff name.shown "not found" (by decide) (by decide)
  cases p with
  | projects | awards =>
    refine Iff.trans (or_congr found ?_) (and_iff_right (by simp [NamesRemoved])).symm
    exact has_deleted_iff name.shown (noneLeft _) (by decide) (by decide)
  | connections => exact absurd rfl other
  | experience | education | skills =>
    -- Only projects and awards are named; the other answers are always the same.
    refine iff_of_false ?_ fun named => by simp [NamesRemoved] at named
    dsimp only [Outcome.message, Outcome.removedMessage]
    decide

/-! ## What is done -/

/-- An edit by which something is added, removed or assigned. -/
def TakesEffect (d : Document) (x : Edit) : Prop :=
  (∃ ed, d.apply x = .ok ed ∧ ed.changed) ∧ ∀ fields, x = .contact fields → Document.contactTexts fields ≠ []

def Rejected (a : Except Fault Value) : Prop := ∃ f, a = .error f ∧ f.IsRejection

/-- A request is turned down exactly if nothing was done. -/
def Truthful (done : Prop) (a : Except Fault Value) : Prop := Rejected a ↔ ¬ done

/-- The file holds the record of the edited document.  If nothing was done, it holds what it held; a contact
that says nothing is saved all the same, as it was loaded. -/
def KeepsBooks (d : Document) (x : Edit) (before after : Except Fault Value) : Prop :=
  (TakesEffect d x → ∃ ed, d.apply x = .ok ed ∧ after = .ok ed.document.data) ∧
    (¬ TakesEffect d x → after = before ∨ (∃ fields, x = .contact fields) ∧ after = .ok d.data)

/-- An edit ends in a fault, and not because it chooses a theme that is none. -/
def BreaksOff (d : Document) (x : Edit) : Prop :=
  ∃ f, d.verdict x = .error f ∧ ¬ ((∃ name, x = .theme name) ∧ f.cause = .badValue)

@[simp] theorem rejected_ok (v : Value) : ¬ Rejected (.ok v) := nofun

@[simp] theorem rejected_reject (n : Nat) (text : String) : Rejected (.error (.reject n text)) :=
  ⟨_, rfl, n, rfl⟩

variable {d : Document} {w : Workspace} {x : Edit} {ed : Edited} {file : Path}

theorem rejected_ite {c : Prop} [Decidable c] (a b : Except Fault Value) :
    Rejected (if c then a else b) ↔ c ∧ Rejected a ∨ ¬ c ∧ Rejected b := by
  by_cases holds : c <;> simp [holds]

theorem truthful_of_done (made : done) : Truthful done a ↔ ¬ Rejected a := by
  simp [Truthful, made]

theorem truthful_of_idle (idle : ¬ done) : Truthful done a ↔ Rejected a := by
  simp [Truthful, idle]

theorem truthful_of_rejected (idle : ¬ done) (rejected : Rejected a) (misled : Prop) :
    Truthful done a ↔ ¬ (done ∧ misled) :=
  iff_of_true ((truthful_of_idle idle).2 rejected) fun both => idle both.1

theorem rejected_error (f : Fault) : Rejected (.error f) ↔ f.IsRejection := by
  constructor
  · rintro ⟨g, same, rejection⟩
    cases same
    exact rejection
  · intro rejection
    exact ⟨f, rfl, rejection⟩

theorem takesEffect_iff (applied : d.apply x = .ok ed) (other : ∀ fields, x ≠ .contact fields) :
    TakesEffect d x ↔ ed.changed := by
  constructor
  · rintro ⟨⟨ed', same, changed⟩, -⟩
    rw [applied] at same
    cases same
    exact changed
  · intro changed
    exact ⟨⟨ed, applied, changed⟩, fun fields same => absurd same (other fields)⟩

theorem not_breaksOff (told : d.verdict x = .ok v) : ¬ BreaksOff d x := by
  rintro ⟨f, broken, -⟩
  rw [told] at broken
  cases broken

section Loaded

variable (current : Current d w file) (kept : ∀ n, x ≠ .removeSection n)

include current kept

theorem fault_of_verdict (told : d.verdict x = .error f) : ¬ TakesEffect d x ∧ ¬ f.IsRejection := by
  have faithful := current.faithful
  refine ⟨?_, Document.unrejected_verdict faithful.live faithful.record kept f told⟩
  rintro ⟨⟨ed, applied, changed⟩, -⟩
  have account := Document.account_of_apply faithful.live faithful.record kept applied
  rw [Document.verdict, applied] at told
  have fine := account.ending changed
  rw [show (Except.ok ed).bind (·.reply.ending) = ed.reply.ending from rfl, fine] at told
  cases told

theorem account_of_verdict (told : d.verdict x = .ok v) :
    ∃ ed, d.apply x = .ok ed ∧ ed.reply = v ∧ Document.Account d x ed := by
  have faithful := current.faithful
  cases applied : d.apply x with
  | error f =>
    rw [Document.verdict, applied] at told
    cases told
  | ok ed =>
    have account := Document.account_of_apply faithful.live faithful.record kept applied
    refine ⟨ed, rfl, ?_, account⟩
    rw [Document.verdict, applied] at told
    cases account with
    | broken => cases told
    | _ =>
      cases told
      rfl

omit kept in
theorem data_of_silent_contact {fields : Fields} (applied : d.apply (.contact fields) = .ok ed)
    (silent : Document.contactTexts fields = []) : ed.document.data = d.data := by
  obtain ⟨-, -, run⟩ := Action.ok_of_bind (show d.editContact fields = .ok ed from applied)
  simp only [silent, isEmpty_nil, Bool.not_true, Bool.false_and, Bool.false_eq_true, if_false, foldl_nil] at run
  cases run
  exact Value.set_getOrNull current.faithful.record.header

theorem keepsBooks : KeepsBooks d x (w.disk.record file) (((Cv.Editing.edit x).outcome (d, w)).2.2.disk.record file) := by
  have ends := current.ends kept
  generalize ((Cv.Editing.edit x).outcome (d, w)).1 = result at ends
  generalize ((Cv.Editing.edit x).outcome (d, w)).2 = s at ends
  cases ends with
  | failed _ _ unsaved =>
    refine ⟨?_, fun _ => inl rfl⟩
    rintro ⟨⟨ed, applied, changed⟩, -⟩
    rw [unsaved ed applied] at changed
    cases changed
  | kept _ applied =>
    refine ⟨?_, fun _ => inl rfl⟩
    rintro ⟨⟨ed, applied', changed⟩, -⟩
    rw [applied] at applied'
    cases applied'
    cases changed
  | saved _ applied changed _ written =>
    refine ⟨fun _ => ⟨_, applied, written⟩, fun idle => inr ?_⟩
    obtain ⟨fields, rfl, silent⟩ : ∃ fields, x = .contact fields ∧ Document.contactTexts fields = [] := by
      by_contra other
      exact idle ⟨⟨_, applied, changed⟩, fun fields same silent => other ⟨fields, same, silent⟩⟩
    refine ⟨⟨fields, rfl⟩, written.trans ?_⟩
    rw [data_of_silent_contact current applied silent]

theorem truthful_verdict_iff (theme : ∀ name, x ≠ .theme name) {reply : String → Except Fault Value} {misled : Prop}
    (each : ∀ ed, d.apply x = .ok ed → d.verdict x = .ok ed.reply → Document.Account d x ed →
      (Truthful (TakesEffect d x) (reply (ed.reply.text?.getD "")) ↔ ¬ (TakesEffect d x ∧ misled))) :
    Truthful (TakesEffect d x) ((d.verdict x).bind fun v => reply (v.text?.getD "")) ↔
      ¬ BreaksOff d x ∧ ¬ (TakesEffect d x ∧ misled) := by
  cases told : d.verdict x with
  | error f =>
    obtain ⟨idle, plain⟩ := fault_of_verdict current kept told
    refine iff_of_false ?_ fun fine => fine.1 ⟨f, told, fun chosen => ?_⟩
    · rw [truthful_of_idle idle]
      exact mt (rejected_error f).1 plain
    · obtain ⟨⟨name, same⟩, -⟩ := chosen
      exact theme name same
  | ok v =>
    obtain ⟨ed, applied, rfl, account⟩ := account_of_verdict current kept told
    rw [and_iff_right (not_breaksOff told)]
    exact each ed applied told account

end Loaded

/-! ## Removing an entry -/

def removalAnswer (p : Part) (text : String) : Except Fault Value :=
  if tells text "not found" || tells text (noneLeft p) then .error (.reject 404 text) else .ok (status text)

theorem rejected_removalAnswer (p : Part) (text : String) : Rejected (removalAnswer p text) ↔ TellsMissing p text := by
  have basic : Text.Basic (noneLeft p) := by cases p <;> decide
  rw [removalAnswer, rejected_ite, Bool.or_eq_true, tells_iff (by decide), tells_iff basic, TellsMissing]
  simp

theorem removal_truthful_iff (current : Current d w file) {p : Part} (other : p ≠ .connections) (name : String) :
    Truthful (TakesEffect d (.remove p (.text name)))
        ((d.verdict (.remove p (.text name))).bind fun v => removalAnswer p (v.text?.getD "")) ↔
      ¬ BreaksOff d (.remove p (.text name)) ∧
        ¬ (TakesEffect d (.remove p (.text name)) ∧ NamesRemoved p ∧ TellsMissing p name) := by
  refine truthful_verdict_iff (x := .remove p (.text name)) current nofun nofun fun ed applied _ account => ?_
  have effect := takesEffect_iff applied nofun
  cases account with
  | removed =>
    have done := effect.2 rfl
    rw [truthful_of_done done, and_iff_right done, rejected_removalAnswer]
    exact not_congr (missing_of_removed_iff (.text name) other)
  | absentToRemove =>
    exact truthful_of_rejected (mt effect.1 Bool.false_ne_true) ((rejected_removalAnswer _ _).2
      (inl (Text.Has.append_right (by decide) _))) _
  | noneToRemove =>
    exact truthful_of_rejected (mt effect.1 Bool.false_ne_true) ((rejected_removalAnswer _ _).2 (missing_of_nothing _)) _

/-! ## Adding an award -/

def awardAnswer (text : String) : Except Fault Value :=
  if tells text "already exists" then .error (.reject 409 text)
  else if tells text "successfully" then .ok (status text) else .error (.reject 400 text)

theorem rejected_awardAnswer (text : String) :
    Rejected (awardAnswer text) ↔ Has text "already exists" ∨ ¬ Has text "successfully" := by
  rw [awardAnswer, rejected_ite, rejected_ite, tells_iff (by decide), tells_iff (by decide)]
  simp only [rejected_reject, rejected_ok]
  tauto

theorem rejected_blank_award : Rejected (awardAnswer (Outcome.message .awards .blankName)) := by
  have silent : ¬ Has (Outcome.message .awards .blankName) "successfully" := by decide
  exact (rejected_awardAnswer _).2 (inr silent)

theorem rejected_added_award_iff :
    Rejected (awardAnswer (Outcome.message .awards (.added name))) ↔ Has name.shown "already exists" := by
  rw [rejected_awardAnswer]
  have success : Has (Outcome.message .awards (.added name)) "successfully" := has_added .awards name
  simp only [success, not_true_eq_false, or_false]
  exact second_of_added_iff name

theorem award_truthful_iff (current : Current d w file) {given : Fields} {name : Value}
    (named : Fields.get? given "name" = some name) : Truthful (TakesEffect d (.add .awards given))
        ((d.verdict (.add .awards given)).bind fun v => awardAnswer (v.text?.getD "")) ↔
      ¬ BreaksOff d (.add .awards given) ∧
        ¬ (TakesEffect d (.add .awards given) ∧ Has name.shown "already exists") := by
  refine truthful_verdict_iff (x := .add .awards given) current nofun nofun fun ed applied told account => ?_
  have effect := takesEffect_iff applied nofun
  cases account with
  | added named' =>
    have done := effect.2 rfl
    obtain rfl : name = .text _ := Option.some.inj (named.symm.trans named')
    rw [truthful_of_done done, and_iff_right done, text_outcome, rejected_added_award_iff]
    rfl
  | blank =>
    exact truthful_of_rejected (mt effect.1 Bool.false_ne_true) rejected_blank_award _
  | taken =>
    exact truthful_of_rejected (mt effect.1 Bool.false_ne_true) ((rejected_awardAnswer _).2
      (inl (Text.Has.append_right (by decide) _))) _
  | broken =>
    rw [Document.verdict, applied] at told
    cases told

/-! ## Changing a document -/

/-- An edit that is answered as done whether it was or not: a contact, or words that quote a success. -/
def Oversold (d : Document) (x : Edit) : Prop :=
  ∃ v, d.verdict x = .ok v ∧
    ((∃ fields, x = .contact fields) ∨ ∃ q, quoted v = some q ∧ Has q.shown "successfully")

def soleAnswer (a : Except Fault String) : Except Fault Value := a.map fun t => results [.text t]

theorem rejected_soleAnswer_checked (text : String) :
    Rejected (soleAnswer (checked text)) ↔ ¬ Has text "successfully" := by
  rw [checked, apply_ite soleAnswer, rejected_ite, tells_iff (by decide)]
  simp [soleAnswer, Except.map]

theorem rejection_themed_iff (plain : ¬ f.IsRejection) : (themed f).IsRejection ↔ f.cause = .badValue := by
  unfold themed
  by_cases bad : f.cause = .badValue
  · rw [if_pos (beq_iff_eq.2 bad)]
    exact iff_of_true ⟨400, rfl⟩ bad
  · rw [if_neg (mt beq_iff_eq.1 bad)]
    exact iff_of_false plain bad

theorem rejected_fault_iff (plain : ¬ f.IsRejection) (field : String) (x : Edit) :
    Rejected (soleAnswer (answer field x (.error f))) ↔ (∃ name, x = .theme name) ∧ f.cause = .badValue := by
  cases x with
  | theme name =>
    refine (rejected_error (themed f)).trans ((rejection_themed_iff plain).trans ?_)
    exact (and_iff_right ⟨name, rfl⟩).symm
  | _ => exact iff_of_false (mt (rejected_error f).1 plain) nofun

theorem silent_of_nothing (p : Part) {verb : String} (known : verb ∈ ["modify", "delete", "clear"]) :
    ¬ Has (Outcome.message p (.nothingTo verb)) "successfully" := by
  simp only [mem_cons, not_mem_nil, or_false] at known
  rcases known with rfl | rfl | rfl <;> cases p <;> decide

theorem answer_outcome (field : String) (p : Part) (o : Outcome) (contact : ∀ fields, x ≠ .contact fields)
    (theme : ∀ name, x ≠ .theme name) : answer field x (.ok (.outcome p o)) = checked (o.message p) := by
  cases x with
  | contact fields => exact absurd rfl (contact fields)
  | theme name => exact absurd rfl (theme name)
  | _ => simp [answer, Except.bind, text_outcome]

section Idle

variable {p : Part} {o : Outcome} (told : d.verdict x = .ok (.outcome p o)) (contact : ∀ fields, x ≠ .contact fields)
  (theme : ∀ name, x ≠ .theme name) (field : String)

include told contact theme

theorem rejected_outcome_iff (words : Has (o.message p) "successfully" ↔
    ∃ q, quoted (.outcome p o) = some q ∧ Has q.shown "successfully") :
    Rejected (soleAnswer (answer field x (.ok (.outcome p o)))) ↔ ¬ Oversold d x := by
  rw [answer_outcome field p o contact theme, rejected_soleAnswer_checked, words]
  refine not_congr ⟨fun success => ⟨_, told, inr success⟩, ?_⟩
  rintro ⟨v, told', ⟨fields, same⟩ | success⟩
  · exact absurd same (contact fields)
  · rw [told] at told'
    cases told'
    exact success

theorem rejected_of_silent (quote : quoted (.outcome p o) = none) (words : ¬ Has (o.message p) "successfully") :
    Rejected (soleAnswer (answer field x (.ok (.outcome p o)))) ↔ ¬ Oversold d x :=
  rejected_outcome_iff told contact theme field (iff_of_false words (by simp [quote]))

end Idle

/-- An edit is answered truthfully unless it breaks off, or it is answered as done and was not. -/
theorem edit_truthful_iff (current : Current d w file) (asked : meant kind d e = .ok x) (field : String) :
    Truthful (TakesEffect d x) (soleAnswer (answer field x (d.verdict x))) ↔
      ¬ BreaksOff d x ∧ ¬ (¬ TakesEffect d x ∧ Oversold d x) := by
  have kept := meant_keeps asked
  cases told : d.verdict x with
  | error f =>
    obtain ⟨idle, plain⟩ := fault_of_verdict current kept told
    have unsold : ¬ Oversold d x := by
      rintro ⟨v, fine, -⟩
      rw [told] at fine
      cases fine
    rw [truthful_of_idle idle, and_iff_left fun both => unsold both.2, rejected_fault_iff plain]
    simp only [BreaksOff, told, Except.error.injEq, exists_eq_left', not_not]
  | ok v =>
    obtain ⟨ed, applied, rfl, account⟩ := account_of_verdict current kept told
    rw [and_iff_right (not_breaksOff told)]
    by_cases done : TakesEffect d x
    · obtain ⟨ed', same, changed⟩ := done.1
      rw [applied] at same
      cases same
      obtain ⟨t, fine⟩ := answered_of_changed account changed field
      rw [truthful_of_done done, fine]
      exact iff_of_true (rejected_ok _) fun both => both.1 done
    · rw [truthful_of_idle done, and_iff_right done]
      cases account with
      | contact fields =>
        exact iff_of_false (rejected_ok _) (not_not_intro ⟨_, told, inl ⟨fields, rfl⟩⟩)
      | broken =>
        rw [Document.verdict, applied] at told
        cases told
      | blank p => exact rejected_of_silent told (by simp) (by simp) field rfl (by cases p <;> decide)
      | noneToRenew p | noneToRemove p | noneToClear p =>
        exact rejected_of_silent told (by simp) (by simp) field rfl (silent_of_nothing p (by simp))
      | taken =>
        obtain rfl : _ = Part.connections := askable_of_meant asked
        exact rejected_outcome_iff told (by simp) (by simp) field (by simpa [quoted] using success_of_taken_iff _)
      | badField p _ wrong =>
        exact rejected_outcome_iff told (by simp) (by simp) field (by simpa [quoted] using success_of_badField_iff p wrong)
      | absentToModify p name | absentToRenew p name | absentToRemove p name =>
        exact rejected_outcome_iff told (by simp) (by simp) field (by simpa [quoted] using success_of_absent_iff p name)
      | _ => exact absurd ((takesEffect_iff applied (by simp)).2 rfl) done

theorem rejection_of_meant (asked : meant kind d e = .error f) :
    f.IsRejection ∨ isKnown d (e.getOrNull "item_name").textOrEmpty = .error f := by
  unfold meant at asked
  dsimp only at asked
  split at asked
  · cases asked
  · split at asked
    · cases asked
    · cases asked
      exact inl ⟨400, rfl⟩
  · cases asked
  · cases asked
  · split at asked
    · cases asked
    · cases known : isKnown d (e.getOrNull "item_name").textOrEmpty with
      | error g =>
        rw [known] at asked
        cases asked
        exact inr rfl
      | ok b =>
        rw [known] at asked
        cases asked
  · split at asked
    · cases asked
    · cases asked
      exact inl ⟨400, rfl⟩

theorem outcome_sole_edit (loads : Loads kind (Documents.idOf kind r) w d) (sole : editsOf r = [e]) :
    (edit kind r).outcome w = match meant kind d e with
      | .error f => (.error f, w)
      | .ok x => (soleAnswer (answer (e.getOrNull "field").textOrEmpty x ((Cv.Editing.edit x).outcome (d, w)).1),
          ((Cv.Editing.edit x).outcome (d, w)).2.2) := by
  have one : ([e].mapM (editOne kind)).outcome (d, w) =
      (((editOne kind e).outcome (d, w)).1.map fun v => [v], ((editOne kind e).outcome (d, w)).2) := by
    rw [mapM_cons, Cv.Editing.outcome_bind]
    rcases (editOne kind e).outcome (d, w) with ⟨result, s⟩
    cases result <;> rfl
  rw [outcome_edit loads, sole, one, outcome_editOne]
  cases meant kind d e with
  | error f => rfl
  | ok x =>
    dsimp only [soleAnswer]
    cases answer (e.getOrNull "field").textOrEmpty x ((Cv.Editing.edit x).outcome (d, w)).1 <;> rfl

/-! ## Requests -/

/-- A request for an edit is answered truthfully unless the edit breaks off or the answer misleads, and its
file is kept in any case. -/
structure Answered (d : Document) (x : Edit) (misleads : Prop) (file : Path) (w : Workspace)
    (run : Except Fault Value × Workspace) : Prop where
  truthful : Truthful (TakesEffect d x) run.1 ↔ ¬ BreaksOff d x ∧ ¬ misleads
  books : KeepsBooks d x (w.disk.record file) (run.2.disk.record file)

theorem answered_of_reply (loads : Loads kind (Documents.idOf kind r) w d)
    (current : Current d w (fileOf w.context.home kind (Documents.idOf kind r))) (kept : ∀ n, x ≠ .removeSection n)
    {work : String → Editing Value} (reply : String → Except Fault Value)
    (replies : ∀ text s, (work text).outcome s = (reply text, s)) {misled : Prop}
    (truth : Truthful (TakesEffect d x) ((d.verdict x).bind fun v => reply (v.text?.getD "")) ↔
      ¬ BreaksOff d x ∧ ¬ misled) : Answered d x misled (fileOf w.context.home kind (Documents.idOf kind r)) w
      ((Documents.opened kind (Documents.idOf kind r) (said x >>= work)).outcome w) := by
  have run : (said x >>= work).outcome (d, w) = (((Cv.Editing.edit x).outcome (d, w)).1.bind fun v =>
      reply (v.text?.getD ""), ((Cv.Editing.edit x).outcome (d, w)).2) := by
    rw [Cv.Editing.outcome_bind, outcome_said]
    rcases (Cv.Editing.edit x).outcome (d, w) with ⟨_ | v, s⟩
    · rfl
    · exact replies _ s
  rw [Documents.outcome_opened loads, run]
  refine ⟨?_, keepsBooks current kept⟩
  rw [(current.ends kept).told]
  exact truth

/-- Which answers about a loaded document are truthful, whatever it is and whatever the names are.

* An entry that is removed is reported as missing exactly if it is a project or an award whose name has the
  words by which an entry counts as missing.
* An award that is added is turned down exactly if its name has the words "already exists".
* An edit that does nothing is reported as done exactly if it is a contact without a text, or the name or
  the field that it quotes has the word "successfully".

An edit that breaks off does nothing, and the request is not turned down either. -/
theorem truthful_iff {kind : Kind} {r : Request} (rooted : w.disk.current.isAbsolute = true)
    (loads : Loads kind (Documents.idOf kind r) w d) :
    (∀ (p : Part) (key : String), p ≠ .connections →
      Answered d (.remove p (.text (r.text key)))
        (TakesEffect d (.remove p (.text (r.text key))) ∧ NamesRemoved p ∧ TellsMissing p (r.text key))
        (fileOf w.context.home kind (Documents.idOf kind r)) w ((remove kind p key r).outcome w)) ∧
    Answered d (.add .awards (taken r.body (givenFields .awards)))
      (TakesEffect d (.add .awards (taken r.body (givenFields .awards))) ∧
        Has (r.body.getOrNull "name").shown "already exists")
      (fileOf w.context.home kind (Documents.idOf kind r)) w ((add kind .awards r).outcome w) ∧
    ∀ e, editsOf r = [e] →
      (∀ f, meant kind d e = .error f → (edit kind r).outcome w = (.error f, w) ∧
        (f.IsRejection ∨ isKnown d (e.getOrNull "item_name").textOrEmpty = .error f)) ∧
      ∀ x, meant kind d e = .ok x →
        Answered d x (¬ TakesEffect d x ∧ Oversold d x)
          (fileOf w.context.home kind (Documents.idOf kind r)) w ((edit kind r).outcome w) := by
  obtain ⟨-, current⟩ := Documents.current_of_loads rooted loads
  refine ⟨fun p key other => ?_, ?_, fun e sole => ⟨fun f asked => ?_, fun x asked => ?_⟩⟩
  · refine answered_of_reply loads current (fun _ => by simp) (removalAnswer p) (fun text s => ?_)
      (removal_truthful_iff current other _)
    unfold removalAnswer
    split <;> rfl
  · refine answered_of_reply loads current (fun _ => by simp) awardAnswer (fun text s => ?_)
      (award_truthful_iff current rfl)
    unfold awardAnswer
    cases tells text "already exists" with
    | true => rfl
    | false => cases tells text "successfully" <;> rfl
  · refine ⟨?_, rejection_of_meant asked⟩
    rw [outcome_sole_edit loads sole, asked]
  · have kept := meant_keeps asked
    rw [outcome_sole_edit loads sole, asked]
    refine ⟨?_, keepsBooks current kept⟩
    dsimp only
    rw [(current.ends kept).told]
    exact edit_truthful_iff current asked _

def withProject (name : String) : Workspace :=
  ((addOwnProject .resume ⟨.object [("id", .text "Jane Doe"), ("payload", .object [("name", .text name)])], none⟩).outcome
    Cv.madeResume.2).2

def janesDocument (w : Workspace) : Document :=
  ((Cv.Editing.load (some "Jane Doe")).outcome ({ kind := .resume }, w)).2.1

def removalRequest (name : String) : Request :=
  ⟨.object [("id", .text "Jane Doe"), ("project_name", .text name)], none⟩

def removedAgain (name : String) : Except Fault Value × Workspace :=
  (remove .resume .projects "project_name" (removalRequest name)).outcome (withProject name)

/-- A project with a plain name is removed, and the answer says so. -/
theorem apollo_removed_truthfully :
    Loads .resume "Jane Doe" (withProject "Apollo") (janesDocument (withProject "Apollo")) ∧
      TakesEffect (janesDocument (withProject "Apollo")) (.remove .projects (.text "Apollo")) ∧
      Truthful (TakesEffect (janesDocument (withProject "Apollo")) (.remove .projects (.text "Apollo")))
        (removedAgain "Apollo").1 := by
  have fine : ((Cv.Editing.load (some "Jane Doe")).outcome ({ kind := .resume }, withProject "Apollo")).1.isOk = true := by
    decide +kernel
  obtain ⟨v, s, run⟩ := Action.ok_of_isOk fine
  have loads : Loads .resume "Jane Doe" (withProject "Apollo") (janesDocument (withProject "Apollo")) := by
    rw [janesDocument, run]
    exact Documents.loads_of_ok run
  have effect : TakesEffect (janesDocument (withProject "Apollo")) (.remove .projects (.text "Apollo")) := by
    have changed : ((janesDocument (withProject "Apollo")).apply (.remove .projects (.text "Apollo"))).map
        (·.changed) = .ok true := by decide +kernel
    cases applied : (janesDocument (withProject "Apollo")).apply (.remove .projects (.text "Apollo")) with
    | error f =>
        rw [applied] at changed
        cases changed
    | ok ed =>
        rw [applied] at changed
        exact ⟨⟨ed, applied, Except.ok.inj changed⟩, nofun⟩
  have told : ((janesDocument (withProject "Apollo")).verdict (.remove .projects (.text "Apollo"))).isOk = true := by
    decide +kernel
  have whole : ¬ BreaksOff (janesDocument (withProject "Apollo")) (.remove .projects (.text "Apollo")) := by
    rintro ⟨f, broken, -⟩
    rw [broken] at told
    cases told
  have plain : ¬ TellsMissing .projects "Apollo" := by decide +kernel
  have answered := (truthful_iff (r := removalRequest "Apollo") (by decide +kernel) loads).1 .projects "project_name" nofun
  exact ⟨loads, effect, answered.truthful.2 ⟨whole, fun misled => plain misled.2.2⟩⟩

/-- A project whose name is "not found" is removed, and the answer is that it was not found. -/
theorem removed_project_reported_missing :
    (removedAgain "not found").1.map (fun _ => ()) = .error (.reject 404 "Successfully deleted: not found") ∧
      (janesDocument (withProject "not found")).count .projects = .ok 2 ∧
      (janesDocument (removedAgain "not found").2).count .projects = .ok 1 := by
  decide +kernel

end Folio.Api.Entries

/-
# Proofs.Api.Editing -- requests that edit a document

A request that edits a document loads it, edits it and answers by what was told.  A document that is loaded (`Loads`)
is current, and it is loaded again from any workspace in which it is (`loads_of_current`).  A client's edit comes down
to one edit of the document (`meant`); `outcome_editOne` says how it is answered.
-/
import Folio.Api.Entries
import Folio.Proofs.Cv.Reloading

namespace Folio.Cv.Editing

variable {s : Document × Workspace} {text : String} {v : Value} {α β : Type}

theorem outcome_tryCatch (e : Editing α) (handle : Fault → Editing α) (s : Document × Workspace) :
    (tryCatch e handle).outcome s = match e.outcome s with
      | (.ok x, s') => (.ok x, s')
      | (.error f, s') => (handle f).outcome s' := by
  simp only [tryCatch, tryCatchThe, MonadExceptOf.tryCatch, ExceptT.tryCatch, outcome]
  rw [ExceptT.run_mk, StateT.run_bind]
  cases h : StateT.run (ExceptT.run e) s with
  | mk r s' =>
    rw [show StateT.run e s = (r, s') from h]
    cases r <;> rfl

@[simp] theorem outcome_map (g : α → β) (e : Editing α) (s : Document × Workspace) :
    (g <$> e).outcome s = ((e.outcome s).1.map g, (e.outcome s).2) := by
  rw [map_eq_pure_bind, outcome_bind]
  rcases e.outcome s with ⟨r, s'⟩
  cases r <;> rfl

theorem outcome_within (d : Document) (e : Editing α) (w : Workspace) :
    (within d e).outcome w = ((e.outcome (d, w)).1, (e.outcome (d, w)).2.2) := by
  have on : (e.on d).outcome w = (.ok ((e.outcome (d, w)).1, (e.outcome (d, w)).2.1), (e.outcome (d, w)).2.2) := rfl
  rw [within, Action.bind_of_ok on]
  cases (e.outcome (d, w)).1 <;> rfl

end Folio.Cv.Editing

namespace Folio.Api.Documents

open Cv (Kind Document Editing Current)
open Cv.Editing (fileOf fileName)

variable {kind : Kind} {id : String} {w : Workspace} {d : Document}

def Loads (kind : Kind) (id : String) (w : Workspace) (d : Document) : Prop :=
  ∃ v, (Editing.load (some id)).outcome ({ kind }, w) = (.ok v, d, w)

def unread (kind : Kind) (id : String) (w : Workspace) : Document :=
  { kind, name := some (fileName id), file := some (fileOf w.context.home kind id) }

theorem outcome_load_some (some_ : id ≠ "") :
    (Editing.load (some id)).outcome ({ kind }, w) = (Editing.load none).outcome (unread kind id w, w) := by
  have given : id != "" := by simpa using some_
  unfold Editing.load
  simp only [given, if_true, Editing.outcome_bind]
  rfl

theorem record_of_load (run : (Editing.load (some id)).outcome ({ kind }, w) = (.ok v, s)) :
    id ≠ "" ∧ ∃ data, w.disk.record (fileOf w.context.home kind id) = .ok data ∧ Cv.IsRecord data ∧
      s = (Cv.ofRecord (unread kind id w) data, w) := by
  have some_ : id ≠ "" := by
    rintro rfl
    cases run
  rw [outcome_load_some some_] at run
  obtain ⟨p, data, place, read, run⟩ := Editing.loaded run
  obtain rfl : fileOf w.context.home kind id = p := Option.some.inj place
  have record := Editing.isRecord_of_takeIn run
  have taken := Editing.takeIn_again (d := unread kind id w) (w := w) record
  have same : (unread kind id w).again = unread kind id w := rfl
  rw [same, run] at taken
  exact ⟨some_, data, read, record, (Prod.mk.inj taken).2⟩

theorem some_of_loads (loads : Loads kind id w d) : id ≠ "" := by
  obtain ⟨v, run⟩ := loads
  exact (record_of_load run).1

theorem loads_of_ok (run : (Editing.load (some id)).outcome ({ kind }, w) = (.ok v, s)) : Loads kind id w s.1 := by
  obtain ⟨-, data, -, -, rfl⟩ := record_of_load run
  exact ⟨v, run⟩

theorem current_of_loads (rooted : w.disk.current.isAbsolute) (loads : Loads kind id w d) :
    d.again = unread kind id w ∧ Current d w (fileOf w.context.home kind id) := by
  obtain ⟨v, run⟩ := loads
  obtain ⟨-, data, read, record, same⟩ := record_of_load run
  obtain ⟨rfl, -⟩ := Prod.mk.inj same
  exact ⟨rfl, rfl, rooted, data, read, record, rfl⟩

theorem loads_of_current (some_ : id ≠ "") (again : d.again = unread kind id w)
    (current : Current d w (fileOf w.context.home kind id)) : Loads kind id w d := by
  obtain ⟨r, read, record, same⟩ := current.loads
  obtain ⟨f, found⟩ := Disk.file_of_record read
  have taken := Editing.takeIn_again (d := d) (w := w) record
  rw [same, again] at taken
  refine ⟨d.data, ?_⟩
  rw [outcome_load_some some_, Editing.outcome_load rfl (Disk.exists?_of_file found) read, taken]

theorem outcome_opened {α : Type} {work : Editing α} (loads : Loads kind id w d) :
    (opened kind id work).outcome w = ((work.outcome (d, w)).1, (work.outcome (d, w)).2.2) := by
  obtain ⟨v, run⟩ := loads
  have first : (rejecting (·.cause == .noSuchFile) (.reject 404 (kind.label ++ " '" ++ id ++ "' not found"))
      (discard (Editing.load (some id))) : Editing Unit).outcome ({ kind }, w) = (.ok (), d, w) := by
    rw [rejecting, Editing.outcome_tryCatch, Editing.outcome_discard, run]
    rfl
  rw [opened, Editing.outcome_within, Editing.bind_of_ok first]

end Folio.Api.Documents

namespace Folio.Api.Entries

open Cv.Editing Text

open Cv (Kind Document Editing Edit Part Reply)

/-- Whether a client who names a network means a connection that is there; without a name, it is. -/
def isKnown (d : Document) (network : String) : Except Fault Bool :=
  if network == "" then .ok true
  else (d.list .connections).bind fun v => v.elements.bind (isConnected network)

/-- The edit of a document that a client means. -/
def meant (kind : Kind) (d : Document) (e : Value) : Except Fault Edit :=
  let name := e.getOrNull "item_name"
  let field := e.getOrNull "field"
  let value := e.getOrNull "new_value"
  match lower (e.getOrNull "section").textOrEmpty with
  | "summary" => .ok (.summary (.text value.shown))
  | "contact" =>
    if contactFields.contains field.textOrEmpty then .ok (.contact [(field.textOrEmpty, value)])
    else .error (.reject 400 ("Unknown contact field '" ++ field.textOrEmpty ++ "'. Valid fields: "
      ++ join ", " contactFields))
  | "theme" => .ok (.theme (.text value.shown))
  | "skills" => .ok (.renew .skills name value)
  | "connections" =>
    if field.textOrEmpty == "delete" then .ok (.remove .connections (.text name.textOrEmpty))
    else (isKnown d name.textOrEmpty).map fun known =>
      if known then .renew .connections (.text name.textOrEmpty) (.text value.shown)
      else .add .connections [("network", .text name.textOrEmpty), ("username", .text value.shown)]
  | part =>
    match (editable kind).lookup part with
    | some p => .ok (.modify p name field value)
    | none => .error (.reject 400 ("Unknown section '" ++ part ++ "'. Valid: " ++ sectionNames kind))

/-- A fault as the client gets it: a theme that is no theme is turned down. -/
def themed (f : Fault) : Fault := if f.cause == .badValue then .wrap (.rejected 400) f.text f else f

def answer (field : String) (x : Edit) (told : Except Fault Reply) : Except Fault String :=
  match x with
  | .contact _ => told.map fun _ => "Successfully updated contact field '" ++ field ++ "'"
  | .theme _ => (told.bind fun r => checked (r.text?.getD "")).mapError themed
  | _ => told.bind fun r => checked (r.text?.getD "")

variable {kind : Kind} {d : Document} {w : Workspace}

theorem outcome_said (x : Edit) (s : Document × Workspace) :
    (said x).outcome s = (((Editing.edit x).outcome s).1.map fun r => r.text?.getD "", ((Editing.edit x).outcome s).2) := by
  rw [said, Editing.outcome_bind]
  rcases (Editing.edit x).outcome s with ⟨r, s'⟩
  cases r <;> rfl

theorem outcome_checked_said (x : Edit) (s : Document × Workspace) :
    (do checked (← said x) : Editing String).outcome s =
      (((Editing.edit x).outcome s).1.bind fun r => checked (r.text?.getD ""), ((Editing.edit x).outcome s).2) := by
  rw [outcome_bind, outcome_said]
  rcases (Editing.edit x).outcome s with ⟨r, s'⟩
  cases r <;> rfl

theorem outcome_editContact (field : String) (value : Value) : (editContact field value).outcome (d, w) =
      if contactFields.contains field then
        (answer field (.contact [(field, value)]) ((Editing.edit (.contact [(field, value)])).outcome (d, w)).1,
          ((Editing.edit (.contact [(field, value)])).outcome (d, w)).2)
      else (.error (.reject 400 ("Unknown contact field '" ++ field ++ "'. Valid fields: "
        ++ join ", " contactFields)), d, w) := by
  unfold editContact
  cases contactFields.contains field with
  | false => rfl
  | true =>
    simp only [Bool.not_true, Bool.false_eq_true, if_false, outcome_bind, outcome_discard]
    rcases (Editing.edit (.contact [(field, value)])).outcome (d, w) with ⟨r, s⟩
    cases r <;> rfl

theorem outcome_editTheme (name field : String) :
    (Documents.choosingTheme do checked (← said (.theme (.text name)))).outcome (d, w) =
      (answer field (.theme (.text name)) ((Editing.edit (.theme (.text name))).outcome (d, w)).1,
        ((Editing.edit (.theme (.text name))).outcome (d, w)).2) := by
  rw [Documents.choosingTheme, outcome_tryCatch, outcome_checked_said]
  simp only [answer]
  cases ((Editing.edit (.theme (.text name))).outcome (d, w)).1.bind fun r => checked (r.text?.getD "") with
  | error f | ok t => rfl

theorem outcome_editConnection (network field : String) (value : Value) :
    (editConnection network field value).outcome (d, w) = if field == "delete" then
        (do checked (← said (.remove .connections (.text network)))).outcome (d, w)
      else match isKnown d network with
      | .error f => (.error f, d, w)
      | .ok true => (do checked (← said (.renew .connections (.text network) (.text value.shown)))).outcome (d, w)
      | .ok false => (do checked (← said (.add .connections
          [("network", .text network), ("username", .text value.shown)]))).outcome (d, w) := by
  unfold editConnection isKnown
  split
  · rfl
  · split
    · rfl
    · simp only [outcome_bind, outcome_document, outcome_liftExcept]
      cases d.list .connections with
      | error f => rfl
      | ok v =>
        dsimp only [Except.bind]
        cases v.elements with
        | error f => rfl
        | ok xs =>
          dsimp only
          cases isConnected network xs with
          | error f => rfl
          | ok known =>
            cases known <;> simp [outcome_bind]

theorem outcome_editOne (e : Value) : (editOne kind e).outcome (d, w) = match meant kind d e with
      | .error f => (.error f, d, w)
      | .ok x => ((answer (e.getOrNull "field").textOrEmpty x ((Editing.edit x).outcome (d, w)).1).map .text,
          ((Editing.edit x).outcome (d, w)).2) := by
  unfold editOne meant
  rw [outcome_map]
  generalize lower (e.getOrNull "section").textOrEmpty = part
  split
  · rw [outcome_checked_said]
    rfl
  · simp only [outcome_editContact]
    split <;> rfl
  · exact congrArg (fun o => (o.1.map Value.text, o.2)) (outcome_editTheme _ (e.getOrNull "field").textOrEmpty)
  · rw [outcome_checked_said]
    rfl
  · simp only [outcome_editConnection]
    split
    · rw [outcome_checked_said]
      rfl
    · cases isKnown d (e.getOrNull "item_name").textOrEmpty with
      | error f => rfl
      | ok known =>
        cases known with
        | true | false =>
          dsimp only
          rw [outcome_checked_said]
          rfl
  · obtain unknown | ⟨p, known⟩ := Option.eq_none_or_eq_some ((editable kind).lookup part)
    · simp only [unknown]
      rfl
    · simp only [known, outcome_checked_said]
      rfl

/-! ## Words of success -/

theorem tells_iff {words : String} (basic : Basic words) (text : String) :
    tells text words ↔ Has text words := contains_lower basic text

theorem checked_of_has (has : Has text "successfully") : checked text = .ok text := by
  rw [checked, if_pos ((tells_iff (by decide) text).2 has)]

theorem has_append {lead : String} (has : Has lead "successfully") (rest : String)
    (same : text = lead ++ rest) : Has text "successfully" := by
  rw [same]
  exact has.append_left rest

theorem has_added (p : Part) (name : Value) : Has (Cv.Outcome.addedMessage p name) "successfully" := by
  cases p with
  | projects | awards | connections => exact has_append (by decide) _ rfl
  | experience | education | skills =>
    dsimp only [Cv.Outcome.addedMessage]
    decide

theorem has_removed (p : Part) (name : Value) : Has (Cv.Outcome.removedMessage p name) "successfully" := by
  cases p with
  | projects | awards | connections => exact has_append (by decide) _ rfl
  | experience | education | skills =>
    dsimp only [Cv.Outcome.removedMessage]
    decide

theorem has_of_tookEffect {o : Cv.Outcome} (p : Part) (effect : o.tookEffect) : Has (o.message p) "successfully" := by
  cases o with
  | added name => exact has_added p name
  | changed field => exact has_append (by decide) _ rfl
  | renewed name => cases p <;> exact has_append (by decide) _ rfl
  | removed name => exact has_removed p name
  | cleared count =>
    have lead : Has ("Successfully cleared " ++ toString count) "successfully" := has_append (by decide) _ rfl
    exact (lead.append_left " ").append_left _
  | _ => cases effect

theorem answered_of_changed {e : Edit} {x : Cv.Edited} (account : Document.Account d e x)
    (changed : x.changed) (field : String) : ∃ t, answer field e (.ok x.reply) = .ok t := by
  have outcomes {p : Part} {o : Cv.Outcome} (effect : o.tookEffect) :
      ∃ t, checked (o.message p) = .ok t := ⟨_, checked_of_has (has_of_tookEffect p effect)⟩
  cases account with
  | contact => exact ⟨_, rfl⟩
  | theme name =>
    have has : Has ("Successfully updated theme '" ++ name.shown ++ "'") "successfully" :=
      (has_append (by decide) _ rfl).append_left _
    refine ⟨"Successfully updated theme '" ++ name.shown ++ "'", ?_⟩
    simp only [answer, Except.bind, Reply.text?, Option.getD_some, checked_of_has has]
    rfl
  | summary =>
    have has : Has "Summary updated successfully" "successfully" := by decide
    exact ⟨_, checked_of_has has⟩
  | added | changed | renewed | removed | cleared =>
    simp only [answer, Except.bind, Reply.text?, Option.getD_some]
    apply outcomes
    rfl
  | _ => cases changed

end Folio.Api.Entries

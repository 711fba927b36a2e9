/-
# Proofs.Insight.Log -- what recording an analysis does to the log

`logged` reads the entries of a log from the disk.  Where the log is `Orderly` and its place is ready, recording
an analysis either adds the entry of its insight at the end, or it fails and the entries stay as they are
(`record_cases`).
-/
import Folio.Insight.Log
import Folio.Proofs.Json
import Folio.Proofs.Workspace

namespace Folio.Insight.Log

open Option Action Disk Fields Json Or Value

variable {d d' : Disk} {log base : Path} {name : String} {w : Workspace} {es : List Value}

def logged (d : Disk) (log : Path) : List Value := ((d.document log).toOption.getD .null).itemsOrEmpty

/-- A log that holds a list of JSON values, or is not there yet. -/
structure Orderly (d : Disk) (log : Path) : Prop where
  read : d.root.leaf? log.parts = none ∨ ∃ es, d.document log = .ok (.list es)
  plain : isPlainItems (logged d log)

/-! ## Reading -/

theorem logged_of_document (read : d.document log = .ok (.list es)) : logged d log = es := by
  rw [logged, read]
  rfl

theorem logged_of_leaf (linkless : d.Linkless) (linkless' : d'.Linkless) (straight : log.Straight)
    (same : d'.root.leaf? log.parts = d.root.leaf? log.parts) : logged d' log = logged d log := by
  rw [logged, document_of_leaf linkless linkless' straight same]
  rfl

theorem Orderly.of_leaf (orderly : Orderly d log) (linkless : d.Linkless) (linkless' : d'.Linkless)
    (straight : log.Straight) (same : d'.root.leaf? log.parts = d.root.leaf? log.parts) : Orderly d' log := by
  constructor
  · rcases orderly.read with nothing | ⟨es, read⟩
    · exact inl (same.trans nothing)
    · exact inr ⟨es, document_ok_of_leaf linkless linkless' straight same read⟩
  · rw [logged_of_leaf linkless linkless' straight same]
    exact orderly.plain

theorem logged_of_room (room : d.Room base name) (nothing : d.root.leaf? (base.entry name).parts = none) :
    logged d (base.entry name) = [] := by
  rw [logged, document_of_none room.linkless room.straight (room.at?_of_leaf nothing)]
  rfl

theorem outcome_entries (room : w.disk.Room base name) (orderly : Orderly w.disk (base.entry name)) :
    (entries (base.entry name)).outcome w = (.ok (logged w.disk (base.entry name)), w) := by
  rw [entries, bind_of_ok (outcome_exists room)]
  cases found : w.disk.root.at? (base.entry name).parts with
  | none =>
    rw [logged_of_room room (by simp [Node.leaf?, Node.leafOf, found])]
    rfl
  | some n =>
    rcases orderly.read with nothing | ⟨es, read⟩
    · rw [room.at?_of_leaf nothing] at found
      cases found
    · rw [logged_of_document read]
      show (disk >>= _).outcome w = _
      rw [bind_of_ok (outcome_disk w), read]
      rfl

/-! ## Storing -/

theorem outcome_store_plain (ready : w.disk.Ready base name) (plain : isPlainItems es) :
    ∃ d, (store (base.entry name) es).outcome w = (.ok (), { w with disk := d }) ∧
      w.disk.Reaches (· = (base.entry name).parts) d ∧ d.Ready base name ∧ Orderly d (base.entry name) ∧
      logged d (base.entry name) = es := by
  obtain ⟨d, written, reaches, found, ready'⟩ := ready.write (.document .pretty (.list es)) w.now
  have read : d.document (base.entry name) = .ok (.list es) := document_of_file found rfl
  have held := logged_of_document read
  refine ⟨d, ?_, reaches, ready', ⟨inr ⟨es, read⟩, held.symm ▸ plain⟩, held⟩
  rw [store, outcome_store, Path.parent_entry, ready.makeDirs]
  dsimp only
  rw [if_pos (by rw [isPlain, plain]), outcome_write, written]

theorem outcome_store_unplain (ready : w.disk.Ready base name) (unplain : isPlainItems es = false) :
    (store (base.entry name) es).outcome w = (.error unwritable, w) := by
  rw [store, outcome_store, Path.parent_entry, ready.makeDirs]
  dsimp only
  rw [if_neg (by rw [isPlain, unplain]; exact Bool.false_ne_true)]

/-! ## Recording -/

def insightOf (now : Moment) (id : String) (analysis : Value) (note : Note) : Except Fault Insight := do
  ofDraft (← draft analysis note.contributors) (.text id) (note.analyzedAt.getD now) note.label

/-- The last steps of recording: the entry of an insight is added to those that are found. -/
def add (look : Action (List Value)) (log : Path) (i : Insight) : Action Insight := do
  let es ← look
  store log (es ++ [i.toValue])
  return i

/-- What recording does once a draft has an identifier. -/
def finish (look : Action (List Value)) (log : Path) (note : Note) (dr : Draft) (id : String) : Action Insight := do
  add look log (← ofDraft dr (.text id) (note.analyzedAt.getD (← now)) note.label)

variable {analysis : Value} {note : Note}

theorem outcome_add (ready : w.disk.Ready base name) (orderly : Orderly w.disk (base.entry name)) (i : Insight) :
    ∃ w', Steady (· = (base.entry name).parts) w w' ∧ w'.disk.Ready base name ∧ Orderly w'.disk (base.entry name) ∧
      (add (entries (base.entry name)) (base.entry name) i).outcome w =
        (if isPlain i.toValue then .ok i else .error unwritable, w') ∧ logged w'.disk (base.entry name) =
        logged w.disk (base.entry name) ++ if isPlain i.toValue then [i.toValue] else [] := by
  rw [add, bind_of_ok (outcome_entries ready.room orderly)]
  have whole : isPlainItems (logged w.disk (base.entry name) ++ [i.toValue]) = isPlain i.toValue := by
    rw [isPlainItems_append, orderly.plain, isPlainItems, isPlainItems, Bool.and_true, Bool.true_and]
  cases plain : isPlain i.toValue with
  | true =>
    obtain ⟨d, stored, reaches, ready', orderly', held⟩ := outcome_store_plain ready (whole.trans plain)
    refine ⟨{ w with disk := d }, ⟨reaches, rfl, rfl, rfl⟩, ready', orderly', ?_, ?_⟩
    · rw [bind_of_ok stored]
      rfl
    · rw [held]
      rfl
  | false =>
    refine ⟨w, .refl ready.linkless, ready, orderly, ?_, ?_⟩
    · rw [outcome_bind, outcome_store_unplain ready (whole.trans plain)]
      rfl
    · rw [if_neg Bool.false_ne_true, List.append_nil]

/-- The identifier of a new insight: the one that is noted, or a fresh one. -/
def Note.identifier (note : Note) : Action String :=
  match note.id with
  | some s => if s == "" then freshId else pure s
  | none => freshId

theorem outcome_identifier (note : Note) (w : Workspace) : ∃ id issued, ∀ d,
    note.identifier.outcome { w with disk := d } = (.ok id, { w with disk := d, issued := issued }) := by
  have fresh : ∃ id issued, ∀ d, freshId.outcome { w with disk := d } =
      (.ok id, { w with disk := d, issued := issued }) :=
    ⟨hex 8 (w.issued + 1) ++ "-0000-4000-8000-000000000000", w.issued + 1, fun d => rfl⟩
  unfold Note.identifier
  split
  · split
    · exact fresh
    · exact ⟨_, w.issued, fun d => rfl⟩
  · exact fresh

theorem recordAfter_eq (look : Action (List Value)) (log : Path) (analysis : Value) (note : Note) :
    recordAfter look log analysis note =
      (do finish look log note (← draft analysis note.contributors) (← note.identifier)) := by
  unfold recordAfter Note.identifier
  cases note.id with
  | none => rfl
  | some s => cases blank : s == "" <;> simp only [blank] <;> rfl

/-- Recording makes the insight of the analysis and adds its entry.  Which insight that is does not depend on the
disk. -/
theorem outcome_record (log : Path) (analysis : Value) (note : Note) (w : Workspace) :
    ∃ id issued, ∀ d, (record log analysis note).outcome { w with disk := d } =
      match draft analysis note.contributors with
      | .error f => (.error f, { w with disk := d })
      | .ok _ =>
        match insightOf w.now id analysis note with
        | .error f => (.error f, { w with disk := d, issued := issued })
        | .ok i => (add (entries log) log i).outcome { w with disk := d, issued := issued } := by
  obtain ⟨id, issued, identified⟩ := outcome_identifier note w
  refine ⟨id, issued, fun d => ?_⟩
  rw [record, recordAfter_eq, outcome_bind, outcome_lift, insightOf]
  cases draft analysis note.contributors with
  | error f => rfl
  | ok dr =>
    dsimp only
    rw [bind_of_ok (identified d), finish, bind_of_ok (outcome_now _)]
    show _ = match ofDraft dr (.text id) (note.analyzedAt.getD w.now) note.label with | .error f => _ | .ok i => _
    cases ofDraft dr (.text id) (note.analyzedAt.getD w.now) note.label with
    | error f | ok i => rfl

/-- Recording adds the entry of the insight.  Otherwise it fails, since there is no insight or its entry cannot be
written, and the entries are the same as before. -/
theorem record_cases (ready : w.disk.Ready base name) (orderly : Orderly w.disk (base.entry name)) (analysis : Value)
    (note : Note) :
    ∃ id w', Steady (· = (base.entry name).parts) w w' ∧ w'.disk.Ready base name ∧ Orderly w'.disk (base.entry name) ∧
      ((∃ i, insightOf w.now id analysis note = .ok i ∧
          (record (base.entry name) analysis note).outcome w = (.ok i, w') ∧
          logged w'.disk (base.entry name) = logged w.disk (base.entry name) ++ [i.toValue]) ∨
        ∃ f, (record (base.entry name) analysis note).outcome w = (.error f, w') ∧
          logged w'.disk (base.entry name) = logged w.disk (base.entry name) ∧
          ∀ i, insightOf w.now id analysis note = .ok i → isPlain i.toValue = false) := by
  obtain ⟨id, issued, each⟩ := outcome_record (base.entry name) analysis note w
  refine ⟨id, ?_⟩
  rw [each w.disk]
  cases drafted : draft analysis note.contributors with
  | error f =>
    refine ⟨w, .refl ready.linkless, ready, orderly, inr ⟨f, rfl, rfl, fun i made => ?_⟩⟩
    rw [insightOf, drafted] at made
    cases made
  | ok dr =>
    cases made : insightOf w.now id analysis note with
    | error f =>
      refine ⟨{ w with issued := issued }, ⟨.refl ready.linkless, rfl, rfl, rfl⟩, ready, orderly,
        inr ⟨f, rfl, rfl, fun i made => ?_⟩⟩
      cases made
    | ok i =>
      have ready₁ : ({ w with issued := issued } : Workspace).disk.Ready base name := ready
      obtain ⟨w', steady, ready', orderly', run, held⟩ := outcome_add ready₁ orderly i
      refine ⟨w', ⟨steady.disk, steady.context, steady.temp, steady.now⟩, ready', orderly', ?_⟩
      dsimp only
      rw [run]
      cases plain : isPlain i.toValue with
      | true =>
        rw [plain] at held
        exact inl ⟨i, rfl, rfl, held⟩
      | false =>
        rw [plain, if_neg Bool.false_ne_true, List.append_nil] at held
        refine inr ⟨_, rfl, held, fun i' same => ?_⟩
        cases same
        exact plain

/-! ## The names of insights -/

variable {now : Moment} {id : String} {i : Insight}

theorem name_of_insightOf {fs resume : Fields} {name : String} (item : get? fs "resume_item" = some (.object resume))
    (given : get? resume "project_name" = some (.text name)) (some_ : name ≠ "")
    (made : insightOf now id (.object fs) note = .ok i) : i.projectName = name := by
  obtain ⟨dr, drafted, finished⟩ := ok_of_bind made
  have own : i.projectName = dr.name := by
    iterate 5 obtain ⟨_, -, finished⟩ := ok_of_bind finished
    cases finished
    rfl
  rw [own]
  have field : (object fs).fieldD "resume_item" .null = .ok (.object resume) := by
    rw [fieldD, item, getD_some]
  have named : nameOf resume ((object fs).getOrNull "project_root") = name := by
    have given' : (get? resume "project_name").getD .null = .text name := by rw [given, getD_some]
    have truthy : (text name).truthy := by simpa [truthy] using some_
    simp only [nameOf, given', truthy, if_true, orElse]
    rfl
  have opened : ((object resume).orElse (.object [])).asObject "get" = .ok resume := by
    cases resume with
    | nil => cases given
    | cons f rest => rfl
  unfold draft at drafted
  rw [field] at drafted
  simp only [bind, Except.bind, opened] at drafted
  iterate 3 obtain ⟨_, -, drafted⟩ := ok_of_bind drafted
  cases drafted
  exact named

theorem insightOf_bare {fs : Fields} {stamped : String} (time : stamp now = .ok stamped)
    (item : get? fs "resume_item" = none) (root : get? fs "project_root" = none) (tree : get? fs "hierarchy" = none)
    (span : get? fs "duration_estimate" = none) :
    ∃ i, insightOf now id (.object fs) {} = .ok i ∧ i.projectName = "unknown" ∧ isPlain i.toValue := by
  have field : (object fs).fieldD "resume_item" .null = .ok .null := by
    rw [fieldD, item, getD_none]
  have root' : (object fs).getOrNull "project_root" = .null := by
    rw [getOrNull, Value.get?, root, getD_none]
  simp only [insightOf, draft, field, root', Value.get?, tree]
  simp only [ofDraft, getD_none, time]
  refine ⟨_, rfl, ?_, ?_⟩
  · rfl
  · rfl
end Folio.Insight.Log

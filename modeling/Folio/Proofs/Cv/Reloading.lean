/-
# Proofs.Cv.Reloading -- a document in memory and the one that its file loads as

A document is `Faithful` if it is the one that its own record would be loaded as (`ofRecord`).  Edits that take effect
keep a document faithful, taking out a section apart (`Effect.faithful`).

`Current` adds the file: what is loaded from it now is the document in memory.  `Ends` lists the ways in which an edit
of such a document ends; the file is written exactly where the edit took effect.
-/
import Folio.Proofs.Cv.Coherence

namespace Folio.Cv

open Document Editing Value

open Editing (filled adopted)

variable {d' : Document} {p : Part} {x : Edited} {e : Edit}

/-! ## Loading -/

/-- Where the list of a part stands after a record was loaded. -/
def slotOf (kind : Kind) (data : Value) (p : Part) : Slot :=
  if p ∈ adopted kind then (if (listOf data p).isSome then .live else .kept (.list [])) else .kept .null

def summarySlotOf (data : Value) : Slot :=
  if ((sectionsOf data).get? "summary").isSome then .live else .kept (.list [])

def ofRecord (base : Document) (data : Value) : Document :=
  { base with
    data := filled base.name data
    sections := .live
    summary := summarySlotOf data
    slots := slotOf base.kind data }

namespace Document

variable {d : Document}

theorem keepLists_of_kept (slots : ∀ p, ∃ v, d.slots p = .kept v) (summary : ∃ v, d.summary = .kept v) :
    d.keepLists = d := by
  obtain ⟨v, summary⟩ := summary
  have same : d.keepSummary = d := by
    cases d
    simp_all [keepSummary, summaryValue]
  have kept : (fun q => if q ∈ Part.all.filter (!·.inHeader) then .kept (d.entries q) else d.slots q) = d.slots := by
    funext q
    obtain ⟨v, slot⟩ := slots q
    simp [entries, slot]
  rw [keepLists, same, foldl_keep, kept]

end Document

namespace Editing

variable {d : Document} {w : Workspace} {data : Value}

theorem takeIn_again (record : IsRecord data) :
    (takeIn data).outcome (d.again, w) = (.ok (ofRecord d.again data).data, ofRecord d.again data, w) := by
  have before : ({ d.again.keepSections with data } : Document) = { d.again with data } := by
    simp [again, keepSections, keep, setSlot, sectionsValue, entries]
  have kept (s : Slot) : ({ d.again with data, sections := s } : Document).keepLists =
      { d.again with data, sections := s } :=
    keepLists_of_kept (fun _ => ⟨_, rfl⟩) ⟨_, rfl⟩
  have bare : unsettled d.again data = { d.again with data, sections := .live } := by
    rw [unsettled, before, kept]
  have same : named (settle (unsettled d.again data)) = ofRecord d.again data := by
    rw [bare, named_eq, settle, kept, foldl_adopt]
    rfl
  rw [takeIn_record record, same]

end Editing

/-! ## Documents that hold nothing beside their record -/

/-- A document that says what its record says, and nothing else. -/
structure Document.Faithful (d : Document) : Prop where
  record : IsRecord d.data
  named : d.HasName
  autoSave : d.autoSave
  theme : d.theme = .text "sb2nov"
  live : d.sections = .live
  summary : d.summary = summarySlotOf d.data
  slots : ∀ p, d.slots p = slotOf d.kind d.data p

namespace Document

variable {d : Document} {data : Value}

theorem Faithful.same (faithful : d.Faithful) : ofRecord d.again d.data = d := by
  obtain ⟨record, named, autoSave, theme, live, summary, slots⟩ := faithful
  have full : filled d.again.name d.data = d.data := filled_of_hasName record named
  rw [ofRecord, full, ← summary, ← live]
  cases d
  simp only [again] at *
  simp [autoSave, theme, ← funext slots]

theorem faithful_ofRecord (record : IsRecord data) : (ofRecord d.again data).Faithful where
  record := isRecord_filled record _
  named := by
    by_cases there : ((headerOf data).getOrNull "name").truthy
    · refine Or.inl ?_
      rwa [ofRecord, filled, if_pos there]
    · refine Or.inr ?_
      simp [ofRecord, filled, if_neg there, headerOf_withHeader record, get?_set_self record.header]
  autoSave := rfl
  theme := rfl
  live := rfl
  summary := by simp [ofRecord, summarySlotOf, sectionsOf_filled record]
  slots p := by simp [ofRecord, slotOf, listOf_filled record]

namespace Faithful

variable (faithful : d.Faithful)

include faithful

theorem live_of_found {name : Value} {xs : List Value} {i : Nat} (allowed : d.needs p = .ok ())
    (list : (d.entries p).elements = .ok xs) (found : find? p name xs = .ok (some i)) : d.slots p = .live := by
  rw [faithful.slots, slotOf, if_pos (mem_adopted allowed)]
  rw [entries_live faithful.live, faithful.slots, slotOf, if_pos (mem_adopted allowed)] at list
  split
  · rfl
  · rename_i none_
    rw [if_neg none_] at list
    cases list
    cases found

section

variable (adopted : p ∈ adopted d.kind)

include adopted

theorem withList (v : Value) {slots : Part → Slot} (own : slots p = .live)
    (others : ∀ q, q ≠ p → slots q = d.slots q) : Faithful { d with data := withList d.data p v, slots := slots } where
  record := isRecord_withList faithful.record p v
  named := faithful.named.withList faithful.record p v slots
  autoSave := faithful.autoSave
  theme := faithful.theme
  live := faithful.live
  summary := by
    rw [faithful.summary, summarySlotOf, summarySlotOf,
      get?_sectionsOf_withList faithful.record p v p.key_ne_summary.symm]
  slots q := by
    simp only [slotOf, listOf_withList faithful.record]
    by_cases here : q = p
    · subst here
      simp [own, adopted]
    · simp [if_neg here, others q here, faithful.slots q, slotOf]

theorem install (v : Value) : (d.install p v).Faithful := by
  rw [install_live faithful.live]
  exact faithful.withList adopted v (by simp) fun q ne => if_neg ne

theorem putEntries (own : d.slots p = .live) (v : Value) : (d.putEntries p v).Faithful := by
  rw [putEntries_live faithful.live own]
  exact faithful.withList adopted v own fun _ _ => rfl

end

theorem contact (fields : Fields) : (d.putHeader (withContact d.header fields)).Faithful := by
  have same := same_withContact faithful.record fields
  have sections : sectionsOf (d.putHeader (withContact d.header fields)).data = sectionsOf d.data :=
    sectionsOf_withHeader faithful.record (same _ (by simp))
  refine ⟨isRecord_withHeader faithful.record ?_ (same _ (by simp)), faithful.named.contact faithful.record fields,
    faithful.autoSave, faithful.theme, faithful.live, ?_, fun p => ?_⟩
  · rw [isObject_withContact]
    exact faithful.record.header
  · rw [summarySlotOf, sections]
    exact faithful.summary
  · have lists : listOf (d.putHeader (withContact d.header fields)).data p = listOf d.data p :=
      listOf_withHeader faithful.record same p
    rw [slotOf, lists]
    exact faithful.slots p

theorem writeSummary (v : Value) :
    Faithful { d.putSections (d.sectionsValue.set "summary" v) with summary := .live } := by
  rw [putSections_live faithful.live, sectionsValue_live faithful.live]
  have record := faithful.record
  refine ⟨isRecord_withSections record ?_, ?_, faithful.autoSave, faithful.theme, faithful.live, ?_, fun p => ?_⟩
  · rw [isObject_set]
    exact record.sections
  · have same := get?_headerOf_withSections record ((sectionsOf d.data).set "summary" v)
      (by decide : "name" ≠ "sections")
    simpa [HasName, getOrNull, same] using faithful.named
  · simp [summarySlotOf, sectionsOf_withSections record, get?_set_self record.sections]
  · rw [slotOf, listOf_withSummary record]
    exact faithful.slots p

theorem design (v : Value) : Faithful { d with data := d.data.set "design" v } where
  record := ⟨by rw [isObject_set, faithful.record.whole], by rw [headerOf_withDesign, faithful.record.header],
    by rw [sectionsOf_withDesign, faithful.record.sections]⟩
  named := by simpa [HasName, headerOf_withDesign] using faithful.named
  autoSave := faithful.autoSave
  theme := faithful.theme
  live := faithful.live
  summary := by rw [faithful.summary, summarySlotOf, summarySlotOf, sectionsOf_withDesign]
  slots p := by rw [faithful.slots p, slotOf, slotOf, listOf_withDesign]

theorem ready (adopted : p ∈ adopted d.kind) (ready : d.Ready p d') :
    d'.Faithful ∧ d'.slots p = .live ∧ d'.kind = d.kind := by
  rcases ready with ⟨has, rfl⟩ | ⟨-, rfl⟩
  · rw [hasList_live faithful.live faithful.record] at has
    have there : (listOf d'.data p).isSome := by simpa using has
    exact ⟨faithful, by rw [faithful.slots, slotOf, if_pos adopted, if_pos there], rfl⟩
  · refine ⟨faithful.install adopted _, ?_, (akin_install faithful.live _ _).kind⟩
    rw [install_live faithful.live]
    simp

theorem emptied (adopted : p ∈ adopted d.kind) : (d.putEntries p (.list [])).Faithful := by
  cases slot : d.slots p with
  | live => exact faithful.putEntries adopted slot _
  | kept v =>
    have own := faithful.slots p
    rw [slotOf, if_pos adopted, slot] at own
    split at own
    · cases own
    · cases own
      rw [putEntries_kept slot]
      have same : (fun q => if q = p then .kept (.list []) else d.slots q) = d.slots := by
        funext q
        by_cases here : q = p
        · rw [if_pos here, here, slot]
        · rw [if_neg here]
      rwa [same]

end Faithful

theorem Effect.faithful (effect : Effect d e x) (faithful : d.Faithful)
    (changed : x.changed) (kept : ∀ n, e ≠ .removeSection n) : x.document.Faithful := by
  cases effect with
  | nothing => exact faithful
  | contact fields => exact faithful.contact fields
  | theme => exact faithful.design _
  | @summary text _ _ found =>
    have after := faithful.writeSummary (.list [text])
    rw [sectionsValue_of_fields found] at after
    exact after
  | made => cases changed
  | added _ allowed ready =>
    obtain ⟨before, own, kind⟩ := faithful.ready (mem_adopted allowed) ready
    exact before.putEntries (by rw [kind]; exact mem_adopted allowed) own _
  | modified _ allowed _ list found | renewed _ allowed list found | removed _ allowed list found =>
    exact faithful.putEntries (mem_adopted allowed) (faithful.live_of_found allowed list found) _
  | emptied _ _ allowed => exact faithful.emptied (mem_adopted allowed)
  | replaced _ _ allowed => exact faithful.install (mem_adopted allowed) _
  | dropped => exact absurd rfl (kept _)

theorem Account.unchanged {r : Reply} (account : Account d e x) (changed : x.changed = false)
    (told : x.reply.ending = .ok r) : x = ⟨d, r, false⟩ := by
  cases account with
  | broken => cases told
  | contact | theme | summary | added | changed | renewed | removed | cleared => cases changed
  | _ =>
    cases told
    rfl

theorem Account.ending (account : Account d e x) (changed : x.changed) : x.reply.ending = .ok x.reply := by
  cases account with
  | broken => cases changed
  | _ => rfl

end Document

/-! ## The file -/

/-- What is loaded from the file of a document now is the document. -/
structure Current (d : Document) (w : Workspace) (file : Path) : Prop where
  place : d.file = some file
  rooted : w.disk.current.isAbsolute
  loads : ∃ r, w.disk.record file = .ok r ∧ IsRecord r ∧ ofRecord d.again r = d

/-- How an edit ends, whatever is saved. -/
def Document.verdict (d : Document) (e : Edit) : Except Fault Reply := (d.apply e).bind (·.reply.ending)

/-- How an edit of a document ends whose file is current. -/
inductive Ends (d : Document) (w : Workspace) (file : Path) (e : Edit) :
    Except Fault Reply → Document × Workspace → Prop where
  /-- The edit failed; there may be a new list in memory. -/
  | failed {f : Fault} (d' : Document) (told : d.verdict e = .error f)
      (unsaved : ∀ x, d.apply e = .ok x → x.changed = false) : Ends d w file e (.error f) (d', w)
  | kept {r : Reply} (told : d.verdict e = .ok r) (applied : d.apply e = .ok ⟨d, r, false⟩) :
      Ends d w file e (.ok r) (d, w)
  | saved {x : Edited} {k : Disk} (told : d.verdict e = .ok x.reply) (applied : d.apply e = .ok x)
      (changed : x.changed) (current : Current x.document { w with disk := k } file) (written : k.record file = .ok x.document.data) :
      Ends d w file e (.ok x.reply) (x.document, { w with disk := k })

variable {d : Document} {w : Workspace} {file : Path}

namespace Current

variable (current : Current d w file)

include current

theorem faithful : d.Faithful := by
  obtain ⟨r, -, record, same⟩ := current.loads
  rw [← same]
  exact faithful_ofRecord record

theorem save (faithful : d'.Faithful) (place : d'.file = some file) :
    ∃ k v, (save none).outcome (d', w) = (.ok v, d', { w with disk := k }) ∧
      Current d' { w with disk := k } file ∧ k.record file = .ok d'.data := by
  obtain ⟨r, read, -, -⟩ := current.loads
  obtain ⟨f, found⟩ := Disk.file_of_record read
  obtain ⟨k, written, same, held⟩ :=
    Disk.write_file (Path.isAbsolute_join current.rooted _) found (.document .line d'.data) w.now
  have record : k.record file = .ok d'.data := Disk.record_of_file held rfl
  refine ⟨k, .text file.text, ?_, ⟨place, ?_, d'.data, record, faithful.record, faithful.same⟩, record⟩
  · rw [outcome_save (isNull_of_isObject faithful.record.whole) place, written]
  · rw [same]
    exact current.rooted

theorem ends (kept : ∀ n, e ≠ .removeSection n) :
    Ends d w file e ((edit e).outcome (d, w)).1 ((edit e).outcome (d, w)).2 := by
  have faithful := current.faithful
  rw [outcome_edit]
  cases applied : d.apply e with
  | error f => exact .failed d (by rw [verdict, applied]; rfl) (by simp [applied])
  | ok x =>
    have effect := effect_of_apply applied
    have account := account_of_apply faithful.live faithful.record kept applied
    have told : d.verdict e = x.reply.ending := by
      rw [verdict, applied]
      rfl
    simp only [faithful.autoSave]
    cases changed : x.changed with
    | true =>
      have place := (effect.akin faithful.live).file.trans current.place
      obtain ⟨k, v, saved, now, record⟩ := current.save (effect.faithful faithful changed kept) place
      rw [account.ending changed] at told
      simp only [saved, account.ending changed]
      exact .saved told applied changed now record
    | false =>
      cases ending : x.reply.ending with
      | error f =>
        rw [ending] at told
        refine .failed _ told fun y same => ?_
        rw [applied] at same
        cases same
        exact changed
      | ok r =>
        rw [ending] at told
        obtain rfl := account.unchanged changed ending
        exact .kept told applied

end Current

namespace Ends

variable {e : Edit} {r : Except Fault Reply} {s : Document × Workspace}

theorem told (ends : Ends d w file e r s) : r = d.verdict e := by
  cases ends with
  | failed _ told | kept told | saved told => exact told.symm

end Ends

end Folio.Cv

/-! ## Documents turn nothing down

What is done to a document can fail in many ways, but never as a rejection (`unrejected_apply`, `unrejected_verdict`). -/

namespace Folio

open Value

def Fault.IsRejection (f : Fault) : Prop := ∃ n, f.cause = .rejected n

/-- A computation that does not fail as a rejection. -/
def Unrejected {α : Type} (r : Except Fault α) : Prop := ∀ f, r = .error f → ¬ f.IsRejection

namespace Unrejected

variable {α β : Type}

@[simp] theorem ok (x : α) : Unrejected (.ok x : Except Fault α) := nofun

@[simp] theorem pure (x : α) : Unrejected (Pure.pure x : Except Fault α) := ok x

@[simp] theorem error {f : Fault} : Unrejected (.error f : Except Fault α) ↔ ¬ f.IsRejection :=
  ⟨fun fails => fails f rfl, fun plain _ same => Except.error.inj same ▸ plain⟩

@[simp] theorem throw {f : Fault} : Unrejected (MonadExcept.throw f : Except Fault α) ↔ ¬ f.IsRejection := error

@[simp] theorem met {cause : Cause} {text : String} : (Fault.met cause text).IsRejection ↔ ∃ n, cause = .rejected n := .rfl

@[simp] theorem say {cause : Cause} {text : String} : (Fault.say cause text).IsRejection ↔ ∃ n, cause = .rejected n := .rfl

@[simp] theorem wrongType (text : String) : ¬ (Fault.wrongType text).IsRejection := nofun

@[simp] theorem noAttribute (kind name : String) : ¬ (Fault.noAttribute kind name).IsRejection := nofun

variable {r : Except Fault α}

@[simp] theorem bind {next : α → Except Fault β} :
    Unrejected (r >>= next) ↔ Unrejected r ∧ ∀ x, r = .ok x → Unrejected (next x) := by
  cases r with
  | error f => exact ⟨fun fails => ⟨error.2 (fails f rfl), nofun⟩, fun fails => error.2 (fails.1 f rfl)⟩
  | ok x => exact ⟨fun rest => ⟨ok x, fun y same => Except.ok.inj same ▸ rest⟩, fun fails => fails.2 x rfl⟩

@[simp] theorem map {f : α → β} : Unrejected (f <$> r) ↔ Unrejected r := by
  cases r <;> simp

@[simp] theorem discard : Unrejected (Functor.discard r) ↔ Unrejected r := map (f := fun _ => ())

@[simp] theorem ite {b : Prop} [Decidable b] {r r' : Except Fault α} :
    Unrejected (if b then r else r') ↔ (b → Unrejected r) ∧ (¬ b → Unrejected r') := by
  split <;> simp_all

theorem mapM {f : α → Except Fault β} (each : ∀ x, Unrejected (f x)) (xs : List α) : Unrejected (xs.mapM f) := by
  induction xs with
  | nil => exact ok []
  | cons x xs ih => simp [each x, ih]

end Unrejected

namespace Value

variable (v : Value) (key : String)

@[simp] theorem unrejected_fieldD (w : Value) : Unrejected (v.fieldD key w) := by
  cases v <;> simp [fieldD]

@[simp] theorem unrejected_field : Unrejected (v.field key) := by
  unfold field
  split
  · split <;> simp
  all_goals simp

@[simp] theorem unrejected_elements : Unrejected v.elements := by
  cases v <;> simp [elements]

@[simp] theorem unrejected_asText (operation : String) : Unrejected (v.asText operation) := by
  cases v <;> simp [asText]

@[simp] theorem unrejected_holds : Unrejected (v.holds key) := by
  cases v <;> simp [holds]

@[simp] theorem unrejected_size : Unrejected v.size := by
  cases v <;> simp [size]

end Value

namespace Cv.Document

open Unrejected (mapM)

variable {d : Document} {p : Part}

@[simp] theorem unrejected_needsData (d : Document) : Unrejected d.needsData := by
  simp [needsData]

@[simp] theorem unrejected_needs (d : Document) (p : Part) : Unrejected (d.needs p) := by
  simp [needs, needsResume]

@[simp] theorem unrejected_sectionFields (d : Document) : Unrejected d.sectionFields := by
  unfold sectionFields
  split <;> simp

@[simp] theorem unrejected_hasList (d : Document) (p : Part) : Unrejected (d.hasList p) := by
  simp [hasList]

/-! ## Entries -/

@[simp] theorem unrejected_entry (p : Part) (given : Fields) : Unrejected (p.entry given) := by
  unfold Part.entry
  split <;> split <;> simp

@[simp] theorem unrejected_names (p : Part) (entries : List Value) : Unrejected (names p entries) :=
  mapM (fun _ => by simp) entries

@[simp] theorem unrejected_tidied (p : Part) (entry : Fields) : Unrejected (tidied p entry) := by
  simp [tidied, mapM]

@[simp] theorem unrejected_growing (v : Value) : Unrejected (growing v) := by
  cases v <;> simp [growing]

@[simp] theorem unrejected_takenNames (d : Document) (p : Part) : Unrejected (d.takenNames p) := by
  simp [takenNames]

@[simp] theorem unrejected_record (p : Part) (entry : Fields) : Unrejected (p.record entry) := by
  unfold Part.record
  split <;> simp [awardRecord]

@[simp] theorem unrejected_append (d : Document) (p : Part) (entry : Fields) : Unrejected (d.append p entry) := by
  simp [append]

@[simp] theorem unrejected_find? (p : Part) (name : Value) (xs : List Value) : Unrejected (find? p name xs) := by
  induction xs with
  | nil => exact .ok _
  | cons x xs ih => simp [find?, ih]

@[simp] theorem unrejected_assigned (p : Part) (entry field value : Value) :
    Unrejected (assigned p entry field value) := by
  simp [assigned, relinked, mapM]

@[simp] theorem unrejected_renewed (p : Part) (entry value : Value) : Unrejected (renewed p entry value) := by
  unfold renewed
  split <;> simp

theorem unrejected_apply (d : Document) {e : Edit} (kept : ∀ n, e ≠ .removeSection n) : Unrejected (d.apply e) := by
  cases e with
  | contact fields => simp [apply, editContact]
  | theme name =>
    refine Unrejected.bind.2 ⟨by simp, fun _ _ => Unrejected.bind.2 ⟨by simp [isMember, unhashable], fun known _ => ?_⟩⟩
    refine Unrejected.ite.2 ⟨by simp, fun _ => Unrejected.bind.2 ⟨by simp, fun design _ => ?_⟩⟩
    cases design <;> simp
  | summary text => simp [apply, editSummary]
  | add p given =>
    simp [apply, addEntry]
    intros
    constructor <;> intro <;> split <;> simp
  | modify p name field value => simp [apply, modifyEntry, Option.forall]
  | renew p name value => simp [apply, renewEntry, Option.forall]
  | remove p name => simp [apply, removeEntry, hasOwnList, Option.forall]
  | clear p => simp [apply, clearEntries]
  | removeSection number => exact absurd rfl (kept number)

theorem unrejected_verdict {e : Edit} (live : d.sections = .live) (record : IsRecord d.data)
    (kept : ∀ n, e ≠ .removeSection n) : Unrejected (d.verdict e) := by
  intro f told
  rw [verdict] at told
  cases applied : d.apply e with
  | error g =>
    rw [applied] at told
    cases told
    exact unrejected_apply d kept _ applied
  | ok x =>
    have account := account_of_apply live record kept applied
    rw [applied] at told
    cases account with
    | broken failed =>
      cases told
      exact unrejected_append _ _ _ _ failed
    | _ => cases told

end Cv.Document

end Folio

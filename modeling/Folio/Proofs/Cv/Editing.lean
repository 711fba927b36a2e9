/-
# Proofs.Cv.Editing -- the record of a document, and what work on it leaves behind

A list of entries stands in the header of a record or in its sections; `listOf` reads it, `withList` writes it, and
writing one list changes no other (`listOf_withList`).  The operations of a document whose sections are those of its
record come down to these two.

Work on a document is read through its `outcome`: how it ended, beside the document and the workspace that it leaves.
On its equations stand the specs of saving (`outcome_save`), of an edit (`state_edit`), of loading (`outcome_load`) and
of making a new document (`generated`).
-/
import Folio.Cv.Editing
import Folio.Proofs.Action
import Folio.Proofs.Disk.Fresh
import Folio.Proofs.Value

namespace Folio.Cv

open Editing List Part Value

variable {header : Value} {key : String} {p : Part}

/-! ## Records -/

def headerOf (data : Value) : Value := data.getOrNull "cv"

def sectionsOf (data : Value) : Value := (headerOf data).getOrNull "sections"

/-- The object of a record in which the list of a part stands. -/
def placeOf (data : Value) (p : Part) : Value := if p.inHeader then headerOf data else sectionsOf data

def listOf (data : Value) (p : Part) : Option Value := (placeOf data p).get? p.key

structure IsRecord (data : Value) : Prop where
  whole : data.isObject
  header : (headerOf data).isObject
  sections : (sectionsOf data).isObject

def withHeader (data header : Value) : Value := data.set "cv" header

def withSections (data sections : Value) : Value :=
  withHeader data ((headerOf data).set "sections" sections)

def withList (data : Value) (p : Part) (v : Value) : Value :=
  if p.inHeader then withHeader data ((headerOf data).set p.key v)
  else withSections data ((sectionsOf data).set p.key v)

theorem Part.key_inj {q : Part} : p.key = q.key ↔ p = q := by
  cases p <;> cases q <;> simp [key]

theorem Part.key_ne_sections (p : Part) : p.key ≠ "sections" := by
  cases p <;> simp [key]

theorem Part.key_ne_summary (p : Part) : p.key ≠ "summary" := by
  cases p <;> simp [key]

section Changes

variable {data : Value} (record : IsRecord data)

include record

theorem headerOf_withHeader (header : Value) : headerOf (withHeader data header) = header :=
  getOrNull_set_self record.whole "cv" header

theorem sectionsOf_withHeader (same : header.get? "sections" = (headerOf data).get? "sections") :
    sectionsOf (withHeader data header) = sectionsOf data := by
  rw [sectionsOf, headerOf_withHeader record, getOrNull, same, sectionsOf, getOrNull]

theorem isRecord_withHeader (object : header.isObject)
    (same : header.get? "sections" = (headerOf data).get? "sections") : IsRecord (withHeader data header) where
  whole := by rw [withHeader, isObject_set, record.whole]
  header := by rw [headerOf_withHeader record, object]
  sections := by rw [sectionsOf_withHeader record same, record.sections]

variable (sections : Value)

theorem headerOf_withSections : headerOf (withSections data sections) = (headerOf data).set "sections" sections :=
  headerOf_withHeader record _

theorem sectionsOf_withSections : sectionsOf (withSections data sections) = sections := by
  rw [sectionsOf, headerOf_withSections record, getOrNull_set_self record.header]

theorem isRecord_withSections {sections : Value} (object : sections.isObject) :
    IsRecord (withSections data sections) where
  whole := by rw [withSections, withHeader, isObject_set, record.whole]
  header := by rw [headerOf_withSections record, isObject_set, record.header]
  sections := by rw [sectionsOf_withSections record, object]

theorem get?_headerOf_withSections (ne : key ≠ "sections") :
    (headerOf (withSections data sections)).get? key = (headerOf data).get? key := by
  rw [headerOf_withSections record, get?_set_ne _ ne]

theorem isRecord_withList (p : Part) (v : Value) : IsRecord (withList data p v) := by
  unfold withList
  split
  · refine isRecord_withHeader record ?_ (get?_set_ne _ p.key_ne_sections.symm v)
    rw [isObject_set, record.header]
  · refine isRecord_withSections record ?_
    rw [isObject_set, record.sections]

theorem listOf_withList (p q : Part) (v : Value) :
    listOf (withList data p v) q = if q = p then some v else listOf data q := by
  unfold listOf placeOf withList
  by_cases above : p.inHeader
  · have same := get?_set_ne (headerOf data) p.key_ne_sections.symm v
    simp only [if_pos above, headerOf_withHeader record, sectionsOf_withHeader record same]
    by_cases whole : q = p
    · subst whole
      simp [if_pos above, get?_set_self record.header]
    · split
      · exact get?_set_ne _ (fun same => whole (key_inj.1 same)) v
      · rfl
  · simp only [if_neg above, sectionsOf_withSections record]
    by_cases whole : q = p
    · subst whole
      simp [if_neg above, get?_set_self record.sections]
    · split
      · exact get?_headerOf_withSections record _ q.key_ne_sections
      · exact get?_set_ne _ (fun same => whole (key_inj.1 same)) v

theorem get?_headerOf_withList (p : Part) (v : Value) (ne : key ≠ "sections")
    (other : key ≠ connections.key) : (headerOf (withList data p v)).get? key = (headerOf data).get? key := by
  unfold withList
  split
  · rename_i above
    obtain rfl : p = .connections := by simpa [inHeader] using above
    rw [headerOf_withHeader record, get?_set_ne _ other]
  · exact get?_headerOf_withSections record _ ne

theorem get?_sectionsOf_withList (p : Part) (v : Value) (ne : key ≠ p.key) :
    (sectionsOf (withList data p v)).get? key = (sectionsOf data).get? key := by
  unfold withList
  split
  · rw [sectionsOf_withHeader record (get?_set_ne _ p.key_ne_sections.symm v)]
  · rw [sectionsOf_withSections record, get?_set_ne _ ne]

theorem listOf_withSections (p : Part) :
    listOf (withSections data sections) p = if p.inHeader then listOf data p else sections.get? p.key := by
  unfold listOf placeOf
  rw [sectionsOf_withSections record]
  split
  · exact get?_headerOf_withSections record _ p.key_ne_sections
  · rfl

theorem listOf_erased {name : String} (kept : ¬ (p.inHeader = false ∧ p.key = name)) :
    listOf (withSections data ((sectionsOf data).erase name)) p = listOf data p := by
  rw [listOf_withSections record, get?_erase]
  cases above : p.inHeader with
  | true => rfl
  | false =>
    have ne : p.key ≠ name := fun same => kept ⟨above, same⟩
    simp [ne, listOf, placeOf, above]

theorem listOf_withHeader
    (same : ∀ key ∈ ["sections", connections.key], header.get? key = (headerOf data).get? key) (p : Part) :
    listOf (withHeader data header) p = listOf data p := by
  unfold listOf placeOf
  rw [sectionsOf_withHeader record (same _ (by simp)), headerOf_withHeader record]
  split
  · rename_i above
    obtain rfl : p = .connections := by simpa [inHeader] using above
    exact same _ (by simp)
  · rfl

theorem listOf_withSummary (v : Value) (p : Part) :
    listOf (withSections data ((sectionsOf data).set "summary" v)) p = listOf data p := by
  rw [listOf_withSections record, get?_set_ne _ p.key_ne_summary]
  split
  · rfl
  · rename_i below
    rw [listOf, placeOf, if_neg below]

omit record in
theorem headerOf_withDesign (v : Value) : headerOf (data.set "design" v) = headerOf data :=
  getOrNull_set_ne _ (by decide) v

omit record in
theorem sectionsOf_withDesign (v : Value) : sectionsOf (data.set "design" v) = sectionsOf data := by
  rw [sectionsOf, headerOf_withDesign, sectionsOf]

omit record in
theorem listOf_withDesign (v : Value) (p : Part) : listOf (data.set "design" v) p = listOf data p := by
  rw [listOf, placeOf, headerOf_withDesign, sectionsOf_withDesign, listOf, placeOf]

omit record in
theorem get?_withList (p : Part) (v : Value) (ne : key ≠ "cv") : (withList data p v).get? key = data.get? key := by
  unfold withList
  split
  · exact get?_set_ne data ne _
  · exact get?_set_ne data ne _

end Changes

/-! ## Documents -/

namespace Document

variable {d : Document}

section

variable (live : d.sections = .live)

include live

theorem sectionsValue_live : d.sectionsValue = sectionsOf d.data := by
  rw [sectionsValue, live]
  rfl

theorem place_live (p : Part) : d.place p = placeOf d.data p := by
  rw [place, sectionsValue_live live]
  rfl

theorem putSections_live (v : Value) : d.putSections v = { d with data := withSections d.data v } := by
  simp only [putSections, live, putHeader]
  rfl

theorem putPlace_live (p : Part) (v : Value) :
    d.putPlace p ((d.place p).set p.key v) = { d with data := withList d.data p v } := by
  rw [putPlace, place_live live, placeOf, withList]
  split
  · rfl
  · exact putSections_live live _

theorem entries_live (p : Part) : d.entries p = match d.slots p with
      | .live => (listOf d.data p).getD .null
      | .kept v => v := by
  rw [entries, place_live live]
  rfl

theorem hasList_live (record : IsRecord d.data) (p : Part) : d.hasList p = .ok (listOf d.data p).isSome := by
  have holds : ∀ {v : Value}, v.isObject → ∀ key, v.holds key = .ok (v.get? key).isSome := by
    intro v object key
    cases v with
    | object fs => rfl
    | _ => cases object
  unfold hasList listOf placeOf
  split
  · exact holds record.header _
  · have object := record.sections
    rw [sectionFields, sectionsValue_live live]
    cases sections : sectionsOf d.data with
    | object fs => rfl
    | _ => rw [sections] at object; cases object

theorem install_live (p : Part) (v : Value) : d.install p v =
      { d with data := withList d.data p v, slots := fun q => if q = p then .live else d.slots q } := by
  rw [install, putPlace_live live]
  rfl

theorem putEntries_live (own : d.slots p = .live) (v : Value) :
    d.putEntries p v = { d with data := withList d.data p v } := by
  rw [putEntries, own]
  exact putPlace_live live p v

end

theorem putEntries_kept {old : Value} (kept : d.slots p = .kept old) (v : Value) :
    d.putEntries p v = { d with slots := fun q => if q = p then .kept v else d.slots q } := by
  rw [putEntries, kept]
  rfl

/-- Setting the slots of parts one after the other, each by what no other slot decides. -/
theorem foldl_setSlot (slot : Document → Part → Slot) (steady : ∀ d p q, slot (d.setSlot p (slot d p)) q = slot d q)
    (ps : List Part) (d : Document) : ps.foldl (fun d p => d.setSlot p (slot d p)) d =
      { d with slots := fun q => if q ∈ ps then slot d q else d.slots q } := by
  induction ps generalizing d with
  | nil => simp
  | cons p ps ih =>
    rw [foldl_cons, ih]
    simp only [steady]
    simp only [setSlot]
    congr 1
    funext q
    by_cases later : q ∈ ps
    · simp [later]
    · by_cases here : q = p <;> simp [here]

/-- Keeping lists beside the record changes where they stand and not what they say. -/
theorem foldl_keep (ps : List Part) (d : Document) :
    ps.foldl keep d = { d with slots := fun q => if q ∈ ps then .kept (d.entries q) else d.slots q } := by
  refine foldl_setSlot (fun d p => .kept (d.entries p)) (fun d p q => ?_) ps d
  by_cases here : q = p
  · subst here
    simp [entries, setSlot]
  · simp only [entries, setSlot, if_neg here]
    rfl

theorem dropSection_live (live : d.sections = .live) {name : String} (other : name ≠ "summary") : d.dropSection name =
      { d with data := withSections d.data ((sectionsOf d.data).erase name), slots := fun q =>
          if q.inHeader = false ∧ q.key = name then .kept (d.entries q) else d.slots q } := by
  simp only [dropSection, beq_eq_false_iff_ne.2 other, foldl_keep]
  rw [putSections_live (by exact live), sectionsValue_live (by exact live)]
  congr 1
  funext q
  have every : q ∈ Part.all := by cases q <;> simp [Part.all]
  cases slot : d.slots q with
  | live => simp [every, slot]
  | kept v => simp [entries, slot]

theorem foldl_adopt (ps : List Part) (d : Document) : ps.foldl adopt d = { d with slots := fun q =>
      if q ∈ ps then (if ((d.place q).get? q.key).isSome then .live else .kept (.list [])) else d.slots q } :=
  foldl_setSlot (fun d p => if ((d.place p).get? p.key).isSome then .live else .kept (.list [])) (fun _ _ _ => rfl) ps d

end Document

end Folio.Cv

variable {name : String}

namespace Folio.Disk

variable {k : Disk} {p : Path}

theorem record_of_file {f : File} {layout : Json.Layout} {v : Value} (found : k.file p = .ok f)
    (content : f.content = .document layout v) : k.record p = .ok v := by
  simp [record, Disk.content, found, content, Bind.bind, Except.bind, Pure.pure, Except.pure]

theorem file_of_record {v : Value} (read : k.record p = .ok v) : ∃ f, k.file p = .ok f := by
  obtain ⟨c, content, -⟩ := Action.ok_of_bind read
  obtain ⟨f, found, -⟩ := Action.ok_of_bind content
  exact ⟨f, found⟩

end Folio.Disk

namespace Folio.Cv

open Action Disk Document Value

/-- How an edit ends that was made: with what is told, which may be a fault. -/
def Reply.ending : Reply → Except Fault Reply
  | .failed f => .error f
  | r => .ok r

namespace Editing

/-- How work on a document ends, with the document and the workspace that it leaves. -/
def outcome {α : Type} (e : Editing α) (s : Document × Workspace) : Except Fault α × Document × Workspace :=
  (ExceptT.run e).run s

variable {α β : Type} {next : α → Editing β} {e : Editing α} {s s' : Document × Workspace}

theorem outcome_bind (e : Editing α) (next : α → Editing β) (s : Document × Workspace) : (e >>= next).outcome s =
      match e.outcome s with
      | (.ok x, s') => (next x).outcome s'
      | (.error f, s') => (.error f, s') := by
  change StateT.run (ExceptT.run (e >>= next)) s = _
  rw [ExceptT.run_bind]
  simp only [outcome, StateT.run_bind]
  cases h : StateT.run (ExceptT.run e) s with
  | mk r s' => cases r <;> rfl

theorem bind_of_ok {x : α} (first : e.outcome s = (.ok x, s')) : (e >>= next).outcome s = (next x).outcome s' := by
  rw [outcome_bind, first]

@[simp] theorem outcome_pure (x : α) (s : Document × Workspace) : (pure x : Editing α).outcome s = (.ok x, s) := rfl

@[simp] theorem outcome_document (s : Document × Workspace) : document.outcome s = (.ok s.1, s) := rfl

@[simp] theorem outcome_setDocument (d : Document) (s : Document × Workspace) :
    (setDocument d).outcome s = (.ok (), (d, s.2)) := rfl

@[simp] theorem outcome_liftAction (a : Action α) (d : Document) (w : Workspace) :
    (liftM a : Editing α).outcome (d, w) = ((a.outcome w).1, (d, (a.outcome w).2)) := rfl

@[simp] theorem outcome_liftExcept (r : Except Fault α) (s : Document × Workspace) :
    (liftM r : Editing α).outcome s = (r, s) := rfl

@[simp] theorem outcome_discard (e : Editing α) (s : Document × Workspace) :
    (discard e).outcome s = ((e.outcome s).1.map fun _ => (), (e.outcome s).2) := by
  change ((fun _ => ()) <$> e).outcome s = _
  rw [map_eq_pure_bind, outcome_bind]
  rcases e.outcome s with ⟨r, s'⟩
  cases r <;> rfl

theorem ok_of_bind {y : β} (run : (e >>= next).outcome s = (.ok y, s')) :
    ∃ x mid, e.outcome s = (.ok x, mid) ∧ (next x).outcome mid = (.ok y, s') := by
  rw [outcome_bind] at run
  rcases first : e.outcome s with ⟨r, mid⟩
  rw [first] at run
  cases r with
  | error f => cases run
  | ok x => exact ⟨x, mid, rfl, run⟩

theorem state_bind {P : Document × Workspace → Prop} (stop : ∀ f, (e.outcome s).1 = .error f → P (e.outcome s).2)
    (go : ∀ x, (e.outcome s).1 = .ok x → P ((next x).outcome (e.outcome s).2).2) : P ((e >>= next).outcome s).2 := by
  rw [outcome_bind]
  rcases first : e.outcome s with ⟨r, s'⟩
  rw [first] at stop go
  cases r with
  | error f => exact stop f rfl
  | ok x => exact go x rfl

/-! ## Saving and editing -/

variable {d : Document} {w : Workspace} {p : Path} {data v : Value}

theorem outcome_save (loaded : d.data.isNull = false) (place : d.file = some p) : (save none).outcome (d, w) =
      match w.disk.write p (.document .line d.data) w.now with
      | .ok k => (.ok (.text p.text), d, { w with disk := k })
      | .error f => (.error f, d, w) := by
  simp only [save, target, outcome_bind, outcome_document, loaded, Bool.false_eq_true, if_false, place, outcome_liftAction,
    writeRecord, outcome_write]
  cases w.disk.write p (.document .line d.data) w.now <;> rfl

theorem document_save (file : Option String) : ((save file).outcome (d, w)).2.1 = d := by
  simp only [save, outcome_bind, outcome_document]
  cases d.data.isNull with
  | true => rfl
  | false =>
    cases target d file with
    | none => rfl
    | some p =>
      simp only [Bool.false_eq_true, if_false, outcome_bind, outcome_liftAction]
      rcases (writeRecord p d.data).outcome w with ⟨r, w'⟩
      cases r <;> rfl

theorem outcome_edit (e : Edit) : (edit e).outcome (d, w) = match d.apply e with
      | .error f => (.error f, d, w)
      | .ok x =>
        if x.changed && d.autoSave then
          match (save none).outcome (x.document, w) with
          | (.ok _, s) => (x.reply.ending, s)
          | (.error f, s) => (.error f, s)
        else (x.reply.ending, x.document, w) := by
  rw [edit, bind_of_ok (outcome_document _), outcome_bind, outcome_liftExcept]
  cases d.apply e with
  | error f => rfl
  | ok x =>
    simp only [bind_of_ok (outcome_setDocument x.document _)]
    by_cases saving : x.changed && d.autoSave
    · simp only [if_pos saving, outcome_bind, outcome_discard]
      rcases (save none).outcome (x.document, w) with ⟨r, s⟩
      cases r with
      | error f => rfl
      | ok v => cases x.reply <;> rfl
    · simp only [if_neg saving]
      cases x.reply <;> rfl

theorem state_edit (e : Edit) : ((edit e).outcome (d, w)).2 = match d.apply e with
      | .error _ => (d, w)
      | .ok x =>
        if x.changed && d.autoSave then ((save none).outcome (x.document, w)).2 else (x.document, w) := by
  rw [outcome_edit]
  cases d.apply e with
  | error f => rfl
  | ok x =>
    dsimp only
    split
    · rcases (save none).outcome (x.document, w) with ⟨r, s⟩
      cases r <;> rfl
    · rfl

theorem document_edit (e : Edit) : ((edit e).outcome (d, w)).2.1 = match d.apply e with
      | .error _ => d
      | .ok x => x.document := by
  rw [state_edit]
  cases d.apply e with
  | error f => rfl
  | ok x =>
    dsimp only
    split
    · exact document_save none
    · rfl

/-! ## Loading -/

def filled (name : Option String) (data : Value) : Value :=
  if ((headerOf data).getOrNull "name").truthy then data
  else withHeader data ((headerOf data).set "name" (.text (shownName (name.getD "None"))))

theorem named_eq (d : Document) : named d = { d with data := filled d.name d.data } := by
  have header : d.header = headerOf d.data := rfl
  unfold named filled
  rw [header]
  split <;> rfl

/-- `o` is the document `d` with a record that it was loaded with. -/
structure Opened (d : Document) (data : Value) (o : Document) : Prop where
  kind : o.kind = d.kind
  autoSave : o.autoSave = d.autoSave
  name : o.name = d.name
  file : o.file = d.file
  record : o.data = filled d.name data
  sections : o.sections = .live
  summary : o.summary = if ((sectionsOf data).get? "summary").isSome then .live else .kept (.list [])
  slots : ∀ p ∈ adopted d.kind,
    o.slots p = if (listOf data p).isSome then .live else .kept (.list [])

theorem keepLists_eq (d : Document) : ∃ slots summary, d.keepLists = { d with slots, summary } := by
  exact ⟨_, _, rfl⟩

theorem opened_settle {o : Document} (kind : o.kind = d.kind) (autoSave : o.autoSave = d.autoSave)
    (name : o.name = d.name) (file : o.file = d.file) : Opened d o.data (named (settle o)) := by
  obtain ⟨slots, summary, kept⟩ := keepLists_eq o
  rw [named_eq, settle, kept, foldl_adopt]
  refine ⟨kind, autoSave, name, file, by rw [← name], rfl, rfl, fun p member => ?_⟩
  rw [← kind] at member
  simp only [if_pos member]
  rfl

/-- The document that a record is taken into, before its lists are settled. -/
def unsettled (d : Document) (data : Value) : Document :=
  { ({ d.keepSections with data } : Document).keepLists with sections := .live }

theorem takeIn_record (record : IsRecord data) : (takeIn data).outcome (d, w) =
      (.ok (named (settle (unsettled d data))).data, named (settle (unsettled d data)), w) := by
  have there : data.fieldD "cv" .null = .ok (headerOf data) := fieldD_of_isObject record.whole _ _
  have header : data.field "cv" = .ok (headerOf data) := field_of_isObject record.header
  have sections : (headerOf data).field "sections" = .ok (sectionsOf data) :=
    field_of_isObject record.sections
  have projects := fieldD_of_isObject record.sections "projects" .null
  simp only [takeIn, outcome_bind, outcome_liftExcept, there, header, isNull_of_isObject record.header, Bool.false_eq_true,
    if_false, sections, projects]
  rfl

theorem outcome_takeIn (record : IsRecord data) :
    ∃ o, (takeIn data).outcome (d, w) = (.ok o.data, o, w) ∧ Opened d data o := by
  obtain ⟨slots, summary, kept⟩ := keepLists_eq { d.keepSections with data := data }
  have same : (unsettled d data).data = data := by
    rw [unsettled, kept]
  refine ⟨named (settle (unsettled d data)), takeIn_record record, ?_⟩
  have opened := opened_settle (d := d) (o := unsettled d data) (by rw [unsettled, kept]; rfl)
    (by rw [unsettled, kept]; rfl) (by rw [unsettled, kept]; rfl) (by rw [unsettled, kept]; rfl)
  rwa [same] at opened

theorem isRecord_of_takeIn (run : (takeIn data).outcome s = (.ok v, s')) : IsRecord data := by
  obtain ⟨d, _, -, run⟩ := ok_of_bind run
  obtain ⟨_, _, -, run⟩ := ok_of_bind run
  obtain ⟨there, _, asked, run⟩ := ok_of_bind run
  have whole : data.isObject := isObject_of_fieldD (Prod.mk.inj asked).1
  split at run
  · cases run
  · obtain ⟨header, _, asked, run⟩ := ok_of_bind run
    have first : data.get? "cv" = some header := get?_of_field (Prod.mk.inj asked).1
    obtain ⟨sections, _, asked, run⟩ := ok_of_bind run
    have second : header.get? "sections" = some sections := get?_of_field (Prod.mk.inj asked).1
    obtain ⟨d, _, -, run⟩ := ok_of_bind run
    obtain ⟨_, _, -, run⟩ := ok_of_bind run
    obtain ⟨_, _, asked, run⟩ := ok_of_bind run
    have third : sections.isObject := by
      cases found : sections.fieldD "projects" .null with
      | error f => simp [found, Except.map] at asked
      | ok projects => exact isObject_of_fieldD found
    have same : headerOf data = header := by rw [headerOf, getOrNull, first, Option.getD_some]
    refine ⟨whole, ?_, ?_⟩
    · rw [same]
      exact isObject_of_get? second
    · rwa [sectionsOf, same, getOrNull, second]

theorem outcome_load (place : d.file = some p) (there : w.disk.exists? p = .ok true)
    (read : w.disk.record p = .ok data) : (load none).outcome (d, w) = (takeIn data).outcome (d, w) := by
  simp [load, outcome_bind, place, there, read]

theorem loaded (run : (load none).outcome (d, w) = (.ok v, s)) :
    ∃ p data, d.file = some p ∧ w.disk.record p = .ok data ∧ (takeIn data).outcome (d, w) = (.ok v, s) := by
  simp only [load, outcome_bind, outcome_document] at run
  cases place : d.file with
  | none =>
    simp only [place] at run
    cases run
  | some p =>
    simp only [place] at run
    obtain ⟨known, s', asked, run⟩ := ok_of_bind run
    obtain ⟨-, rfl⟩ := Prod.mk.inj asked
    cases known with
    | false => cases run
    | true =>
      obtain ⟨data, s', asked, run⟩ := ok_of_bind run
      obtain ⟨read, rfl⟩ := Prod.mk.inj asked
      exact ⟨p, data, rfl, read, run⟩

/-! ## New documents -/

def fileOf (home : Path) (kind : Kind) (name : String) : Path :=
  (directory home).child (fileName name ++ "_" ++ kind.fileSuffix ++ ".yaml")

theorem parts_fileOf (home : Path) (kind : Kind) (name : String) (k : Disk) :
    ∃ front last, (k.absolute (fileOf home kind name)).parts = front ++ [last] ∧ last ≠ ".." := by
  obtain ⟨some_, x, ends⟩ := Path.name_ofString (fileName name ++ "_" ++ kind.fileSuffix)
    (by decide : '/' ∉ ".yaml".toList) (by decide)
  have joined := Path.name_join (p := directory home) some_
  obtain ⟨named, same⟩ := Path.name_join (p := k.current) joined.1
  refine ⟨_, _, (concat_name named).symm, ?_⟩
  rw [same, joined.2, ends]
  intro up
  have length := congrArg String.length up
  rw [String.length_append, show ".yaml".length = 5 from rfl, show "..".length = 2 from rfl] at length
  omega

theorem no_file_of_exists? {k : Disk} (absent : k.exists? p = .ok false) (f : File) : k.file p ≠ .ok f := by
  intro found
  obtain ⟨real, located, there⟩ := file_eq_ok.1 found
  have node := node_eq_ok.2 ⟨real, located, there⟩
  simp [exists?, Disk.ask, node] at absent

theorem wroteTemplate {file : Path} (run : (writeTemplate file name).outcome (d, w) = (.ok true, s)) :
    ∃ k, w.disk.write file (.document .line (Template.record d.kind name d.theme)) w.now = .ok k ∧
      s = (d, { w with disk := k }) := by
  simp only [writeTemplate, outcome_bind, outcome_document, outcome_liftAction, writeRecord, outcome_write] at run
  cases written : w.disk.write file (.document .line (Template.record d.kind name d.theme)) w.now with
  | error f => simp [written] at run
  | ok k =>
    simp only [written] at run
    cases run
    exact ⟨k, rfl, rfl⟩

/-- What a new document leaves: it has its name and its file, and its record was written where no file
could be read before. -/
theorem generated {overwrite : Bool} (run : (generate name overwrite).outcome (d, w) = (.ok true, s)) :
    ∃ k k' : Disk, k.current = w.disk.current ∧ (∀ f, k.file (fileOf w.context.home d.kind name) ≠ .ok f) ∧
      k.write (fileOf w.context.home d.kind name)
        (.document .line (Template.record d.kind (fileName name) d.theme)) w.now = .ok k' ∧ s = ({ d with name := some (fileName name), file := some (fileOf w.context.home d.kind name) },
        { w with disk := k' }) := by
  have setName (d : Document) (w : Workspace) : (setName name).outcome (d, w) =
      (.ok (fileOf w.context.home d.kind name),
        { d with name := some (fileName name), file := some (fileOf w.context.home d.kind name) }, w) := rfl
  have directory (d : Document) (w : Workspace) :
      ownDirectory.outcome (d, w) = (.ok (directory w.context.home), d, w) := rfl
  simp only [generate, outcome_bind, outcome_document, outcome_setDocument, directory, outcome_liftAction,
    outcome_makeDirs] at run
  cases made : w.disk.makeDirs (Editing.directory w.context.home) with
  | error f => simp [made] at run
  | ok k =>
    have current : k.current = w.disk.current := (frame_makeDirs made).current
    simp only [made, setName, outcome_liftAction, outcome_ask] at run
    cases there : k.exists? (fileOf w.context.home d.kind name) with
    | error f => simp [there] at run
    | ok known =>
      simp only [there] at run
      cases known with
      | false =>
        obtain ⟨k', written, rfl⟩ := wroteTemplate run
        exact ⟨k, k', current, no_file_of_exists? there, written, rfl⟩
      | true =>
        cases overwrite with
        | false => cases run
        | true =>
          simp only [if_true, outcome_bind, outcome_liftAction, outcome_change] at run
          cases unlinked : k.unlink (fileOf w.context.home d.kind name) with
          | error f => simp [unlinked] at run
          | ok k₁ =>
            simp only [unlinked] at run
            obtain ⟨k', written, rfl⟩ := wroteTemplate run
            obtain ⟨front, last, parts, notUp⟩ := parts_fileOf w.context.home d.kind name k
            obtain ⟨_, -, frame, -⟩ := frame_unlink unlinked
            exact ⟨k₁, k', frame.current.trans current,
              fun f => gone_of_unlink parts notUp unlinked, written, rfl⟩

end Editing

end Folio.Cv

/-
# Proofs.Cv.Tended -- documents that edits leave in order

A document holds each of its lists twice: in the record, and as the list that it works on.  In every document that was
loaded and then edited, a list that the record has is the one that the document works on, and a list that the record
does not have is kept beside it (`Tended`).  `Effect.tended` is the step: whatever an edit does, it keeps this.
-/
import Folio.Proofs.Cv.Effect
import Folio.Proofs.Cv.Editing

namespace Folio.Cv.Document

open Editing List Or Value

variable {d' : Document} {e : Edit} {header sections : Value} {key name : String} {p : Part}
  {slots : Part → Slot} {x : Edited}

/-- The list of a part is that of the record, or the record has none and the document keeps one. -/
def Held (d : Document) (p : Part) : Prop :=
  (d.slots p = .live ∧ ∃ xs, listOf d.data p = some (.list xs)) ∨
    (p.inHeader = false ∧ listOf d.data p = none ∧ ∃ xs, d.slots p = .kept (.list xs))

/-- The summary is the first section, and the only one of its name. -/
def SummaryFirst (sections : Value) : Prop :=
  ∃ v rest, sections = .object (("summary", v) :: rest) ∧ ∀ f ∈ rest, f.1 ≠ "summary"

/-- The header has a name, or it has the one that is filled in for none. -/
def HasName (d : Document) : Prop :=
  ((headerOf d.data).getOrNull "name").truthy ∨
    (headerOf d.data).get? "name" = some (.text (shownName (d.name.getD "None")))

structure Tended (d : Document) : Prop where
  record : IsRecord d.data
  live : d.sections = .live
  held : ∀ p ∈ adopted d.kind, d.Held p
  summary : d.summary = .live
  first : SummaryFirst (sectionsOf d.data)
  named : d.HasName

variable {d : Document}

theorem mem_adopted (allowed : d.needs p = .ok ()) : p ∈ adopted d.kind := by
  obtain ⟨-, -, allowed⟩ := Action.ok_of_bind allowed
  unfold needsResume at allowed
  cases kind : d.kind with
  | resume => cases p <;> simp [adopted, Part.all]
  | portfolio =>
    cases p <;> simp_all [adopted, Part.all, Part.resumeOnly]

theorem Held.entries (held : d.Held p) (live : d.sections = .live) : ∃ xs, d.entries p = .list xs := by
  rw [entries_live live]
  rcases held with ⟨own, xs, there⟩ | ⟨-, -, xs, kept⟩
  · exact ⟨xs, by simp [own, there]⟩
  · exact ⟨xs, by simp [kept]⟩

/-! ## The first section -/

theorem summaryFirst_set (first : SummaryFirst sections)
    (ne : key ≠ "summary") (v : Value) : SummaryFirst (sections.set key v) := by
  obtain ⟨s, rest, rfl, others⟩ := first
  refine ⟨s, Fields.set rest key v, ?_, ?_⟩
  · simp [Value.set, Fields.set, beq_eq_false_iff_ne.2 ne.symm]
  · intro f member
    rcases Fields.mem_set member with rfl | old
    · exact ne
    · exact others f old

theorem summaryFirst_erase (first : SummaryFirst sections) (ne : key ≠ "summary") :
    SummaryFirst (sections.erase key) := by
  obtain ⟨s, rest, rfl, others⟩ := first
  refine ⟨s, Fields.erase rest key, ?_, fun f member => others f (mem_filter.1 member).1⟩
  simp [erase, Fields.erase, ne.symm]

theorem summaryFirst_withList {data : Value} (record : IsRecord data) (first : SummaryFirst (sectionsOf data))
    (p : Part) (v : Value) : SummaryFirst (sectionsOf (withList data p v)) := by
  unfold withList
  split
  · rwa [sectionsOf_withHeader record (get?_set_ne _ p.key_ne_sections.symm v)]
  · rw [sectionsOf_withSections record]
    exact summaryFirst_set first p.key_ne_summary v

/-! ## Lists -/

theorem HasName.withList (named : d.HasName) (record : IsRecord d.data) (p : Part) (v : Value)
    (slots : Part → Slot) : HasName { d with data := withList d.data p v, slots := slots } := by
  have same := get?_headerOf_withList record p v (by decide : "name" ≠ "sections") (by decide)
  simpa [HasName, getOrNull, same] using named

namespace Tended

section

variable (tended : d.Tended)

include tended

theorem withList (xs : List Value) (own : slots p = .live) (others : ∀ q, q ≠ p → slots q = d.slots q) :
    Tended { d with data := withList d.data p (.list xs), slots := slots } where
  record := isRecord_withList tended.record p _
  live := tended.live
  summary := tended.summary
  first := summaryFirst_withList tended.record tended.first p _
  named := tended.named.withList tended.record p _ _
  held := by
    intro q adopted
    by_cases here : q = p
    · subst here
      exact inl ⟨own, xs, by simp [listOf_withList tended.record]⟩
    · simpa [Held, listOf_withList tended.record, if_neg here, others q here] using tended.held q adopted

theorem install (p : Part) (xs : List Value) : (d.install p (.list xs)).Tended := by
  rw [install_live tended.live]
  exact tended.withList xs (by simp) fun q ne => if_neg ne

theorem putEntries (adopted : p ∈ adopted d.kind) (xs : List Value) : (d.putEntries p (.list xs)).Tended := by
  rcases tended.held p adopted with ⟨own, -⟩ | ⟨below, none_, old, kept⟩
  · rw [putEntries_live tended.live own]
    exact tended.withList xs own fun _ _ => rfl
  · rw [putEntries_kept kept]
    refine { tended with held := fun q adopted => ?_ }
    by_cases here : q = p
    · subst here
      exact inr ⟨below, none_, xs, by simp⟩
    · simpa [Held, if_neg here] using tended.held q adopted

theorem ready (ready : d.Ready p d') : d'.Tended ∧ d'.kind = d.kind := by
  rcases ready with ⟨-, rfl⟩ | ⟨-, rfl⟩
  · exact ⟨tended, rfl⟩
  · exact ⟨tended.install p [], by rw [install_live tended.live]⟩

theorem live_of_ready (adopted : p ∈ adopted d.kind) (ready : d.Ready p d') : d'.slots p = .live := by
  rcases ready with ⟨has, rfl⟩ | ⟨-, rfl⟩
  · rw [hasList_live tended.live tended.record] at has
    rcases tended.held p adopted with ⟨own, -⟩ | ⟨-, none_, -⟩
    · exact own
    · simp [none_] at has
  · rw [install_live tended.live]
    simp

end

end Tended

/-! ## Header and design -/

theorem get?_setTexts (object : header.isObject) (texts : List (String × String)) (key : String) :
    (texts.foldl (fun h f => h.set f.1 (.text f.2)) header).get? key = header.get? key ∨ ∃ t, (key, t) ∈ texts ∧
        (texts.foldl (fun h f => h.set f.1 (.text f.2)) header).get? key = some (.text t) := by
  induction texts generalizing header with
  | nil => exact inl rfl
  | cons f texts ih =>
    have still : (header.set f.1 (.text f.2)).isObject := by rw [isObject_set, object]
    rcases ih still with same | ⟨t, member, set⟩
    · by_cases here : key = f.1
      · subst here
        rw [get?_set_self object] at same
        exact inr ⟨f.2, mem_cons_self, same⟩
      · rw [get?_set_ne _ here] at same
        exact inl same
    · exact inr ⟨t, mem_cons_of_mem _ member, set⟩

theorem isObject_withContact (header : Value) (fields : Fields) :
    (withContact header fields).isObject = header.isObject := by
  unfold withContact
  induction contactTexts fields generalizing header with
  | nil => rfl
  | cons f texts ih => rw [foldl_cons, ih, isObject_set]

theorem mem_contactTexts {fields : Fields} {text : String} (member : (key, text) ∈ contactTexts fields) :
    key ∈ contactOrder ∧ text ≠ "" := by
  obtain ⟨k, order, made⟩ := mem_filterMap.1 member
  dsimp only at made
  split at made
  · rename_i full
    obtain ⟨rfl, rfl⟩ := Prod.mk.inj (Option.some.inj made)
    exact ⟨order, by simpa using (Bool.and_eq_true_iff.1 full).2⟩
  · cases made

theorem get?_withContact (object : header.isObject) (fields : Fields)
    (other : key ∉ contactOrder) : (withContact header fields).get? key = header.get? key := by
  rcases get?_setTexts object (contactTexts fields) key with same | ⟨t, member, -⟩
  · exact same
  · exact absurd (mem_contactTexts member).1 other

theorem same_withContact (record : IsRecord d.data) (fields : Fields) : ∀ key ∈ ["sections", Part.connections.key],
      (withContact d.header fields).get? key = (headerOf d.data).get? key := by
  intro key member
  refine get?_withContact record.header fields ?_
  revert key
  decide

theorem HasName.contact (named : d.HasName) (record : IsRecord d.data) (fields : Fields) :
    (d.putHeader (withContact d.header fields)).HasName := by
  change HasName { d with data := withHeader d.data (withContact (headerOf d.data) fields) }
  unfold HasName
  simp only [headerOf_withHeader record, getOrNull]
  rcases get?_setTexts record.header (contactTexts fields) "name" with same | ⟨t, member, set⟩
  · simpa [HasName, getOrNull, withContact, same] using named
  · refine inl ?_
    rw [withContact, set]
    simpa [truthy] using (mem_contactTexts member).2

namespace Tended

section

variable (tended : d.Tended)

include tended

theorem putHeader (object : header.isObject)
    (same : ∀ key ∈ ["sections", Part.connections.key], header.get? key = (headerOf d.data).get? key)
    (named : HasName (d.putHeader header)) : (d.putHeader header).Tended where
  record := isRecord_withHeader tended.record object (same _ (by simp))
  live := tended.live
  summary := tended.summary
  first := by
    have sections := sectionsOf_withHeader tended.record (same _ (by simp))
    change SummaryFirst (sectionsOf (withHeader d.data header))
    rw [sections]
    exact tended.first
  named := named
  held := by
    intro p adopted
    have lists : listOf (d.putHeader header).data p = listOf d.data p :=
      listOf_withHeader tended.record same p
    have slots : (d.putHeader header).slots p = d.slots p := rfl
    simpa [Held, lists, slots] using tended.held p adopted

theorem contact (fields : Fields) : (d.putHeader (withContact d.header fields)).Tended := by
  refine tended.putHeader ?_ (same_withContact tended.record fields) (tended.named.contact tended.record fields)
  rw [isObject_withContact]
  exact tended.record.header

theorem theme (v : Value) : Tended { d with data := d.data.set "design" v } where
  record := ⟨by rw [isObject_set, tended.record.whole], by rw [headerOf_withDesign, tended.record.header],
    by rw [sectionsOf_withDesign, tended.record.sections]⟩
  live := tended.live
  summary := tended.summary
  first := by
    rw [sectionsOf_withDesign]
    exact tended.first
  named := by simpa [HasName, headerOf_withDesign] using tended.named
  held := by
    intro p adopted
    simpa [Held, listOf_withDesign] using tended.held p adopted

theorem putSections (first : SummaryFirst sections) (held : ∀ p ∈ adopted d.kind,
      Held { d with data := withSections d.data sections, slots := slots } p) :
    Tended { d with data := withSections d.data sections, summary := .live, slots := slots } where
  record := isRecord_withSections tended.record (by obtain ⟨v, rest, rfl, -⟩ := first; rfl)
  live := tended.live
  summary := rfl
  first := by rw [sectionsOf_withSections tended.record]; exact first
  named := by
    have same := get?_headerOf_withSections tended.record sections (by decide : "name" ≠ "sections")
    simpa [HasName, getOrNull, same] using tended.named
  held := held

theorem writeSummary (v : Value) :
    Tended { d.putSections (d.sectionsValue.set "summary" v) with summary := .live } := by
  rw [putSections_live tended.live, sectionsValue_live tended.live]
  obtain ⟨old, rest, sections, others⟩ := tended.first
  refine tended.putSections ⟨v, rest, by simp [sections, Value.set, Fields.set], others⟩ fun p adopted => ?_
  simpa [Held, listOf_withSummary tended.record] using tended.held p adopted

theorem dropSection (other : name ≠ "summary") : (d.dropSection name).Tended := by
  rw [dropSection_live tended.live other]
  suffices held : ∀ p ∈ adopted d.kind, Held { d with
      data := withSections d.data ((sectionsOf d.data).erase name)
      slots := fun q => if q.inHeader = false ∧ q.key = name then .kept (d.entries q) else d.slots q } p by
    simpa [tended.summary] using tended.putSections (summaryFirst_erase tended.first other) held
  intro p adopted
  by_cases gone : p.inHeader = false ∧ p.key = name
  · obtain ⟨xs, entries⟩ := (tended.held p adopted).entries tended.live
    refine inr ⟨gone.1, ?_, xs, ?_⟩
    · rw [listOf_withSections tended.record, get?_erase, if_neg (by simp [gone.1]), if_pos gone.2]
    · simp [if_pos gone, entries]
  · simpa [Held, listOf_erased tended.record gone, if_neg gone] using tended.held p adopted

end

end Tended

/-! ## Edits -/

theorem sectionsValue_of_fields {fs : Fields} (found : d.sectionFields = .ok fs) : d.sectionsValue = .object fs := by
  unfold sectionFields at found
  split at found
  · rename_i fs' sections
    rw [sections, Except.ok.inj found]
  · cases found

theorem ne_summary_of_later {sections : Fields} (tended : d.Tended)
    (found : d.sectionsValue = .object sections) (later : name ∈ sections.keys.drop 1) : name ≠ "summary" := by
  obtain ⟨v, rest, first, others⟩ := tended.first
  rw [sectionsValue_live tended.live, first] at found
  cases found
  have among : name ∈ Fields.keys rest := later
  obtain ⟨f, member, rfl⟩ := mem_map.1 among
  exact others f member

theorem Effect.tended (effect : Effect d e x) (tended : d.Tended) : x.document.Tended := by
  cases effect with
  | nothing => exact tended
  | contact fields => exact tended.contact fields
  | theme _ _ => exact tended.theme _
  | @summary text _ _ found =>
    have order := tended.writeSummary (.list [text])
    rw [sectionsValue_of_fields found] at order
    exact order
  | made => exact tended.install _ []
  | added _ allowed ready =>
    obtain ⟨order, kind⟩ := tended.ready ready
    exact order.putEntries (by rw [kind]; exact mem_adopted allowed) _
  | modified _ allowed | renewed _ allowed | removed _ allowed | emptied _ _ allowed =>
    exact tended.putEntries (mem_adopted allowed) _
  | replaced => exact tended.install _ []
  | dropped _ found later => exact tended.dropSection (ne_summary_of_later tended found later)

/-- What no edit changes: the kind of a document, its name, its file, and whether it is saved. -/
structure Akin (d d' : Document) : Prop where
  kind : d'.kind = d.kind
  autoSave : d'.autoSave = d.autoSave
  name : d'.name = d.name
  file : d'.file = d.file

theorem Akin.refl (d : Document) : Akin d d := ⟨rfl, rfl, rfl, rfl⟩

theorem Akin.trans {d'' : Document} (first : Akin d d') (second : Akin d' d'') : Akin d d'' :=
  ⟨second.kind.trans first.kind, second.autoSave.trans first.autoSave, second.name.trans first.name,
    second.file.trans first.file⟩

section

variable (live : d.sections = .live)

include live

theorem akin_install (p : Part) (v : Value) : Akin d (d.install p v) := by
  rw [install_live live]
  exact ⟨rfl, rfl, rfl, rfl⟩

theorem akin_putEntries (p : Part) (v : Value) : Akin d (d.putEntries p v) := by
  cases slot : d.slots p with
  | live =>
    rw [putEntries_live live slot]
    exact ⟨rfl, rfl, rfl, rfl⟩
  | kept old =>
    rw [putEntries_kept slot]
    exact ⟨rfl, rfl, rfl, rfl⟩

theorem live_ready (ready : d.Ready p d') : d'.sections = .live := by
  rcases ready with ⟨-, rfl⟩ | ⟨-, rfl⟩
  · exact live
  · rw [install_live live]
    exact live

theorem akin_dropSection (name : String) : Akin d (d.dropSection name) := by
  simp only [dropSection, foldl_keep]
  split
  · rw [putSections_live (by exact live)]
    exact ⟨rfl, rfl, rfl, rfl⟩
  · rw [putSections_live (by exact live)]
    exact ⟨rfl, rfl, rfl, rfl⟩

end

theorem Effect.akin (effect : Effect d e x) (live : d.sections = .live) : Akin d x.document := by
  cases effect with
  | nothing => exact .refl d
  | contact | theme => exact ⟨rfl, rfl, rfl, rfl⟩
  | summary =>
    rw [putSections_live live]
    exact ⟨rfl, rfl, rfl, rfl⟩
  | made => exact akin_install live _ _
  | added _ _ ready =>
    refine .trans ?_ (akin_putEntries (live_ready live ready) _ _)
    rcases ready with ⟨-, rfl⟩ | ⟨-, rfl⟩
    · exact .refl _
    · exact akin_install live _ _
  | modified | renewed | removed | emptied => exact akin_putEntries live _ _
  | replaced => exact akin_install live _ _
  | dropped => exact akin_dropSection live _

/-! ## What is told -/

variable (live : d.sections = .live) (record : IsRecord d.data)

include live record

theorem takenNames_install (p : Part) : (d.install p (.list [])).takenNames p = .ok [] := by
  have entries : (d.install p (.list [])).entries p = .list [] := by
    rw [install_live live, entries_live (by exact live)]
    simp [listOf_withList record]
  unfold takenNames
  rw [entries]
  split <;> rfl

theorem account_of_apply (kept : ∀ n, e ≠ .removeSection n) (run : d.apply e = .ok x) : Account d e x :=
  (told_of_apply run).2 kept (takenNames_install live record)

end Folio.Cv.Document

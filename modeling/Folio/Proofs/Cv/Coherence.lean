/-
# Proofs.Cv.Coherence -- a document and what is loaded from its file

After any operations the file of a document can be loaded again, and what is loaded answers as the document does, except
for a part that is `Detached`: the record has no list for it and the document still holds entries.  Only taking a
section out of the record brings a part there.
-/
import Folio.Proofs.Cv.Saved

namespace Folio.Cv

open Document Editing

variable {p : Part} {xs : List Value}

namespace Document

variable {d r : Document}

/-- The document has entries for a part that its record has no list for. -/
def Detached (d : Document) (p : Part) : Prop :=
  d.hasList p = .ok false ∧ ∃ x xs, d.list p = .ok (.list (x :: xs))

/-! ## Answers -/

section

variable (record : IsRecord d.data)

include record

theorem needsData_of_record : d.needsData = .ok () := by
  have header : d.data.fieldD "cv" .null = .ok (headerOf d.data) := Value.fieldD_of_isObject record.whole _ _
  simp [needsData, Value.isNull_of_isObject record.whole, header, Value.isNull_of_isObject record.header,
    Bind.bind, Except.bind, Pure.pure, Except.pure]

theorem contact_of_record : d.contact = .ok (.object (contactFields.map fun key =>
      (key, ((headerOf d.data).get? key).getD (.text "")))) := by
  have header : ∀ key, d.header.fieldD key (.text "") = .ok (((headerOf d.data).get? key).getD (.text "")) :=
    fun key => Value.fieldD_of_isObject record.header key _
  rw [contact, needsData_of_record record]
  simp only [header]
  rfl

theorem designTheme_of_record :
    d.designTheme = ((d.data.get? "design").getD (.object [])).fieldD "theme" (.text "sb2nov") := by
  rw [designTheme, needsData_of_record record, Value.fieldD_of_isObject record.whole]
  rfl

theorem needs_of_record (p : Part) : d.needs p = if p.resumeOnly then d.needsResume else .ok () := by
  rw [needs, needsData_of_record record]
  rfl

theorem answers_of_entries (allowed : d.needs p = .ok ()) (entries : d.entries p = .list xs) :
    d.list p = .ok (.list xs) ∧ d.count p = .ok xs.length := by
  constructor
  · rw [list, allowed, entries]
    cases xs <;> rfl
  · rw [needs_of_record record] at allowed
    rw [count, entries]
    by_cases only : p.resumeOnly
    · rw [if_pos only] at allowed ⊢
      rw [allowed]
      rfl
    · rw [if_neg only]
      rfl

end

def notAResume : Fault := .say .badValue "Method requires document type 'resume'"

theorem answers_of_not_adopted (record : IsRecord d.data) (foreign : p ∉ adopted d.kind) :
    d.list p = .error notAResume ∧ d.count p = .error notAResume := by
  have kind : d.kind = .portfolio ∧ p.resumeOnly := by
    cases kind : d.kind <;> cases p <;> simp_all [adopted, Part.all]
  have refused : d.needsResume = .error notAResume := by
    rw [needsResume, kind.1]
    rfl
  constructor
  · rw [list, needs_of_record record, if_pos kind.2, refused]
    rfl
  · rw [count, if_pos kind.2, refused]
    rfl

theorem allowed_of_adopted (record : IsRecord d.data) (adopted : p ∈ Editing.adopted d.kind) : d.needs p = .ok () := by
  rw [needs_of_record record]
  cases kind : d.kind <;> cases p <;>
    simp_all [Editing.adopted, needsResume, Pure.pure, Except.pure]

end Document

/-! ## Loading again -/

variable {d r fresh : Document} {w : Workspace} {file : Path} {data : Value}

theorem entries_opened (opened : Opened fresh data r) (record : IsRecord data)
    (adopted : p ∈ adopted fresh.kind) : r.entries p = (listOf (filled fresh.name data) p).getD (.list []) := by
  rw [entries_live opened.sections, opened.slots p adopted, opened.record, listOf_filled record]
  cases listOf data p <;> rfl

section

variable (opened : Opened fresh data r) (saved : Saved d w file data) (tended : d.Tended)
  (kind : fresh.kind = d.kind) (name : fresh.name = d.name)

include opened saved tended kind name

theorem loaded_entries (adopted : p ∈ adopted d.kind) : ∃ xs ys, d.entries p = .list xs ∧ r.entries p = .list ys ∧
      ys = if (listOf d.data p).isSome then xs else [] := by
  have entries := entries_opened opened saved.record (by rwa [kind])
  rw [name] at entries
  rw [entries, entries_live tended.live]
  rcases tended.held p adopted with ⟨own, xs, there⟩ | ⟨-, none_, xs, kept⟩
  · refine ⟨xs, xs, by simp [own, there], ?_, by simp [there]⟩
    rcases saved.same.lists p with alike | ⟨gone, empty⟩
    · rw [alike, there]
      rfl
    · rw [there] at empty
      cases empty
      rw [gone]
      rfl
  · refine ⟨xs, [], by simp [kept], ?_, by simp [none_]⟩
    rcases saved.same.lists p with alike | ⟨gone, -⟩
    · rw [alike, none_]
      rfl
    · rw [gone]
      rfl

theorem lists_opened (p : Part) : (r.list p = d.list p ∧ r.count p = d.count p) ↔ ¬ d.Detached p := by
  have record : IsRecord r.data := by
    rw [opened.record]
    exact isRecord_filled saved.record _
  have alike : r.kind = d.kind := opened.kind.trans kind
  unfold Detached
  by_cases adopted : p ∈ adopted d.kind
  · obtain ⟨xs, ys, mine, its, loaded⟩ := loaded_entries opened saved tended kind name adopted
    obtain ⟨list, count⟩ :=
      answers_of_entries tended.record (allowed_of_adopted tended.record adopted) mine
    obtain ⟨list', count'⟩ :=
      answers_of_entries record (allowed_of_adopted record (by rwa [alike])) its
    rw [list, count, list', count', hasList_live tended.live tended.record]
    subst loaded
    cases listOf d.data p with
    | some v => simp
    | none => cases xs <;> simp
  · obtain ⟨list, count⟩ := answers_of_not_adopted tended.record adopted
    obtain ⟨list', count'⟩ := answers_of_not_adopted record (by rwa [alike])
    simp [list, count, list', count']

end

theorem loaded_again (coherent : Coherent d w) (kind : fresh.kind = d.kind) (name : fresh.name = d.name)
    (place : fresh.file = d.file) : ∃ r, (load none).outcome (fresh, w) = (.ok r.data, r, w) ∧ r.contact = d.contact ∧
      r.designTheme = d.designTheme ∧ r.summaryText = d.summaryText ∧
      ∀ p, (r.list p = d.list p ∧ r.count p = d.count p) ↔ ¬ d.Detached p := by
  obtain ⟨tended, -, file, data, saved⟩ := coherent
  obtain ⟨r, outcome, opened⟩ := outcome_takeIn (d := fresh) (w := w) saved.record
  have record : IsRecord r.data := by
    rw [opened.record]
    exact isRecord_filled saved.record _
  have same : Matches r.data d.data := by
    rw [opened.record, name]
    exact saved.same
  refine ⟨r, ?_, ?_, ?_, ?_, lists_opened opened saved tended kind name⟩
  · rw [outcome_load (place.trans saved.place) saved.exists? saved.read, outcome]
  · rw [contact_of_record record, contact_of_record tended.record]
    congr 2
    refine List.map_congr_left fun key member => ?_
    rw [same.contact key member]
  · rw [designTheme_of_record record, designTheme_of_record tended.record, same.design]
  · obtain ⟨v, rest, sections, -⟩ := tended.first
    have there : (sectionsOf data).get? "summary" = some v := by
      have summary := saved.same.summary
      rwa [sectionsOf_filled saved.record, sections] at summary
    have summary : r.summaryValue = d.summaryValue := by
      rw [summaryValue, opened.summary, there, summaryValue, tended.summary,
        sectionsValue_live opened.sections, sectionsValue_live tended.live]
      simp [Value.getOrNull, same.summary]
    rw [summaryText, needsData_of_record record, summary, summaryText, needsData_of_record tended.record]

/-! ## Documents that keep no entries beside their record -/

namespace Document

/-- No entries are kept beside the record. -/
def Attached (d : Document) : Prop :=
  ∀ p ∈ adopted d.kind, ∀ xs, d.slots p = .kept (.list xs) → xs = []

section

variable (attached : d.Attached) (tended : d.Tended)

include attached tended

theorem Attached.live_of_found {name : Value}
    {i : Nat} (allowed : d.needs p = .ok ()) (list : (d.entries p).elements = .ok xs)
    (found : find? p name xs = .ok (some i)) : d.slots p = .live := by
  rcases tended.held p (mem_adopted allowed) with ⟨own, -⟩ | ⟨-, -, ys, kept⟩
  · exact own
  · rw [entries_live tended.live, kept, attached p (mem_adopted allowed) ys kept] at list
    cases list
    cases found

theorem Attached.putEntries (own : d.slots p = .live) (v : Value) : (d.putEntries p v).Attached := by
  rw [putEntries_live tended.live own]
  exact attached

theorem Attached.install (p : Part) (v : Value) : (d.install p v).Attached := by
  rw [install_live tended.live]
  intro q adopted xs kept
  by_cases here : q = p
  · simp [here] at kept
  · exact attached q adopted xs (by simpa [here] using kept)

end

theorem Effect.attached {e : Edit} {x : Edited} (effect : Effect d e x) (tended : d.Tended) (attached : d.Attached)
    (kept : ∀ n, e ≠ .removeSection n) : x.document.Attached := by
  cases effect with
  | nothing | contact | theme => exact attached
  | summary =>
    rw [putSections_live tended.live]
    exact attached
  | made => exact attached.install tended _ _
  | added _ allowed ready =>
    refine Attached.putEntries ?_ (tended.ready ready).1 (tended.live_of_ready (mem_adopted allowed) ready) _
    rcases ready with ⟨-, rfl⟩ | ⟨-, rfl⟩
    · exact attached
    · exact attached.install tended _ _
  | modified _ allowed _ list found | renewed _ allowed list found | removed _ allowed list found =>
    exact attached.putEntries tended (attached.live_of_found tended allowed list found) _
  | emptied p _ allowed =>
    rcases tended.held p (mem_adopted allowed) with ⟨own, -⟩ | ⟨-, -, ys, kept⟩
    · exact attached.putEntries tended own _
    · rw [putEntries_kept kept]
      intro q adopted xs kept
      by_cases here : q = p
      · simpa [here] using kept
      · exact attached q adopted xs (by simpa [here] using kept)
  | replaced => exact attached.install tended _ _
  | dropped => exact absurd rfl (kept _)

end Document

theorem Document.not_detached (tended : d.Tended) (attached : d.Attached) : ¬ d.Detached p := by
  rintro ⟨none_, x, xs, list⟩
  by_cases adopted : p ∈ adopted d.kind
  · have allowed := allowed_of_adopted tended.record adopted
    rw [hasList_live tended.live tended.record] at none_
    rcases tended.held p adopted with ⟨-, ys, there⟩ | ⟨-, -, ys, kept⟩
    · simp [there] at none_
    · obtain rfl := attached p adopted ys kept
      have entries : d.entries p = .list [] := by simp [entries_live tended.live, kept]
      rw [(answers_of_entries tended.record allowed entries).1] at list
      cases list
  · rw [(answers_of_not_adopted tended.record adopted).1] at list
    cases list

theorem attached_after {os : List Operation} {s : Document × Workspace} (coherent : Coherent s.1 s.2)
    (attached : s.1.Attached) (kept : ∀ o ∈ os, ∀ n, o ≠ .edit (.removeSection n)) : (after os s).1.Attached := by
  refine (keeps_after (P := fun s => Coherent s.1 s.2 ∧ s.1.Attached) ?_ ?_ ⟨coherent, attached⟩).2
  · rintro d w printed ⟨⟨tended, autoSave, file, r, saved⟩, attached⟩
    exact ⟨⟨tended, autoSave, file, r, saved.place, saved.rooted, saved.held, saved.record, saved.same⟩, attached⟩
  · rintro o member e made d w ⟨coherent, attached⟩
    refine ⟨coherent_edit coherent, ?_⟩
    rw [document_edit]
    cases applied : d.apply e with
    | error f => exact attached
    | ok x =>
      refine (effect_of_apply applied).attached coherent.tended attached fun n same => ?_
      subst same
      cases o with
      | edit e =>
        cases made
        exact kept _ member n rfl
      | fromModel path =>
        obtain ⟨_, same⟩ := made
        cases same

theorem attached_new {data : Value} (opened : Opened d data r) : r.Attached := by
  intro p adopted xs kept
  rw [opened.kind] at adopted
  rw [opened.slots p adopted] at kept
  split at kept
  · cases kept
  · cases kept
    rfl

/-- A document that was made, loaded and then edited by any operations can be loaded again from its file,
and what is loaded answers as the document does, but for the entries of a part whose section is gone.
Where no section was taken out, every answer is the same. -/
theorem loads_as_edited {name : String} {overwrite : Bool} {v : Value} {s s' : Document × Workspace}
    {os : List Operation} {e : Document} {w' : Workspace} (rooted : w.disk.current.isAbsolute = true)
    (autoSave : d.autoSave = true)
    (generated : (generate name overwrite).outcome (d, w) = (.ok true, s))
    (loaded : (load none).outcome s = (.ok v, s')) (edited : after os s' = (e, w'))
    (kind : fresh.kind = e.kind) (named : fresh.name = e.name) (place : fresh.file = e.file) :
    ∃ r, (load none).outcome (fresh, w') = (.ok r.data, r, w') ∧
      r.contact = e.contact ∧ r.designTheme = e.designTheme ∧ r.summaryText = e.summaryText ∧
      (∀ p, (r.list p = e.list p ∧ r.count p = e.count p) ↔ ¬ e.Detached p) ∧
      ((∀ o ∈ os, ∀ n, o ≠ .edit (.removeSection n)) → ∀ p, r.list p = e.list p ∧ r.count p = e.count p) := by
  have coherent := coherent_new rooted autoSave generated loaded
  obtain ⟨-, -, -, -, opened, -⟩ := opened_new generated loaded
  have now := coherent_after os coherent
  rw [edited] at now
  obtain ⟨r, again, contact, theme, summary, lists⟩ := loaded_again now kind named place
  refine ⟨r, again, contact, theme, summary, lists, fun kept p => (lists p).2 ?_⟩
  have attached := attached_after coherent (attached_new opened) kept
  rw [edited] at attached
  exact Document.not_detached now.tended attached

def desk : Workspace :=
  { (default : Workspace) with
    disk := ⟨.dir [], ⟨"/", []⟩, "user", 0⟩
    context := Context.ofHome ⟨"/", []⟩ }

def madeResume : Document × Workspace :=
  ((generate "Jane Doe" false).outcome ({ kind := .resume }, desk)).2

def newResume : Document × Workspace := ((load none).outcome madeResume).2

/-- An award, another name, and no section for the education. -/
def janesEdits : List Operation := [.edit (.add .awards [("name", .text "Prize")]),
  .edit (.contact [("name", .text "Jane")]), .edit (.removeSection (.int 0))]

def janesResume : Document × Workspace := after janesEdits newResume

def Document.again (d : Document) : Document := { kind := d.kind, name := d.name, file := d.file }

theorem Document.again_same (d : Document) :
    d.again.kind = d.kind ∧ d.again.name = d.name ∧ d.again.file = d.file := ⟨rfl, rfl, rfl⟩

theorem generated_madeResume :
    (generate "Jane Doe" false).outcome ({ kind := .resume }, desk) = (.ok true, madeResume) := by
  have fine : ((generate "Jane Doe" false).outcome ({ kind := .resume }, desk)).1 = .ok true := by
    decide
  rw [madeResume, ← fine]

theorem loaded_newResume : ∃ v, (load none).outcome madeResume = (.ok v, newResume) := by
  have fine : ((load none).outcome madeResume).1.isOk := by decide
  cases loaded : ((load none).outcome madeResume).1 with
  | error f => simp [loaded, Except.toBool] at fine
  | ok v => exact ⟨v, by rw [newResume, ← loaded]⟩

theorem janesResume_loads :
    janesResume.1.count .awards = .ok 1 ∧
      ∃ r, (load none).outcome (janesResume.1.again, janesResume.2) = (.ok r.data, r, janesResume.2) ∧
        r.contact = janesResume.1.contact ∧
        (∀ p, (r.list p = janesResume.1.list p ∧ r.count p = janesResume.1.count p) ↔ ¬ janesResume.1.Detached p) := by
  obtain ⟨v, loaded⟩ := loaded_newResume
  have edited : after janesEdits newResume = (janesResume.1, janesResume.2) := (Prod.eta janesResume).symm
  obtain ⟨kind, name, file⟩ := Document.again_same janesResume.1
  obtain ⟨r, again, contact, -, -, lists, -⟩ :=
    loads_as_edited rfl rfl generated_madeResume loaded edited kind name file
  exact ⟨by decide +kernel, r, again, contact, lists⟩

def withoutEducation : Document × Workspace := after [.edit (.removeSection (.int 0))] newResume

/-- The document goes on showing the entries of a section that was taken out; its file has none. -/
theorem removed_education_stays : withoutEducation.1.count .education = .ok 1 ∧
    ((load none).outcome (withoutEducation.1.again, withoutEducation.2)).2.1.count .education = .ok 0 := by
  decide +kernel

end Folio.Cv

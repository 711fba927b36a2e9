/-
# Proofs.Cv.Saved -- the file of a document follows its edits

`Saved` says that the file of a document holds a record which, loaded again, says what the record in memory says.  The
two can differ in one thing only: an entry that could not be added may have left an empty list in memory that is not
saved yet.  `coherent_edit` is the step and `coherent_after` the run.
-/
import Folio.Cv.Projects
import Folio.Proofs.Cv.Tended

namespace Folio.Cv

open Action Disk Document Value

open Editing (filled fileOf fileName)

variable {data v : Value} {e : Edit} {name : String} {overwrite : Bool} {s s' : Document × Workspace}

/-! ## Records that say the same -/

/-- Two records say the same, but for empty lists that only the second one has. -/
structure Matches (r data : Value) : Prop where
  design : r.get? "design" = data.get? "design"
  contact : ∀ key ∈ contactFields, (headerOf r).get? key = (headerOf data).get? key
  summary : (sectionsOf r).get? "summary" = (sectionsOf data).get? "summary"
  lists : ∀ p, listOf r p = listOf data p ∨ (listOf r p = none ∧ listOf data p = some (.list []))

theorem Matches.refl (data : Value) : Matches data data :=
  ⟨rfl, fun _ _ => rfl, rfl, fun _ => Or.inl rfl⟩

theorem Matches.install {r : Value} (same : Matches r data) (record : IsRecord data) {p : Part}
    (none_ : listOf data p = none) : Matches r (withList data p (.list [])) where
  design := by rw [get?_withList _ _ (by decide), same.design]
  contact := by
    intro key member
    have other : key ≠ "sections" ∧ key ≠ Part.connections.key := by
      revert key
      decide
    rw [get?_headerOf_withList record _ _ other.1 other.2, same.contact key member]
  summary := by rw [get?_sectionsOf_withList record _ _ p.key_ne_summary.symm, same.summary]
  lists := by
    intro q
    rw [listOf_withList record]
    by_cases here : q = p
    · subst here
      refine Or.inr ⟨?_, by simp⟩
      rcases same.lists q with alike | ⟨gone, -⟩
      · rw [alike, none_]
      · exact gone
    · simpa [if_neg here] using same.lists q

theorem isRecord_filled (record : IsRecord data) (name : Option String) : IsRecord (filled name data) := by
  unfold filled
  split
  · exact record
  · exact isRecord_withHeader record (by rw [isObject_set, record.header]) (get?_set_ne _ (by decide) _)

theorem listOf_filled (record : IsRecord data) (name : Option String) (p : Part) :
    listOf (filled name data) p = listOf data p := by
  unfold filled
  split
  · rfl
  · unfold listOf placeOf
    rw [sectionsOf_withHeader record (get?_set_ne _ (by decide) _), headerOf_withHeader record]
    split
    · exact get?_set_ne _ (by cases p <;> decide) _
    · rfl

theorem sectionsOf_filled (record : IsRecord data) (name : Option String) :
    sectionsOf (filled name data) = sectionsOf data := by
  unfold filled
  split
  · rfl
  · exact sectionsOf_withHeader record (get?_set_ne _ (by decide) _)

theorem filled_of_hasName {d : Document} (record : IsRecord d.data) (named : d.HasName) :
    filled d.name d.data = d.data := by
  unfold filled
  split
  · rfl
  · rename_i none_
    rcases named with truthy | there
    · exact absurd truthy none_
    · rw [set_of_get? there]
      exact set_of_get? (get?_of_isObject record.header)

/-! ## Files -/

/-- The file of a document holds a record that says what the record in memory says. -/
structure Saved (d : Document) (w : Workspace) (file : Path) (r : Value) : Prop where
  place : d.file = some file
  rooted : (w.disk.absolute file).isAbsolute
  held : ∃ f, w.disk.file file = .ok f ∧ f.content = .document .line r
  record : IsRecord r
  same : Matches (filled d.name r) d.data

variable {d : Document} {w : Workspace} {file : Path} {r : Value}

theorem Saved.exists? (saved : Saved d w file r) : w.disk.exists? file = .ok true := by
  obtain ⟨f, found, -⟩ := saved.held
  exact exists?_of_file found

theorem Saved.read (saved : Saved d w file r) : w.disk.record file = .ok r := by
  obtain ⟨f, found, content⟩ := saved.held
  exact record_of_file found content

theorem Saved.save {d' : Document} (saved : Saved d w file r) (tended : d'.Tended) (place : d'.file = d.file) :
    ∃ k, ((Editing.save none).outcome (d', w)).2 = (d', { w with disk := k }) ∧
      Saved d' { w with disk := k } file d'.data := by
  obtain ⟨f, found, -⟩ := saved.held
  obtain ⟨k, written, current, read⟩ :=
    write_file saved.rooted found (.document .line d'.data) w.now
  have own : d'.file = some file := place.trans saved.place
  refine ⟨k, ?_, ?_⟩
  · rw [Editing.outcome_save (isNull_of_isObject tended.record.whole) own, written]
  · refine ⟨own, ?_, ⟨_, read, rfl⟩, tended.record, ?_⟩
    · simpa [absolute, current] using saved.rooted
    · rw [filled_of_hasName tended.record tended.named]
      exact .refl _

/-! ## Operations -/

inductive Operation where
  | edit (e : Edit)
  /-- Add the project whose directory a file names, as the language model tells about it. -/
  | fromModel (file : String)

def Operation.run : Operation → Editing Reply
  | .edit e => Editing.edit e
  | .fromModel file => Editing.addFromModel file

/-- The document and the workspace after operations; one that fails is followed by the next one. -/
def after (os : List Operation) (s : Document × Workspace) : Document × Workspace :=
  os.foldl (fun s o => (o.run.outcome s).2) s

/-- The edits that an operation may come down to. -/
def Operation.MayMake : Operation → Edit → Prop
  | .edit e, e' => e' = e
  | .fromModel _, e' => ∃ given, e' = .add .projects given

theorem state_modelProject (place : Value) (w : Workspace) : ((Resume.modelProject place).outcome w).2 = w := by
  cases place with
  | text s =>
    refine state_bind (P := (· = w)) (fun _ _ => rfl) fun root _ => ?_
    refine state_bind (P := (· = w)) (fun _ _ => rfl) fun there _ => ?_
    cases there with
    | false => rfl
    | true =>
      refine state_bind (P := (· = w)) (fun _ _ => rfl) fun services _ => ?_
      cases services.modelKey <;> rfl
  | _ => rfl

theorem state_modelProfile (root : Path) (w : Workspace) :
    ∃ printed, ((Resume.modelProfile root).outcome w).2 = { w with printed } := by
  refine state_bind (P := fun s => ∃ printed, s = { w with printed }) (fun _ _ => ⟨_, rfl⟩) fun _ _ => ?_
  refine state_bind (P := fun s => ∃ printed, s = { w with printed }) (fun _ _ => ⟨_, rfl⟩) fun _ _ => ?_
  exact state_bind (P := fun s => ∃ printed, s = { w with printed }) (fun _ _ => ⟨_, rfl⟩)
    fun _ _ => ⟨_, rfl⟩

section Keeping

-- A condition that does not look at what was printed.
variable {P : Document × Workspace → Prop}
  (printing : ∀ d w printed, P (d, w) → P (d, { w with printed }))

include printing

theorem Operation.keeps {o : Operation}
    (editing : ∀ e, o.MayMake e → ∀ d w, P (d, w) → P ((Editing.edit e).outcome (d, w)).2)
    {d : Document} {w : Workspace} (now : P (d, w)) : P (o.run.outcome (d, w)).2 := by
  cases o with
  | edit e => exact editing e rfl d w now
  | fromModel path =>
    refine Editing.state_bind (fun _ _ => now) fun _ _ => ?_
    refine Editing.state_bind (fun _ _ => now) fun _ _ => ?_
    refine Editing.state_bind (fun _ _ => now) fun data _ => ?_
    refine Editing.state_bind (fun _ _ => now) fun place _ => ?_
    simp only [Editing.outcome_document, Editing.outcome_liftExcept, Editing.outcome_liftAction, outcome_ask]
    refine Editing.state_bind (fun _ _ => ?_) fun root _ => ?_
    · rw [Editing.outcome_liftAction, state_modelProject]
      exact now
    rw [Editing.outcome_liftAction, state_modelProject]
    obtain ⟨printed, told⟩ := state_modelProfile root w
    have then_ : P (d, { w with printed }) := printing d w printed now
    refine Editing.state_bind (fun _ _ => ?_) fun profile _ => ?_
    · rw [Editing.outcome_liftAction, told]
      exact then_
    rw [Editing.outcome_liftAction, told]
    exact editing _ ⟨_, rfl⟩ _ _ (printing _ _ _ then_)

theorem keeps_after {os : List Operation}
    (editing : ∀ o ∈ os, ∀ e, o.MayMake e → ∀ d w, P (d, w) → P ((Editing.edit e).outcome (d, w)).2)
    (now : P s) : P (after os s) := by
  induction os generalizing s with
  | nil => exact now
  | cons o os ih =>
    have step := o.keeps printing (editing o List.mem_cons_self) now
    exact ih (fun o member => editing o (List.mem_cons_of_mem _ member)) step

end Keeping

/-- A document in order with its file. -/
structure Coherent (d : Document) (w : Workspace) : Prop where
  tended : d.Tended
  autoSave : d.autoSave
  saved : ∃ file r, Saved d w file r

/-- An edit that is not saved has changed nothing, or it has made an empty list where there was none. -/
theorem Document.Effect.unsaved {x : Edited} (effect : Effect d e x) (kept : x.changed = false) :
    x.document = d ∨ ∃ p, d.hasList p = .ok false ∧ x.document = d.install p (.list []) := by
  cases effect with
  | nothing => exact Or.inl rfl
  | made _ _ none_ => exact Or.inr ⟨_, none_, rfl⟩
  | _ => cases kept

theorem coherent_edit (coherent : Coherent d w) :
    Coherent ((Editing.edit e).outcome (d, w)).2.1 ((Editing.edit e).outcome (d, w)).2.2 := by
  obtain ⟨tended, autoSave, file, r, saved⟩ := coherent
  rw [Editing.state_edit]
  cases applied : d.apply e with
  | error f => exact ⟨tended, autoSave, file, r, saved⟩
  | ok x =>
    have effect := effect_of_apply applied
    have akin := effect.akin tended.live
    have order := effect.tended tended
    simp only [autoSave]
    cases changed : x.changed with
    | true =>
      obtain ⟨k, state, now⟩ := saved.save order akin.file
      simp only [state]
      exact ⟨order, akin.autoSave.trans autoSave, file, _, now⟩
    | false =>
      refine ⟨order, akin.autoSave.trans autoSave, file, r, akin.file.trans saved.place, saved.rooted,
        saved.held, saved.record, ?_⟩
      rcases effect.unsaved changed with same | ⟨p, none_, made⟩
      · rw [same]
        exact saved.same
      · rw [made, install_live tended.live]
        rw [hasList_live tended.live tended.record] at none_
        exact saved.same.install tended.record (by simpa using none_)

theorem coherent_after (os : List Operation) (coherent : Coherent s.1 s.2) : Coherent (after os s).1 (after os s).2 := by
  refine keeps_after (P := fun s => Coherent s.1 s.2) ?_ (fun _ _ _ _ _ _ => coherent_edit) coherent
  rintro d w printed ⟨tended, autoSave, file, r, saved⟩
  exact ⟨tended, autoSave, file, r, saved.place, saved.rooted, saved.held, saved.record, saved.same⟩

/-! ## New documents -/

/-- A record with a list, or with none, for each part that a document takes from it. -/
def Listed (data : Value) (kind : Kind) : Prop :=
  ∀ p ∈ Editing.adopted kind, (∃ xs, listOf data p = some (.list xs)) ∨ (p.inHeader = false ∧ listOf data p = none)

theorem tended_opened {o : Document} (opened : Editing.Opened d data o) (record : IsRecord data)
    (listed : Listed data d.kind) (first : SummaryFirst (sectionsOf data)) : o.Tended where
  record := by
    rw [opened.record]
    exact isRecord_filled record _
  live := opened.sections
  summary := by
    obtain ⟨v, rest, sections, -⟩ := first
    rw [opened.summary, sections]
    rfl
  first := by
    rw [opened.record, sectionsOf_filled record]
    exact first
  named := by
    unfold HasName
    rw [opened.record, opened.name]
    by_cases there : ((headerOf data).getOrNull "name").truthy
    · rw [filled, if_pos there]
      exact Or.inl there
    · simp [filled, if_neg there, headerOf_withHeader record, get?_set_self record.header]
  held := by
    intro p adopted
    rw [opened.kind] at adopted
    unfold Held
    rw [opened.record, listOf_filled record, opened.slots p adopted]
    rcases listed p adopted with ⟨xs, there⟩ | ⟨below, none_⟩
    · exact Or.inl ⟨by simp [there], xs, there⟩
    · exact Or.inr ⟨below, none_, [], by simp [none_]⟩

theorem isRecord_template (kind : Kind) (name : String) (theme : Value) :
    IsRecord (Template.record kind name theme) := ⟨rfl, rfl, rfl⟩

theorem listed_template (kind : Kind) (name : String) (theme : Value) :
    Listed (Template.record kind name theme) kind := by
  intro p adopted
  cases kind with
  | resume =>
    cases p with
    | awards => exact Or.inr ⟨rfl, rfl⟩
    | projects | connections | experience | education | skills => exact Or.inl ⟨_, rfl⟩
  | portfolio =>
    cases p with
    | awards => exact Or.inr ⟨rfl, rfl⟩
    | projects | connections | skills => exact Or.inl ⟨_, rfl⟩
    | experience | education => simp [Editing.adopted, Part.resumeOnly] at adopted

theorem summaryFirst_template (kind : Kind) (name : String) (theme : Value) :
    SummaryFirst (sectionsOf (Template.record kind name theme)) := by
  cases kind with
  | resume => exact ⟨_, [_, _, _, _], rfl, by simp [Template.education, Template.experience, Template.projects, Template.skills]⟩
  | portfolio => exact ⟨_, [_, _], rfl, by simp [Template.projects, Template.skills]⟩

section

variable (generated : (Editing.generate name overwrite).outcome (d, w) = (.ok true, s))
  (loaded : (Editing.load none).outcome s = (.ok v, s'))

include generated loaded

theorem opened_new : s.1.kind = d.kind ∧ s.1.autoSave = d.autoSave ∧ s'.2 = s.2 ∧ s.2.disk.current = w.disk.current ∧
      Editing.Opened s.1 (Template.record d.kind (fileName name) d.theme) s'.1 ∧
      ∃ file f, s.1.file = some file ∧ s.2.disk.file file = .ok f ∧
        f.content = .document .line (Template.record d.kind (fileName name) d.theme) := by
  obtain ⟨k, k', current, nothing, written, rfl⟩ := Editing.generated generated
  obtain ⟨file, data, place, read, taken⟩ := Editing.loaded loaded
  obtain rfl := Option.some.inj place
  have record := isRecord_template d.kind (fileName name) d.theme
  generalize Template.record d.kind (fileName name) d.theme = template at *
  -- No file could be read there before, so the one that is read is the one that was written.
  obtain ⟨c, content, read⟩ := ok_of_bind read
  obtain ⟨f, found, content⟩ := ok_of_bind content
  obtain rfl : f.content = c := Except.ok.inj content
  have held : f.content = .document .line template := by
    rcases file_of_write written found with before | rfl
    · exact absurd before (nothing f)
    · rfl
  rw [held] at read
  obtain rfl : template = data := Except.ok.inj read
  obtain ⟨o, outcome, opened⟩ := Editing.outcome_takeIn (d := { d with
    name := some (fileName name), file := some (fileOf w.context.home d.kind name) }) (w := { w with disk := k' }) record
  rw [outcome] at taken
  obtain ⟨-, rfl⟩ := Prod.mk.inj taken
  obtain ⟨_, -, frame⟩ := frame_write written
  exact ⟨rfl, rfl, rfl, frame.current.trans current, opened, _, f, rfl, found, held⟩

theorem tended_new : s'.1.Tended := by
  obtain ⟨kind, -, -, -, opened, -⟩ := opened_new generated loaded
  refine tended_opened opened (isRecord_template _ _ _) ?_ (summaryFirst_template _ _ _)
  rw [kind]
  exact listed_template _ _ _

end

theorem coherent_new (rooted : w.disk.current.isAbsolute) (autoSave : d.autoSave)
    (generated : (Editing.generate name overwrite).outcome (d, w) = (.ok true, s))
    (loaded : (Editing.load none).outcome s = (.ok v, s')) : Coherent s'.1 s'.2 := by
  obtain ⟨-, saves, same, current, opened, file, f, place, found, held⟩ := opened_new generated loaded
  refine ⟨tended_new generated loaded, opened.autoSave.trans (saves.trans autoSave), file, _,
    opened.file.trans place, ?_, ⟨f, by rw [same, found], held⟩, isRecord_template _ _ _, ?_⟩
  · rw [same, absolute, current]
    exact Path.isAbsolute_join rooted _
  · rw [opened.record, opened.name]
    exact .refl _

end Folio.Cv

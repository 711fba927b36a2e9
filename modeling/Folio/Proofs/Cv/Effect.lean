/-
# Proofs.Cv.Effect -- what an edit can do to a document, and what is told about it

`Document.apply` has nine kinds of edits, and most of them can come out in several ways.  `Effect` has one rule for each
way, with the new document in the operations of `Cv.Document`; `Account` is the list of what is told.  `told_of_apply`
says that there are no other ways.  Every property of edited documents is a case analysis on the two; no other proof
opens `apply`.
-/
import Folio.Cv.Edit
import Folio.Proofs.Action
import Folio.Proofs.Value

namespace Folio.Cv.Document

open Fields List

variable {entry : Fields} {name : Value} {p : Part}

/-- The document to which an entry of a part is added: a new list stands in it if there was none. -/
def Ready (d : Document) (p : Part) (d' : Document) : Prop :=
  (d.hasList p = .ok true ∧ d' = d) ∨ (d.hasList p = .ok false ∧ d' = d.install p (.list []))

def withContact (header : Value) (fields : Fields) : Value :=
  (contactTexts fields).foldl (fun h f => h.set f.1 (.text f.2)) header

inductive Effect (d : Document) : Edit → Edited → Prop where
  | nothing (e : Edit) (r : Reply) : Effect d e ⟨d, r, false⟩
  | contact (fields : Fields) : Effect d (.contact fields) ⟨d.putHeader (withContact d.header fields), .made, true⟩
  | theme {name : Value} {design : Fields} (r : Reply) (found : d.data.field "design" = .ok (.object design)) :
      Effect d (.theme name)
        ⟨{ d with data := d.data.set "design" (.object (set design "theme" name)) }, r, true⟩
  | summary {text : Value} {sections : Fields} (r : Reply) (found : d.sectionFields = .ok sections) :
      Effect d (.summary text)
        ⟨{ d.putSections (.object (set sections "summary" (.list [text]))) with summary := .live }, r, true⟩
  /-- A list was made for an entry that could not be added. -/
  | made {p : Part} {given : Fields} (r : Reply) (allowed : d.needs p = .ok ())
      (none_ : d.hasList p = .ok false) :
      Effect d (.add p given) ⟨d.install p (.list []), r, false⟩
  | added {p : Part} {given entry : Fields} {name : String} {d' : Document} {xs others : List Value}
      {kept : Value} (r : Reply) (allowed : d.needs p = .ok ()) (ready : d.Ready p d')
      (list : d'.entries p = .list xs) (named : get? entry p.nameField = some (.text name))
      (known : d'.takenNames p = .ok others)
      (free : others.contains (.text name) = false) (recorded : p.record entry = .ok kept) :
      Effect d (.add p given) ⟨d'.putEntries p (.list (xs ++ [kept])), r, true⟩
  | modified {p : Part} {name field value entry : Value} {xs : List Value} {i : Nat} (r : Reply)
      (allowed : d.needs p = .ok ()) (valid : (p.editable.map Value.text).contains field)
      (list : (d.entries p).elements = .ok xs) (found : find? p name xs = .ok (some i))
      (set : assigned p (xs.getD i .null) field value = .ok entry) :
      Effect d (.modify p name field value) ⟨d.putEntries p (.list (xs.set i entry)), r, true⟩
  | renewed {p : Part} {name value entry : Value} {xs : List Value} {i : Nat} (r : Reply)
      (allowed : d.needs p = .ok ()) (list : (d.entries p).elements = .ok xs)
      (found : find? p name xs = .ok (some i)) (set : renewed p (xs.getD i .null) value = .ok entry) :
      Effect d (.renew p name value) ⟨d.putEntries p (.list (xs.set i entry)), r, true⟩
  | removed {p : Part} {name : Value} {xs : List Value} {i : Nat} (r : Reply) (allowed : d.needs p = .ok ())
      (list : (d.entries p).elements = .ok xs) (found : find? p name xs = .ok (some i)) :
      Effect d (.remove p name) ⟨d.putEntries p (.list (xs.eraseIdx i)), r, true⟩
  /-- The list was emptied where it stands. -/
  | emptied (p : Part) (r : Reply) (allowed : d.needs p = .ok ()) :
      Effect d (.clear p) ⟨d.putEntries p (.list []), r, true⟩
  /-- An empty list took the place of the old one. -/
  | replaced (p : Part) (r : Reply) (allowed : d.needs p = .ok ()) :
      Effect d (.clear p) ⟨d.install p (.list []), r, true⟩
  | dropped {number : Value} {sections : Fields} {name : String} (r : Reply)
      (found : d.sectionsValue = .object sections) (later : name ∈ sections.keys.drop 1) :
      Effect d (.removeSection number) ⟨d.dropSection name, r, true⟩

def givenName (p : Part) (name : String) : String := if p == .connections then Text.trim name else name

inductive Account (d : Document) : Edit → Edited → Prop where
  | contact (fields : Fields) (d' : Document) : Account d (.contact fields) ⟨d', .made, true⟩
  | theme (name : Value) (d' : Document) :
      Account d (.theme name) ⟨d', .told ("Successfully updated theme '" ++ name.shown ++ "'"), true⟩
  | summary (text : Value) (d' : Document) :
      Account d (.summary text) ⟨d', .told "Summary updated successfully", true⟩
  | blank (p : Part) (given : Fields) : Account d (.add p given) ⟨d, .outcome p .blankName, false⟩
  | taken {p : Part} {given : Fields} {name : String} (named : get? given p.nameField = some (.text name)) :
      Account d (.add p given) ⟨d, .outcome p (.taken (.text (givenName p name))), false⟩
  /-- The entry could not be added; a list may have been made for it. -/
  | broken {p : Part} {given entry : Fields} {d' : Document} {f : Fault} (failed : d'.append p entry = .error f) :
      Account d (.add p given) ⟨d', .failed f, false⟩
  | added {p : Part} {given : Fields} {name : String} (named : get? given p.nameField = some (.text name))
      (d' : Document) :
      Account d (.add p given) ⟨d', .outcome p (.added (.text (givenName p name))), true⟩
  | badField (p : Part) (name field value : Value) :
      Account d (.modify p name field value) ⟨d, .outcome p (.badField field), false⟩
  | changed (p : Part) (name field value : Value) (d' : Document) :
      Account d (.modify p name field value) ⟨d', .outcome p (.changed field), true⟩
  | renewed (p : Part) (name value : Value) (d' : Document) :
      Account d (.renew p name value) ⟨d', .outcome p (.renewed name), true⟩
  | removed (p : Part) (name : Value) (d' : Document) :
      Account d (.remove p name) ⟨d', .outcome p (.removed name), true⟩
  -- There is no entry of the name.
  | absentToModify (p : Part) (name field value : Value) :
      Account d (.modify p name field value) ⟨d, .outcome p (.absent name), false⟩
  | absentToRenew (p : Part) (name value : Value) :
      Account d (.renew p name value) ⟨d, .outcome p (.absent name), false⟩
  | absentToRemove (p : Part) (name : Value) : Account d (.remove p name) ⟨d, .outcome p (.absent name), false⟩
  -- There are no entries.
  | noneToRenew (p : Part) (name value : Value) :
      Account d (.renew p name value) ⟨d, .outcome p (.nothingTo "modify"), false⟩
  | noneToRemove (p : Part) (name : Value) :
      Account d (.remove p name) ⟨d, .outcome p (.nothingTo "delete"), false⟩
  | noneToClear (p : Part) : Account d (.clear p) ⟨d, .outcome p (.nothingTo "clear"), false⟩
  | cleared (p : Part) (count : Nat) (d' : Document) :
      Account d (.clear p) ⟨d', .outcome p (.cleared count), true⟩

/-- An edit does one of the things listed, and every one but taking out a section is told in one of the ways listed. -/
abbrev Told (d : Document) (e : Edit) (x : Edited) : Prop := Effect d e x ∧ ((∀ n, e ≠ .removeSection n) →
  (∀ p, (d.install p (.list [])).takenNames p = .ok []) → Account d e x)

open Action

variable {d : Document} {x : Edited} {given : Fields}

theorem told_editContact (fields : Fields) : Gives (Told d (.contact fields)) (d.editContact fields) := by
  refine .bind fun _ _ => ?_
  dsimp only
  split
  · exact gives_error _
  · exact gives_ok ⟨.contact fields, fun _ _ => .contact fields _⟩

theorem told_editTheme : Gives (Told d (.theme name)) (d.editTheme name) := by
  refine .bind fun _ _ => .bind fun known _ => ?_
  split
  · exact gives_error _
  · refine .bind fun design found => ?_
    cases design with
    | object fs => exact gives_ok ⟨.theme _ found, fun _ _ => .theme name _⟩
    | _ => exact gives_error _

theorem told_editSummary (text : Value) : Gives (Told d (.summary text)) (d.editSummary text) :=
  .bind fun _ _ => .bind fun _ found => gives_ok ⟨.summary _ found, fun _ _ => .summary text _⟩

/-! ## Entries -/

theorem name_of_tidied {tidy : Fields} {key name : String} (run : tidied p entry = .ok tidy)
    (named : get? entry key = some (.text name)) (some_ : name ≠ "") :
    get? tidy key = some (.text (givenName p name)) := by
  unfold tidied at run
  unfold givenName
  split at run
  · rename_i other
    cases run
    have ne : ¬ (p == Part.connections) := by simpa using other
    rw [if_neg ne, named]
  · rename_i other
    have same : p == Part.connections := by simpa using other
    rw [if_pos same]
    induction entry generalizing tidy with
    | nil => simp [get?] at named
    | cons f rest ih =>
      obtain ⟨k, v⟩ := f
      rw [mapM_cons] at run
      obtain ⟨⟨k', v'⟩, first, run⟩ := ok_of_bind run
      obtain ⟨later, others, run⟩ := ok_of_bind run
      cases run
      have alike : k' = k ∧ (v = .text name → v' = .text (Text.trim name)) := by
        split at first
        · obtain ⟨s, text, first⟩ := ok_of_bind first
          cases first
          refine ⟨rfl, ?_⟩
          rintro rfl
          cases text
          rfl
        · rename_i falsy
          cases first
          refine ⟨rfl, ?_⟩
          rintro rfl
          simp [Value.truthy, some_] at falsy
      obtain ⟨rfl, texts⟩ := alike
      rw [get?_cons] at named ⊢
      by_cases here : key = k'
      · rw [if_pos here] at named ⊢
        exact congrArg some (texts (Option.some.inj named))
      · rw [if_neg here] at named ⊢
        exact ih named others

theorem get?_of_truthy {key s : String} (text : ((get? entry key).getD .null).asText "strip" = .ok s) :
    get? entry key = some (.text s) := by
  generalize get? entry key = found at text
  rcases found with - | v
  · cases text
  · cases v <;> cases text
    rfl

theorem get?_of_entry {name : String} (run : p.entry given = .ok entry)
    (named : get? entry p.nameField = some (.text name)) : get? given p.nameField = some (.text name) := by
  unfold Part.entry at run
  generalize given.find? (fun f => !p.fields.contains f.1) = unknown at run
  generalize p.required.find? (fun key => !has given key) = missing at run
  obtain rfl : entry = p.fields.map fun key => (key, (get? given key).getD .null) := by
    cases unknown <;> cases missing <;> cases run
    rfl
  have field : p.nameField ∈ p.fields := by cases p <;> decide
  rw [get?_map, if_pos field] at named
  cases own : get? given p.nameField with
  | none => simp [own] at named
  | some v => simpa [own] using named

theorem ne_empty_of_trim {name : String} (full : Text.trim name ≠ "") : name ≠ "" := by
  rintro rfl
  exact full rfl

theorem append_cases {name : String} (named : get? entry p.nameField = some (.text name)) (full : Text.trim name ≠ "")
    (run : d.append p entry = .ok x) : ∃ others, d.takenNames p = .ok others ∧
      ((others.contains (.text (givenName p name)) ∧ x = ⟨d, .outcome p (.taken (.text (givenName p name))), false⟩) ∨
        ∃ (tidy : Fields) (xs : List Value) (kept : Value), d.entries p = .list xs ∧
          get? tidy p.nameField = some (.text (givenName p name)) ∧
          others.contains (.text (givenName p name)) = false ∧ p.record tidy = .ok kept ∧
          x = ⟨d.putEntries p (.list (xs ++ [kept])), .outcome p (.added (.text (givenName p name))), true⟩) := by
  obtain ⟨tidy, tidied, run⟩ := ok_of_bind run
  have named' := name_of_tidied tidied named (ne_empty_of_trim full)
  rw [named'] at run
  obtain ⟨others, known, run⟩ := ok_of_bind run
  refine ⟨others, known, ?_⟩
  split at run
  · rename_i taken
    cases run
    exact .inl ⟨taken, rfl⟩
  · rename_i free
    obtain ⟨xs, growing, run⟩ := ok_of_bind run
    obtain ⟨kept, recorded, run⟩ := ok_of_bind run
    have list : d.entries p = .list xs := by
      unfold Document.growing at growing
      split at growing
      · rename_i ys list
        rw [list, Except.ok.inj growing]
      · cases growing
    cases run
    exact .inr ⟨tidy, xs, kept, list, named', by simpa using free, recorded, rfl⟩

theorem addEntry_of_ready {name : String} {d' : Document} (made : p.entry given = .ok entry) (allowed : d.needs p = .ok ())
    (named : get? entry p.nameField = some (.text name)) (full : Text.trim name ≠ "") (ready : d.Ready p d') :
    d.addEntry p given = .ok (match d'.append p entry with
      | .ok x => x
      | .error f => ⟨d', .failed f, false⟩) := by
  have some_ := bne_iff_ne.2 (ne_empty_of_trim full)
  have blank : (Text.trim name == "") = false := by simpa using full
  rw [addEntry, made]
  simp only [Bind.bind, Except.bind, allowed, named, Option.getD_some, Value.truthy, Value.asText, blank]
  rcases ready with ⟨has, rfl⟩ | ⟨has, rfl⟩
  all_goals
    simp only [has, some_, Bool.not_true, Bool.false_eq_true, if_false]
    split <;> simp_all [Pure.pure, Except.pure]

theorem addEntry_cases (run : d.addEntry p given = .ok x) : ∃ entry, p.entry given = .ok entry ∧ d.needs p = .ok () ∧
    (x = ⟨d, .outcome p .blankName, false⟩ ∨ ∃ (name : String) (d' : Document),
      get? entry p.nameField = some (.text name) ∧ Text.trim name ≠ "" ∧ d.Ready p d') := by
  obtain ⟨entry, made, run⟩ := ok_of_bind run
  obtain ⟨⟨⟩, allowed, run⟩ := ok_of_bind run
  refine ⟨entry, made, allowed, ?_⟩
  dsimp only at run
  split at run
  · cases run
    exact .inl rfl
  · obtain ⟨s, text, run⟩ := ok_of_bind run
    split at run
    · cases run
      exact .inl rfl
    · rename_i full
      obtain ⟨has, found, -⟩ := ok_of_bind run
      have full : Text.trim s ≠ "" := by simpa using full
      cases has with
      | true => exact .inr ⟨s, d, get?_of_truthy text, full, .inl ⟨found, rfl⟩⟩
      | false => exact .inr ⟨s, _, get?_of_truthy text, full, .inr ⟨found, rfl⟩⟩

theorem told_of_addEntry (run : d.addEntry p given = .ok x) : Told d (.add p given) x := by
  obtain ⟨entry, made, allowed, rfl | ⟨name, d', named, full, ready⟩⟩ := addEntry_cases run
  · exact ⟨.nothing _ _, fun _ _ => .blank p given⟩
  · rw [addEntry_of_ready made allowed named full ready] at run
    have own := get?_of_entry made named
    -- Whatever kept the entry out, the document is the one that was made ready.
    have left (r : Reply) : Effect d (.add p given) ⟨d', r, false⟩ := by
      rcases ready with ⟨-, rfl⟩ | ⟨none_, rfl⟩
      · exact .nothing _ r
      · exact .made r allowed none_
    split at run
    · rename_i y appended
      cases run
      obtain ⟨others, known, ⟨taken, rfl⟩ | ⟨tidy, xs, kept, list, named', free, recorded, rfl⟩⟩ :=
        append_cases named full appended
      · refine ⟨left _, fun _ bare => ?_⟩
        rcases ready with ⟨-, rfl⟩ | ⟨-, rfl⟩
        · exact .taken own
        · -- A list that was made for the entry holds no names yet.
          cases known.symm.trans (bare p)
          cases taken
      · exact ⟨.added _ allowed ready list named' known free recorded, fun _ _ => .added own _⟩
    · rename_i f failed
      cases run
      exact ⟨left _, fun _ _ => .broken failed⟩

theorem told_modifyEntry (field value : Value) :
    Gives (Told d (.modify p name field value)) (d.modifyEntry p name field value) := by
  refine .bind fun _ allowed => ?_
  split
  · exact gives_ok ⟨.nothing _ _, fun _ _ => .badField p name field value⟩
  · rename_i valid
    refine .bind fun xs list => .bind fun found find => ?_
    cases found with
    | none => exact gives_ok ⟨.nothing _ _, fun _ _ => .absentToModify p name field value⟩
    | some i =>
      refine .bind fun entry set => gives_ok ?_
      exact ⟨.modified _ allowed (by simpa using valid) list find set, fun _ _ => .changed p name field value _⟩

theorem told_renewEntry (value : Value) : Gives (Told d (.renew p name value)) (d.renewEntry p name value) := by
  refine .bind fun _ allowed => ?_
  split
  · exact gives_ok ⟨.nothing _ _, fun _ _ => .noneToRenew p name value⟩
  · refine .bind fun xs list => .bind fun found find => ?_
    cases found with
    | none => exact gives_ok ⟨.nothing _ _, fun _ _ => .absentToRenew p name value⟩
    | some i =>
      refine .bind fun entry set => gives_ok ?_
      exact ⟨.renewed _ allowed list find set, fun _ _ => .renewed p name value _⟩

theorem told_removeEntry : Gives (Told d (.remove p name)) (d.removeEntry p name) := by
  refine .bind fun _ allowed => .bind fun has _ => ?_
  split
  · exact gives_ok ⟨.nothing _ _, fun _ _ => .noneToRemove p name⟩
  · refine .bind fun xs list => .bind fun found find => ?_
    cases found with
    | none => exact gives_ok ⟨.nothing _ _, fun _ _ => .absentToRemove p name⟩
    | some i => exact gives_ok ⟨.removed _ allowed list find, fun _ _ => .removed p name _⟩

theorem told_clearEntries : Gives (Told d (.clear p)) (d.clearEntries p) := by
  refine .bind fun _ allowed => ?_
  split
  · exact gives_ok ⟨.nothing _ _, fun _ _ => .noneToClear p⟩
  · refine .bind fun count _ => ?_
    split
    · exact gives_ok ⟨.emptied p _ allowed, fun _ _ => .cleared p count _⟩
    · exact .bind fun _ _ => gives_ok ⟨.replaced p _ allowed, fun _ _ => .cleared p count _⟩

/-! ## Sections -/

theorem effect_dropSectionAt (number : Value) : Gives (Effect d (.removeSection number)) (d.dropSectionAt number) := by
  refine .bind fun _ _ => .bind fun _ _ => .bind fun sections object => ?_
  have found : d.sectionsValue = .object sections := by
    generalize d.sectionsValue = v at object
    cases v <;> cases object
    rfl
  dsimp only
  split
  · exact gives_ok (.nothing _ _)
  · refine .bind fun n _ => ?_
    split
    · exact gives_ok (.nothing _ _)
    · rename_i inside
      cases n with
      | real _ => exact gives_error _
      | int i =>
        refine gives_ok (.dropped _ found ?_)
        have below : i.toNat < (sections.keys.drop 1).length := by
          simp only [Number.lt, Number.le, Number.eq, Number.fraction?, Bool.or_eq_true, decide_eq_true_eq,
            beq_iff_eq] at inside
          omega
        rw [getD_eq_getElem?_getD, getElem?_eq_getElem below]
        exact getElem_mem below

theorem told_of_apply {e : Edit} (run : d.apply e = .ok x) : Told d e x := by
  cases e with
  | contact fields => exact told_editContact fields run
  | theme name => exact told_editTheme run
  | summary text => exact told_editSummary text run
  | add p given => exact told_of_addEntry run
  | modify p name field value => exact told_modifyEntry field value run
  | renew p name value => exact told_renewEntry value run
  | remove p name => exact told_removeEntry run
  | clear p => exact told_clearEntries run
  | removeSection number => exact ⟨effect_dropSectionAt number run, fun kept => absurd rfl (kept number)⟩

theorem effect_of_apply {e : Edit} (run : d.apply e = .ok x) : Effect d e x := (told_of_apply run).1

end Folio.Cv.Document

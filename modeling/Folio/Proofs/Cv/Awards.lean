/-
# Proofs.Cv.Awards -- the website of an award

An award keeps its website as its last highlight, behind a mark.  Another website takes out every highlight that begins
with the mark, also one that was given as such; so changing the website comes to adding the award with the other one
exactly if no highlight begins with the mark (`website_changed_iff`).  The document need not be in order.
-/
import Folio.Proofs.Cv.Names

namespace Folio.Cv

open Action Document List Value

variable {d d' : Document} {fs : Fields} {name v w : String} {p : Part} {x : Value} {xs : List Value}

namespace Document

/-- Sections that were written are read, and are gone when others are written. -/
theorem putSections_again (found : d.sectionFields = .ok fs) (object : x.isObject) (y : Value) :
    (d.putSections x).sectionsValue = x ∧ (d.putSections x).putSections y = d.putSections y ∧
      (d.putSections x).slots = d.slots ∧ (d.needsData = .ok () → (d.putSections x).needsData = .ok ()) := by
  cases live : d.sections with
  | kept old =>
    unfold putSections
    rw [live]
    exact ⟨rfl, rfl, rfl, id⟩
  | live =>
    have inner : (sectionsOf d.data).isObject := by
      rw [← sectionsValue_live live, sectionsValue_of_fields found]
      rfl
    have above {v : Value} {key : String} (inner : (v.getOrNull key).isObject) : v.isObject :=
      isObject_of_get? (get?_of_isObject inner)
    have record : IsRecord d.data := ⟨above (above inner), above inner, inner⟩
    rw [putSections_live live, putSections_live live, putSections_live (by exact live), sectionsValue_live (by exact live)]
    refine ⟨sectionsOf_withSections record x, ?_, rfl, fun _ => needsData_of_record (isRecord_withSections record object)⟩
    simp only [withSections, headerOf_withHeader record]
    simp [withHeader, Value.set_set]

variable (below : p.inHeader = false)

include below

theorem putEntries_again (found : d.sectionFields = .ok fs) (x y : Value) : (d.putEntries p x).entries p = x ∧
    (d.putEntries p x).putEntries p y = d.putEntries p y ∧
      (d.needsData = .ok () → (d.putEntries p x).needsData = .ok ()) := by
  have object : d.sectionsValue.isObject := by
    rw [sectionsValue_of_fields found]
    rfl
  obtain ⟨read, again, slots, needs⟩ := putSections_again found (x := d.sectionsValue.set p.key x) (by simpa using object)
    ((d.sectionsValue.set p.key x).set p.key y)
  unfold putEntries entries
  cases slot : d.slots p with
  | kept old =>
    refine ⟨by simp [setSlot], ?_, id⟩
    simp only [setSlot, if_true]
    congr 1
    funext q
    split <;> rfl
  | live =>
    simp only [putPlace, place, below, Bool.false_eq_true, if_false, slots, slot, read, again]
    exact ⟨getOrNull_set_self object _ _, by rw [Value.set_set], needs⟩

/-- A document that is ready for an entry has sections, and can be worked on if it could before. -/
theorem sections_of_ready (ready : d.Ready p d') :
    ∃ fs, d'.sectionFields = .ok fs ∧ (d.needsData = .ok () → d'.needsData = .ok ()) := by
  rw [Ready, hasList, if_neg (by simp [below])] at ready
  rcases ready with ⟨has, rfl⟩ | ⟨has, rfl⟩ <;> obtain ⟨fs, found, -⟩ := ok_of_bind has
  · exact ⟨fs, found, id⟩
  · have sections := sectionsValue_of_fields found
    obtain ⟨read, -, -, needs⟩ := putSections_again found (x := d.sectionsValue.set p.key (.list [])) (by simp [sections]; rfl)
      .null
    simp only [install, putPlace, place, below, Bool.false_eq_true, if_false]
    refine ⟨Fields.set fs p.key (.list []), ?_, needs⟩
    rw [sectionFields, show sectionsValue (setSlot _ p .live) = _ from read, sections]
    rfl

omit below in
theorem find?_append {ns : List Value} (known : names p xs = .ok ns) (free : ns.contains (.text name) = false)
    (named : x.getOrNull p.nameField = .text name) (object : x.isObject) :
    find? p (.text name) (xs ++ [x]) = .ok (some xs.length) := by
  induction xs generalizing ns with
  | nil =>
    have read : x.fieldD p.nameField .null = .ok (.text name) := named ▸ fieldD_of_isObject object _ _
    simp [find?, read, Bind.bind, Except.bind, Pure.pure, Except.pure, BEq.beq, Value.same]
  | cons y ys ih =>
    rw [names, mapM_cons] at known
    obtain ⟨n, first, known⟩ := ok_of_bind known
    obtain ⟨ns, rest, known⟩ := ok_of_bind known
    cases known
    obtain ⟨other, free⟩ : (text name == n) = false ∧ ns.contains (.text name) = false := by simpa using free
    have read : y.fieldD p.nameField .null = .ok n := by
      split at first
      · exact first
      · rw [fieldD_of_isObject (isObject_of_get? (get?_of_field first)), get?_of_field first]
        rfl
    simp [find?, read, (apart_text other).1, ih rest free, Bind.bind, Except.bind, Pure.pure, Except.pure]

end Document

/-! ## The website of an award -/

/-- An award as a client gives it, but for its website. -/
structure Award where
  name : String
  date : Option String
  location : Option String
  highlights : Option (List String)

namespace Award

variable {a : Award} {x : Edited}

def given (a : Award) (website : String) : Fields := [("name", .text a.name), ("date", .textOrNull a.date),
  ("location", .textOrNull a.location), ("highlights", (a.highlights.map .texts).getD .null), ("website", .text website)]

def told (a : Award) : List String := a.highlights.getD []

def bare (a : Award) : Fields := (present (a.given "")).filter fun f => f.1 != "website"

def record (a : Award) (hs : List String) (website : String) : Value :=
  .object (Fields.set a.bare "highlights" (.texts (hs ++ [linkMark ++ website])))

variable (hs : List String)

theorem getOrNull_record (w : String) : (a.record hs w).getOrNull "highlights" = .texts (hs ++ [linkMark ++ w]) := by
  simp [record, getOrNull, Value.get?, Fields.get?_set]

theorem record_given (some_ : w ≠ "") : Part.awards.record (a.given w) = .ok (a.record a.told w) := by
  have held : ((present (a.given w)).filter fun f => f.1 != "website") = a.bare ∧
      ((Fields.get? a.bare "highlights").getD .null).orElse (.list []) = .texts a.told := by
    obtain ⟨name, - | date, - | location, - | - | hs⟩ := a <;> exact ⟨rfl, rfl⟩
  have website : (Fields.get? (a.given w) "website").getD .null = .text w := rfl
  simp only [Part.record, awardRecord, held, website]
  simp [truthy, some_, Value.elements, texts, shown, record]

theorem relinked_texts (some_ : v ≠ "") : relinked (hs.map .text) (.text v) =
    .ok (((hs.filter fun h => !Text.startsWith h linkMark) ++ [linkMark ++ v]).map .text) := by
  have read : ((hs.map Value.text).mapM fun h => do return (h, ← h.asText "startswith")) =
      (.ok (hs.map fun h => (.text h, h)) : Except Fault _) := by
    induction hs with
    | nil => rfl
    | cons h hs ih =>
      rw [map_cons, mapM_cons, ih]
      rfl
  rw [relinked, read]
  simp [Bind.bind, Except.bind, Pure.pure, Except.pure, filter_map, Function.comp_def, truthy, some_, shown]

/-- Another website takes the place of all that looks like a website. -/
theorem assigned_record (some_ : v ≠ "") : assigned .awards (a.record hs w) (.text "website") (.text v) =
    .ok (a.record (hs.filter fun h => !Text.startsWith h linkMark) v) := by
  have own : Text.startsWith (linkMark ++ w) linkMark := by
    rw [Text.startsWith, Text.startsWithChars_iff, String.toList_append]
    exact prefix_append _ _
  have full : (texts (hs ++ [linkMark ++ w])).truthy := by simp [texts, truthy]
  rw [assigned, if_pos (by rfl), getOrNull_record, orElse, if_pos full]
  simp only [texts, Value.elements, Bind.bind, Except.bind, relinked_texts _ some_, filter_append, filter_singleton, own]
  simp [record, Value.set, Fields.set_set, texts, Pure.pure, Except.pure]

/-- An award that can be added with one website can be added with any: it stands at the end of a list. -/
theorem adds (added : d.apply (.add .awards (a.given w)) = .ok x) (changed : x.changed) :
    ∃ (d' : Document) (fs : Fields) (xs ns : List Value), d'.sectionFields = .ok fs ∧ d'.needsData = .ok () ∧
      names .awards xs = .ok ns ∧ ns.contains (.text a.name) = false ∧ ∀ v ≠ "", d.apply (.add .awards (a.given v)) =
        .ok ⟨d'.putEntries .awards (.list (xs ++ [a.record a.told v])), .outcome .awards (.added (.text a.name)), true⟩ := by
  obtain ⟨entry, made, allowed, rfl | ⟨name, d', named, full, ready⟩⟩ := addEntry_cases added
  · cases changed
  cases made
  cases named
  have made (v : String) : Part.awards.entry (a.given v) = .ok (a.given v) := rfl
  have adding (v : String) := addEntry_of_ready (made v) allowed rfl full ready
  rw [Document.apply, adding, Except.ok.injEq] at added
  cases appended : d'.append .awards (a.given w) with
  | error f =>
    rw [appended] at added
    subst added
    cases changed
  | ok y =>
    rw [appended] at added
    obtain rfl : y = x := added
    obtain ⟨ns, known, ⟨-, rfl⟩ | ⟨tidy, xs, kept, list, -, free, -, rfl⟩⟩ := append_cases rfl full appended
    · cases changed
    · obtain ⟨fs, sections, needs⟩ := sections_of_ready rfl ready
      obtain ⟨⟨⟩, allowed, -⟩ := ok_of_bind allowed
      have known' : names .awards xs = .ok ns := by
        simpa [takenNames, list, Value.elements, Part.distinct, Bind.bind, Except.bind] using known
      have free' : ns.contains (.text a.name) = false := free
      refine ⟨d', fs, xs, ns, sections, needs allowed, known', free, fun v some_ => ?_⟩
      have name : (Fields.get? (a.given v) Part.awards.nameField).getD .null = .text a.name := rfl
      have tidy : tidied .awards (a.given v) = .ok (a.given v) := rfl
      rw [Document.apply, adding, Document.append]
      simp only [tidy, known, list, growing, record_given some_, name, free', Bind.bind, Except.bind, Pure.pure]
      rfl

/-- Changing the website of a new award comes to adding it with that website exactly if none of its highlights looks
like a website. -/
theorem website_changed_iff (some_ : w ≠ "") (some_' : v ≠ "") (added : d.apply (.add .awards (a.given w)) = .ok x)
    (changed : x.changed = true) :
    ∃ y z, x.document.apply (.modify .awards (.text a.name) (.text "website") (.text v)) = .ok y ∧
      d.apply (.add .awards (a.given v)) = .ok z ∧ y.changed = true ∧ z.changed = true ∧
      (y.document = z.document ↔ ∀ h ∈ a.told, Text.startsWith h linkMark = false) := by
  obtain ⟨d', fs, xs, ns, sections, allowed, known, free, adding⟩ := adds added changed
  cases added.symm.trans (adding w some_)
  have found := find?_append known free (name_of_record rfl (record_given some_)) rfl
  obtain ⟨entries, again, needs⟩ := putEntries_again (p := .awards) rfl sections (.list (xs ++ [a.record a.told w]))
    (.list (xs ++ [a.record (a.told.filter fun h => !Text.startsWith h linkMark) v]))
  refine ⟨⟨d'.putEntries .awards (.list (xs ++ [a.record (a.told.filter fun h => !Text.startsWith h linkMark) v])),
    .outcome .awards (.changed (.text "website")), true⟩, _, ?_, adding v some_', rfl, rfl, ?_⟩
  · have allowed : (d'.putEntries .awards (.list (xs ++ [a.record a.told w]))).needs .awards = .ok () := by
      rw [Document.needs, needs allowed]
      rfl
    have website : (Part.awards.editable.map Value.text).contains (.text "website") = true := by decide
    rw [Document.apply, modifyEntry, allowed, entries]
    simp only [Value.elements, found, Bind.bind, Except.bind, website]
    simp [assigned_record a.told some_', settled, again, Pure.pure, Except.pure, Outcome.tookEffect]
  · have all : a.told.filter (fun h => !Text.startsWith h linkMark) = a.told ↔
        ∀ h ∈ a.told, Text.startsWith h linkMark = false := by simp
    rw [← all]
    constructor
    · intro same
      have same := congrArg (Document.entries · .awards) same
      simp only [(putEntries_again (p := .awards) rfl sections _ .null).1] at same
      obtain same : a.record _ v = a.record a.told v := by simpa using same
      have same := congrArg (Value.getOrNull · "highlights") same
      simpa [getOrNull_record, texts, map_inj_right] using same
    · intro same
      rw [same]

/-- A resume without sections, and an award with a highlight that looks like a website. -/
def noSections : Document :=
  { kind := .resume, data := .object [("cv", .object [("sections", .object [])])], sections := .live }

def prize : Award := ⟨"Prize", none, none, some [linkMark ++ "mine", "First"]⟩

def added : Document := noSections.edited (.add .awards (prize.given "w"))

/-- The highlight goes with the old website. -/
theorem highlight_lost : (added.edited (.modify .awards (.text "Prize") (.text "website") (.text "v"))).entries .awards =
    .list [prize.record ["First"] "v"] := by
  rfl

theorem prize_website_differs : ∃ y z, added.apply (.modify .awards (.text "Prize") (.text "website") (.text "v")) = .ok y ∧
    noSections.apply (.add .awards (prize.given "v")) = .ok z ∧ y.document ≠ z.document := by
  obtain ⟨y, z, modified, direct, -, -, same⟩ :=
    website_changed_iff (d := noSections) (a := prize) (w := "w") (v := "v") (by decide) (by decide) rfl rfl
  refine ⟨y, z, modified, direct, fun alike => ?_⟩
  have lost := same.1 alike (linkMark ++ "mine") (by decide)
  exact absurd lost (by decide)

end Award

end Folio.Cv

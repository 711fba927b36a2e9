/-
# Proofs.Saved.Record -- the record of an analysis over earlier ones

An analysis is `Shaped` when its resume item lists skills and frameworks by their names.  The record of a shaped
analysis can always be made, and it is shaped again: it brings along the snapshots that were saved before it, adds one
of its own, and knows the names of both (`record_shaped`).
-/
import Folio.Saved.Export
import Folio.Proofs.Json

namespace Folio.Saved

open Fields Json Value

open Value (textItems)

variable {duplicates old v : Value} {earlier : Option Value} {key : String} {names : List String}

/-! ## Shaped analyses -/

/-- The names that the resume item of a document lists under a key. -/
def namesAt (v : Value) (key : String) : List Value := ((v.getOrNull "resume_item").getOrNull key).itemsOrEmpty

@[simp]
theorem namesAt_null (key : String) : namesAt .null key = [] := by
  simp [namesAt, getOrNull, Value.get?, itemsOrEmpty, Value.items?]

def snapshotsIn (v : Value) : List Value := (v.getOrNull "snapshots").itemsOrEmpty

/-- A document whose resume item lists skills and frameworks by their names. -/
structure Shaped (v : Value) : Prop where
  skills : ∃ names, (v.getOrNull "resume_item").get? "skills" = some (.texts names)
  frameworks : ∃ names, (v.getOrNull "resume_item").get? "frameworks" = some (.texts names)

theorem getOrNull_of_get? {fs : Fields} (there : get? fs key = some v) : (object fs).getOrNull key = v := by
  rw [getOrNull, Value.get?, there, Option.getD_some]

theorem Shaped.fields (shaped : Shaped v) :
    ∃ fs resume skills frameworks, v = .object fs ∧ get? fs "resume_item" = some (.object resume) ∧
      get? resume "skills" = some (.texts skills) ∧ get? resume "frameworks" = some (.texts frameworks) := by
  obtain ⟨skills, known⟩ := shaped.skills
  obtain ⟨frameworks, known'⟩ := shaped.frameworks
  cases v with
  | object fs =>
    cases found : get? fs "resume_item" with
    | none =>
      rw [getOrNull, Value.get?, found] at known
      cases known
    | some item =>
      rw [getOrNull_of_get? found] at known known'
      cases item with
      | object resume => exact ⟨fs, resume, skills, frameworks, rfl, found, known, known'⟩
      | _ => cases known
  | _ => cases known

section Levels

variable {fs resume : Fields} (item : get? fs "resume_item" = some (.object resume))

include item

theorem shaped_of_fields {skills frameworks : List String} (known : get? resume "skills" = some (.texts skills))
    (known' : get? resume "frameworks" = some (.texts frameworks)) : Shaped (.object fs) := by
  constructor
  · exact ⟨skills, by rw [getOrNull_of_get? item]; exact known⟩
  · exact ⟨frameworks, by rw [getOrNull_of_get? item]; exact known'⟩

theorem namesAt_of_fields (known : get? resume key = some (.texts names)) :
    namesAt (.object fs) key = textItems names := by
  rw [namesAt, getOrNull_of_get? item, getOrNull_of_get? known]
  rfl

end Levels

/-! ## The names of both -/

theorem namesIn_texts {resume : Fields} (known : get? resume key = some (.texts names)) :
    ∃ xs, namesIn (.object resume) key = .ok (textItems xs) ∧ ∀ x, x ∈ xs ↔ x ∈ names := by
  obtain ⟨xs, members, all⟩ := members_textItems names
  refine ⟨xs, ?_, all⟩
  have field : (object resume).fieldD key (.list []) = .ok (.texts names) := by
    rw [fieldD, known, Option.getD_some]
  have items : (texts names).elements = .ok (textItems names) := rfl
  simp [namesIn, field, items, members, bind, Except.bind]

theorem union_texts (xs ys : List String) :
    ∃ zs, union (textItems xs) (textItems ys) = .ok (textItems zs) ∧ ∀ z, z ∈ zs ↔ z ∈ xs ∨ z ∈ ys := by
  obtain ⟨us, members, all⟩ := members_textItems (xs ++ ys)
  obtain ⟨zs, sorted, perm, -⟩ := sorted_textItems us
  refine ⟨zs, ?_, fun z => ?_⟩
  · simp [union, ← textItems_append, members, sorted, bind, Except.bind]
  · rw [perm.mem_iff, all, List.mem_append]

theorem withEarlier_texts {resume : Fields} {skills frameworks : List String}
    (known : get? resume "skills" = some (.texts skills))
    (known' : get? resume "frameworks" = some (.texts frameworks)) (xs ys : List String) :
    ∃ us vs, withEarlier (textItems xs) (textItems ys) resume =
        .ok (set (set resume "skills" (.texts us)) "frameworks" (.texts vs)) ∧
      (∀ u, u ∈ us ↔ u ∈ xs ∨ u ∈ skills) ∧ ∀ v, v ∈ vs ↔ v ∈ ys ∨ v ∈ frameworks := by
  obtain ⟨own, named, all⟩ := namesIn_texts known
  obtain ⟨us, merged, both⟩ := union_texts xs own
  have later : get? (set resume "skills" (.texts us)) "frameworks" = some (.texts frameworks) := by
    rw [get?_set, if_neg (by decide), known']
  obtain ⟨own', named', all'⟩ := namesIn_texts later
  obtain ⟨vs, merged', both'⟩ := union_texts ys own'
  refine ⟨us, vs, ?_, fun u => by rw [both, all], fun v => by rw [both', all']⟩
  have there : has resume "skills" := by
    show (get? resume "skills").isSome
    rw [known, Option.isSome_some]
  have there' : has resume "frameworks" := by
    show (get? resume "frameworks").isSome
    rw [known', Option.isSome_some]
  have same (zs : List String) : list (textItems zs) = .texts zs := rfl
  simp [withEarlier, there, there', named, merged, same, named', merged', bind, Except.bind, pure, Except.pure]

/-! ## The record -/

def shot (now : String) (v : Value) : Value :=
  .object [("analyzed_at", .text now), ("project_root", v.getOrNull "project_root"),
    ("duration_estimate", v.getOrNull "duration_estimate"),
    ("resume_item", (v.getOrNull "resume_item").orElse (.object [])), ("project_type", v.getOrNull "project_type"),
    ("dedup", v.getOrNull "dedup"), ("contributors", v.getOrNull "contributors")]

theorem shot_set (now : String) (v w : Value) : shot now (v.set "snapshots" w) = shot now v := by
  simp only [shot]
  rw [getOrNull_set_ne v (by decide), getOrNull_set_ne v (by decide), getOrNull_set_ne v (by decide),
    getOrNull_set_ne v (by decide), getOrNull_set_ne v (by decide), getOrNull_set_ne v (by decide)]

theorem isPlain_shot {now : String} (plain : isPlain v) : isPlain (shot now v) := by
  have item : isPlain ((v.getOrNull "resume_item").orElse (.object [])) := by
    unfold orElse
    split
    · exact isPlain_getOrNull plain _
    · rfl
  simp [shot, isPlain, isPlainFields, isPlain_getOrNull plain, item]

/-- A document with its own snapshot after others. -/
def closed (now : String) (fs : Fields) (snapshots : List Value) : Value :=
  .object (set fs "snapshots" (.list (snapshots ++ [shot now (.object fs)])))

section Closed

variable {now : String} {fs resume : Fields} {snapshots : List Value}

theorem shot_closed : shot now (closed now fs snapshots) = shot now (.object fs) :=
  shot_set now (.object fs) (.list (snapshots ++ [shot now (.object fs)]))

theorem get?_closed :
    (closed now fs snapshots).get? "snapshots" = some (.list (snapshots ++ [shot now (closed now fs snapshots)])) := by
  rw [shot_closed, closed, Value.get?, get?_set, if_pos rfl]

variable (now snapshots) in
theorem get?_closed_item (item : get? fs "resume_item" = some (.object resume)) :
    get? (set fs "snapshots" (.list (snapshots ++ [shot now (.object fs)]))) "resume_item" = some (.object resume) := by
  rw [get?_set, if_neg (by decide), item]

theorem isPlain_closed (plain : isPlainItems snapshots) :
    isPlain (closed now fs snapshots) = isPlainFields (set fs "snapshots" .null) := by
  rw [closed, isPlain, isPlainFields_set]
  cases rest : isPlainFields (set fs "snapshots" .null) with
  | false => rw [Bool.and_false]
  | true =>
    have own : isPlain (shot now (.object fs)) := by
      have bare : isPlain (.object (set fs "snapshots" .null)) := by rw [isPlain, rest]
      rw [← shot_set now (.object fs) .null]
      exact isPlain_shot bare
    rw [isPlain, isPlainItems_append, plain, isPlainItems, own]
    rfl

end Closed

/-- A document that was saved: it is shaped, it can be written, and it has snapshots. -/
structure Chronicle (v : Value) : Prop where
  shaped : Shaped v
  plain : isPlain v
  snapshots : ∃ s ss, v.get? "snapshots" = some (.list (s :: ss))

/-- What is there before an analysis is saved: nothing, or a document that was saved. -/
def Earlier (earlier : Option Value) : Prop := ∀ v, earlier = some v → Chronicle v

/-- The record of a shaped analysis over an earlier one. -/
structure Extends (now : String) (earlier : Option Value) (analysis document : Value) : Prop where
  shaped : Shaped document
  snapshots : document.get? "snapshots" =
    some (.list (snapshotsIn (earlier.getD .null) ++ [shot now document]))
  skills : ∀ v, v ∈ namesAt document "skills" ↔
    v ∈ namesAt (earlier.getD .null) "skills" ∨ v ∈ namesAt analysis "skills"
  frameworks : ∀ v, v ∈ namesAt document "frameworks" ↔
    v ∈ namesAt (earlier.getD .null) "frameworks" ∨ v ∈ namesAt analysis "frameworks"
  plain : isPlain document = isPlain (analysis.set "snapshots" .null)
  /-- All else is as the analysis says. -/
  others : ∀ key, key ≠ "resume_item" → key ≠ "snapshots" → document.get? key = analysis.get? key
  item : ∀ key, key ≠ "skills" → key ≠ "frameworks" →
    (document.getOrNull "resume_item").get? key = (analysis.getOrNull "resume_item").get? key

variable {now : String} {analysis : Value}

theorem snapshotsIn_of_get? {ss : List Value} (there : v.get? "snapshots" = some (.list ss)) : snapshotsIn v = ss := by
  rw [snapshotsIn, getOrNull, there]
  rfl

variable (now) in
theorem record_first (shaped : Shaped analysis) :
    ∃ document, record now none analysis = .ok (document, [shot now document]) ∧ Extends now none analysis document := by
  obtain ⟨fs, resume, skills, frameworks, rfl, item, known, known'⟩ := shaped.fields
  have item' := get?_closed_item now [] item
  refine ⟨closed now fs [], ?_, ?_⟩
  · rw [shot_closed]
    rfl
  · constructor
    · exact shaped_of_fields item' known known'
    · exact get?_closed
    · intro v
      rw [closed, namesAt_of_fields item' known, namesAt_of_fields item known]
      exact (or_iff_right (by simp)).symm
    · intro v
      rw [closed, namesAt_of_fields item' known', namesAt_of_fields item known']
      exact (or_iff_right (by simp)).symm
    · rw [isPlain_closed rfl]
      rfl
    · intro key _ own
      rw [closed, Value.get?, get?_set, if_neg own]
      rfl
    · intro key _ _
      rw [closed, getOrNull_of_get? item', getOrNull_of_get? item]

variable (now) in
theorem Chronicle.brings (chronicle : Chronicle old) :
    ∃ olds s ss xs ys, old = .object olds ∧ snapshotsIn old = s :: ss ∧ isPlainItems (s :: ss) ∧
      earlierSnapshots now old = .ok (s :: ss) ∧ knownNames old = .ok (textItems xs, textItems ys) ∧
      (∀ v, v ∈ textItems xs ↔ v ∈ namesAt old "skills") ∧ ∀ v, v ∈ textItems ys ↔ v ∈ namesAt old "frameworks" := by
  obtain ⟨olds, before, skills, frameworks, rfl, earlier, knew, knew'⟩ := chronicle.shaped.fields
  obtain ⟨s, ss, kept⟩ := chronicle.snapshots
  obtain ⟨xs, named, all⟩ := namesIn_texts knew
  obtain ⟨ys, named', all'⟩ := namesIn_texts knew'
  refine ⟨olds, s, ss, xs, ys, rfl, snapshotsIn_of_get? kept, ?_, ?_, ?_, fun v => ?_, fun v => ?_⟩
  · have plain := chronicle.plain
    exact isPlain_of_get? plain kept
  · rw [earlierSnapshots, getOrNull, kept]
    rfl
  · have field : (object olds).fieldD "resume_item" (.object []) = .ok (.object before) := by
      rw [fieldD, earlier, Option.getD_some]
    simp only [knownNames, field, named, named', bind, Except.bind, pure, Except.pure]
  · rw [namesAt_of_fields earlier knew, mem_textItems, mem_textItems]
    simp only [all]
  · rw [namesAt_of_fields earlier knew', mem_textItems, mem_textItems]
    simp only [all']

variable (now) in
theorem record_next (chronicle : Chronicle old) (shaped : Shaped analysis) :
    ∃ document, record now (some old) analysis = .ok (document, snapshotsIn old ++ [shot now document]) ∧
      Extends now (some old) analysis document := by
  obtain ⟨olds, s, ss, xs, ys, rfl, kept, plainOld, snapshots, names, knew, knew'⟩ := chronicle.brings now
  obtain ⟨fs, resume, skills, frameworks, rfl, item, known, known'⟩ := shaped.fields
  -- The names of both.
  obtain ⟨us, vs, merged, skilled, framed⟩ := withEarlier_texts known known' xs ys
  obtain ⟨both, bothIs⟩ : ∃ both, both = set (set resume "skills" (.texts us)) "frameworks" (.texts vs) :=
    ⟨_, rfl⟩
  rw [← bothIs] at merged
  have knows : get? both "skills" = some (.texts us) := by
    rw [bothIs, get?_set, if_neg (by decide), get?_set, if_pos rfl]
  have knows' : get? both "frameworks" = some (.texts vs) := by rw [bothIs, get?_set, if_pos rfl]
  have own : get? (set fs "resume_item" (.object both)) "resume_item" = some (.object both) := by
    rw [get?_set, if_pos rfl]
  have item' := get?_closed_item now (s :: ss) own
  refine ⟨closed now (set fs "resume_item" (.object both)) (s :: ss), ?_, ?_⟩
  · have fields : (object fs).fieldD "resume_item" (.object []) = .ok (.object resume) := by
      rw [fieldD, item, Option.getD_some]
    have opened : (object resume).asObject "setdefault" = .ok resume := rfl
    rw [kept, shot_closed]
    simp only [record, snapshots, names, fields, opened, merged, bind, Except.bind, pure, Except.pure]
    rfl
  · constructor
    · exact shaped_of_fields item' knows knows'
    · rw [Option.getD_some, kept]
      exact get?_closed
    · intro v
      rw [Option.getD_some, closed, namesAt_of_fields item' knows, namesAt_of_fields item known, ← knew,
        mem_textItems, mem_textItems, mem_textItems]
      simp only [skilled, or_and_right, exists_or]
    · intro v
      rw [Option.getD_some, closed, namesAt_of_fields item' knows', namesAt_of_fields item known', ← knew',
        mem_textItems, mem_textItems, mem_textItems]
      simp only [framed, or_and_right, exists_or]
    · rw [isPlain_closed plainOld]
      have plainBoth : isPlain (.object both) = isPlain (.object resume) := by
        rw [isPlain, isPlain, bothIs, isPlainFields_replace_set (by decide) known (by simp [isPlain_texts]),
          isPlainFields_replace known' (by simp [isPlain_texts])]
      exact isPlainFields_replace_set (by decide) item plainBoth .null
    · intro key other own
      rw [closed, Value.get?, get?_set, if_neg own, get?_set, if_neg other]
      rfl
    · intro key other other'
      rw [closed, getOrNull_of_get? item', getOrNull_of_get? item, Value.get?, bothIs, get?_set, if_neg other',
        get?_set, if_neg other]
      rfl

variable (now) in
theorem record_shaped (before : Earlier earlier) (shaped : Shaped analysis) :
    ∃ document, record now earlier analysis = .ok (document, snapshotsIn document) ∧
      Extends now earlier analysis document := by
  cases earlier with
  | none =>
    obtain ⟨document, made, extends_⟩ := record_first now shaped
    refine ⟨document, ?_, extends_⟩
    rw [made, snapshotsIn_of_get? extends_.snapshots]
    rfl
  | some old =>
    obtain ⟨document, made, extends_⟩ := record_next now (before old rfl) shaped
    refine ⟨document, ?_, extends_⟩
    rw [made, snapshotsIn_of_get? extends_.snapshots]
    rfl

theorem Extends.chronicle {document : Value} (extends_ : Extends now earlier analysis document)
    (plain : isPlain document) : Chronicle document := by
  refine ⟨extends_.shaped, plain, ?_⟩
  rw [extends_.snapshots]
  cases snapshotsIn (earlier.getD .null) with
  | nil => exact ⟨_, _, rfl⟩
  | cons s ss => exact ⟨s, _, rfl⟩

/-- A document that says nothing but duplicates and snapshots, and the names that were known. -/
def bare (duplicates : Value) (snapshots : List Value) (skills frameworks : List String) : Value :=
  .object [("dedup", duplicates), ("snapshots", .list snapshots),
    ("resume_item", .object [("skills", .texts skills), ("frameworks", .texts frameworks)])]

theorem isPlain_bare (plain : isPlain duplicates) (snapshots : List Value) (skills frameworks : List String) :
    isPlain (bare duplicates snapshots skills frameworks) = isPlainItems snapshots := by
  simp [bare, isPlain, isPlainFields, plain, isPlain_texts]

variable (now) in
/-- What gives no resume item, saved over a record: of the record only the snapshots and the names remain. -/
theorem record_bare (chronicle : Chronicle old) (plain : isPlain duplicates) (given : List Value) :
    ∃ snapshots skills frameworks, record now (some old) (.object [("dedup", duplicates), ("snapshots", .list given)]) =
        .ok (bare duplicates snapshots skills frameworks, snapshots) ∧
      isPlain (bare duplicates snapshots skills frameworks) ∧ (∀ v, v ∈ textItems skills ↔ v ∈ namesAt old "skills") ∧
      ∀ v, v ∈ textItems frameworks ↔ v ∈ namesAt old "frameworks" := by
  obtain ⟨olds, s, ss, xs, ys, rfl, -, plainOld, snapshots, names, knew, knew'⟩ := chronicle.brings now
  -- Where there is no resume item, it counts as one without names.
  have none_ : get? [("skills", .texts []), ("frameworks", .texts [])] "skills" = some (.texts []) := rfl
  obtain ⟨us, vs, merged, skilled, framed⟩ := withEarlier_texts none_ rfl xs ys
  have empty : withEarlier (textItems xs) (textItems ys) [] = .ok [("skills", .texts us), ("frameworks", .texts vs)] :=
    merged
  obtain ⟨last, lastIs⟩ : ∃ last, last = shot now (bare duplicates given us vs) := ⟨_, rfl⟩
  refine ⟨s :: ss ++ [last], us, vs, ?_, ?_, fun v => ?_, fun v => ?_⟩
  · have fields : (object [("dedup", duplicates), ("snapshots", .list given)]).fieldD "resume_item" (.object []) =
        .ok (.object []) := rfl
    have opened : (object []).asObject "setdefault" = .ok [] := rfl
    rw [lastIs]
    simp only [record, snapshots, names, fields, opened, empty, bind, Except.bind, pure, Except.pure]
    rfl
  · have plainLast : isPlain last := by
      rw [lastIs, ← shot_set now _ (.list [])]
      exact isPlain_shot ((isPlain_bare plain [] us vs).trans rfl)
    rw [isPlain_bare plain, isPlainItems_append, plainOld, isPlainItems, plainLast]
    rfl
  · rw [← knew, mem_textItems, mem_textItems]
    simp [skilled]
  · rw [← knew', mem_textItems, mem_textItems]
    simp [framed]

end Folio.Saved

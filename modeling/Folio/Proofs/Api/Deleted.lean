/-
# Proofs.Api.Deleted -- what is left of a project that was deleted

A deletion goes through the store, the first of the two directories that has the project's file, and the log.  Each step
reaches its own place and leaves the shelf as it is, so what a project can still be seen from is a second copy of the
file, and the entries of a log in which something is no entry (`gone_unless_twice`).
-/
import Folio.Proofs.Api.Deleting
import Folio.Proofs.Calendar
import Folio.Proofs.Saved.Exports

namespace Folio

open Action Context Disk Except Insight.Log Json List Node Option Or Path Saved Store.Session

variable {d : Disk} {p : Path} {w : Workspace}

/-! ## The log -/

namespace Insight.Log

variable {project name : String} {es : List Value} {base : Path}

theorem isEntry_asideName (t : Moment) (noSlash : '/' ∉ name.toList) : IsEntry (asideName t name) := by
  have digits (k n : Nat) : '/' ∉ (zeroPadded k n).toList := fun member =>
    absurd (isDigit_of_mem_zeroPadded member) (by decide)
  have mark := mem_asideName t name
  refine ⟨⟨Text.ne_of_mem 'T' mark (by decide), Text.ne_of_mem 'T' mark (by decide), ?_⟩, notUp_asideName t name⟩
  simp [asideName, noSlash, digits]

def IsOf (project : String) (e : Value) : Prop := e.fieldD "project_name" .null = .ok (.text project)

/-- The entries that leaving out a project leaves: all of them if one is no object. -/
def remaining (project : String) (es : List Value) : List Value := (ofOthers (.text project) es).toOption.getD es

theorem ofOthers_of_objects (project : String) (objects : ∀ e ∈ es, ∃ fs, e = .object fs) :
    ∃ kept, ofOthers (.text project) es = .ok kept ∧ kept.Sublist es ∧ ∀ e ∈ kept, ¬ IsOf project e := by
  have decides : ∀ e ∈ es, (do return !((← e.fieldD "project_name" .null) == .text project) : Except Fault Bool) =
      .ok (!((e.getOrNull "project_name") == .text project)) := by
    intro e member
    obtain ⟨fs, rfl⟩ := objects e member
    rfl
  refine ⟨_, filterM_of_ok decides, filter_sublist, fun e member own => ?_⟩
  obtain ⟨listed, other⟩ := mem_filter.1 member
  obtain ⟨fs, rfl⟩ := objects e listed
  have named : (Value.object fs).getOrNull "project_name" = .text project := ok.inj own
  rw [named, Value.text_beq, beq_self_eq_true] at other
  cases other

theorem objects_of_ofOthers {kept : List Value} (run : ofOthers (.text project) es = .ok kept) :
    ∀ e ∈ es, ∃ fs, e = .object fs := by
  intro e member
  obtain ⟨_, decided⟩ := ok_of_filterM run e member
  cases e with
  | object fs => exact ⟨fs, rfl⟩
  | _ => cases decided

theorem none_remaining_iff : (∀ e ∈ remaining project es, ¬ IsOf project e) ↔
    (∀ e ∈ es, ∃ fs, e = .object fs) ∨ ∀ e ∈ es, ¬ IsOf project e := by
  unfold remaining
  cases run : ofOthers (.text project) es with
  | ok kept =>
    have objects := objects_of_ofOthers run
    obtain ⟨kept', run', -, others⟩ := ofOthers_of_objects project objects
    obtain rfl : kept = kept' := ok.inj (run.symm.trans run')
    exact iff_of_true others (inl objects)
  | error f =>
    have mixed : ¬ ∀ e ∈ es, ∃ fs, e = .object fs := by
      intro objects
      obtain ⟨kept, run', -⟩ := ofOthers_of_objects project objects
      rw [run] at run'
      cases run'
    exact (or_iff_right mixed).symm

theorem file_of_logged (some_ : logged d p ≠ []) : ∃ f, d.file p = .ok f := by
  cases read : d.document p with
  | ok v => exact file_of_document (inl ⟨v, read⟩)
  | error f => exact absurd (by rw [logged, read]; rfl) some_

theorem ready_of_logged (linkless : d.Linkless) (straight : (base.entry name).Straight)
    (short : (base.entry name).parts.length < stepLimit) (some_ : logged d (base.entry name) ≠ []) :
    d.Ready base name ∧ (d.root.at? (base.entry name).parts).isSome := by
  obtain ⟨f, found⟩ := file_of_logged some_
  obtain ⟨there, legal, -⟩ := (file_linkless linkless straight).1 found
  refine ⟨⟨linkless, straight.rooted, ?_, not_isDirAt (by simp [there]), legal, short⟩, isSome_of_eq_some there⟩
  exact isDirAt_of_longer (b := [name]) (isSome_of_eq_some there) (by simp)

theorem logged_of_leaf_none (linkless : d.Linkless) (straight : p.Straight)
    (nothing : d.root.leaf? p.parts = none) : logged d p = [] := by
  by_contra some_
  obtain ⟨f, found⟩ := file_of_logged some_
  simp [leaf?, ((file_linkless linkless straight).1 found).1, leafOf] at nothing

/-- What leaving out a project reaches: the log, and the name that it may be put aside under. -/
def Reached (base : Path) (name : String) (way : List String) : Prop :=
  way = base.parts ++ [name] ∨ ∃ t, way = base.parts ++ [asideName t name]

theorem asideName_ne (t : Moment) (name : String) : asideName t name ≠ name := by
  intro same
  have longer := congrArg String.length same
  simp only [asideName, String.length_append] at longer
  have mark : "T".length = 1 := rfl
  omega

theorem aside_spec {f : File} (linkless : w.disk.Linkless) (named : w.disk.root.Named IsEntry)
    (straight : (base.entry name).Straight) (noSlash : '/' ∉ name.toList) (found : w.disk.file (base.entry name) = .ok f)
    (renamed : w.disk.rename (base.entry name) ((base.entry name).withName (asideName w.now (base.entry name).name)) = .ok d) :
    w.disk.Reaches (Reached base name) d ∧ d.root.Named IsEntry ∧ logged d (base.entry name) = [] := by
  have last : (base.entry name).name = name := by simp [Path.entry, Path.name]
  have beside (other : String) : ((base.entry name).withName other).parts = base.parts ++ [other] := by
    simp [Path.entry, withName]
  rw [last] at renamed
  have notUp := notUp_asideName w.now name
  have reaches := reaches_rename linkless straight notUp found renamed
  refine ⟨reaches.mono ?_, ?_, logged_of_leaf_none reaches.linkless straight ?_⟩
  · rintro way (rfl | rfl)
    · exact inl rfl
    · exact inr ⟨w.now, beside _⟩
  · exact named_rename linkless straight notUp found renamed (isEntry_asideName _ noSlash) named
  · refine leaf?_rename linkless straight notUp found renamed fun same => ?_
    rw [beside] at same
    have own : [name] = [asideName w.now name] := append_cancel_left same
    exact asideName_ne w.now name (cons.inj own).1.symm

theorem stored_spec (ready : w.disk.Ready base name) (named : w.disk.root.Named IsEntry)
    (there : (w.disk.root.at? (base.entry name).parts).isSome) (plain : isPlainItems es) :
    ∃ d, (store (base.entry name) es).outcome w = (.ok (), { w with disk := d }) ∧
      w.disk.Reaches (· = (base.entry name).parts) d ∧ d.root.Named IsEntry ∧ logged d (base.entry name) = es := by
  obtain ⟨d, stored, reaches, -, -, held⟩ := outcome_store_plain ready plain
  refine ⟨d, stored, reaches, ?_, held⟩
  obtain ⟨d₁, d₂, made, written, after⟩ := stored_of_ok stored
  rw [parent_entry, ready.makeDirs] at made
  obtain rfl : w.disk = d₁ := ok.inj made
  obtain rfl : d = d₂ := congrArg Workspace.disk after
  obtain ⟨n, found⟩ := isSome_iff_exists.1 there
  exact named_written ready.linkless ready.straight (by simp [Path.entry]) (named_at? named found).1 named written

theorem outcome_removeProject (linkless : w.disk.Linkless) (named : w.disk.root.Named IsEntry)
    (straight : (base.entry name).Straight) (short : (base.entry name).parts.length < stepLimit)
    (noSlash : '/' ∉ name.toList) (plain : isPlainItems (logged w.disk (base.entry name))) (project : String) :
    ∃ r d, (removeProject (base.entry name) (.text project)).outcome w = (r, { w with disk := d }) ∧
      w.disk.Reaches (Reached base name) d ∧ d.root.Named IsEntry ∧
      logged d (base.entry name) = remaining project (logged w.disk (base.entry name)) := by
  rcases entries_cases (base.entry name) w with ⟨r, read, result⟩ | ⟨f, d, found, empty, renamed, read⟩
  · rcases result with rfl | ⟨empty, f, rfl⟩
    · rw [removeProject, removeProjectAfter, bind_of_ok read, outcome_bind, outcome_lift]
      unfold remaining
      cases run : ofOthers (.text project) (logged w.disk (base.entry name)) with
      | error f => exact ⟨_, w.disk, rfl, .refl linkless, named, rfl⟩
      | ok kept =>
        obtain ⟨kept', run', sub, -⟩ := ofOthers_of_objects project (objects_of_ofOthers run)
        obtain rfl : kept = kept' := ok.inj (run.symm.trans run')
        dsimp only
        split
        · rename_i fewer
          have some_ : logged w.disk (base.entry name) ≠ [] := by
            intro empty
            simp [empty] at fewer
          obtain ⟨ready, there⟩ := ready_of_logged linkless straight short some_
          have plain' : isPlainItems kept :=
            isPlainItems_iff.2 fun e member => isPlainItems_iff.1 plain e (sub.subset member)
          obtain ⟨d, stored, reaches, named', held⟩ := stored_spec ready named there plain'
          rw [bind_of_ok stored]
          exact ⟨_, d, rfl, reaches.mono fun way is => inl is, named', held⟩
        · have whole : kept = logged w.disk (base.entry name) := sub.eq_of_length_le (by omega)
          exact ⟨_, w.disk, rfl, .refl linkless, named, whole.symm⟩
    · refine ⟨.error f, w.disk, ?_, .refl linkless, named, by rw [empty]; rfl⟩
      rw [removeProject, removeProjectAfter, outcome_bind, read]
  · obtain ⟨reaches, named', none_⟩ := aside_spec linkless named straight noSlash found renamed
    refine ⟨.ok 0, d, ?_, reaches, named', by rw [none_, empty]; rfl⟩
    rw [removeProject, removeProjectAfter, bind_of_ok read]
    rfl

end Insight.Log

/-! ## The shelf -/

namespace Saved.Shelf

open Store.Session (Opened)

variable {dir q : Path} {file : String} {s : Store} {d : Disk} (shelf : Shelf w dir)

include shelf

theorem of_write_store (opened : Opened w s) {c : Content}
    (written : w.disk.write w.context.storeFile c w.now = .ok d) :
    w.disk.Reaches (· = w.context.storeFile.parts) d ∧ Shelf { w with disk := d } dir := by
  have straight : w.context.storeFile.Straight := shelf.home.entry (by decide)
  have further : w.context.storeFile.parts ≠ [] := by simp [storeFile, Path.entry]
  obtain ⟨f, found, -⟩ := opened.file
  have names := (named_at? shelf.named ((file_linkless shelf.linkless straight).1 found).1).1
  have reaches := reaches_write shelf.linkless straight further written
  exact ⟨reaches, shelf.step reaches.linkless (named_written shelf.linkless straight further names shelf.named written)⟩

theorem outcome_delete (opened : Opened w s) (name : String) :
    ∃ d, (delete name).outcome w = (.ok (s.has name), { w with disk := d }) ∧
      w.disk.Reaches (· = w.context.storeFile.parts) d ∧ w.disk.root.Alike d.root ∧
      Shelf { w with disk := d } dir ∧ Opened { w with disk := d } (s.delete name) := by
  obtain ⟨f, found, -⟩ := opened.file
  obtain ⟨d, written, current, again⟩ := write_file opened.rooted found (.store (s.delete name)) w.now
  obtain ⟨reaches, shelf'⟩ := shelf.of_write_store opened written
  refine ⟨d, ?_, reaches, alike_write opened.rooted found written, shelf', opened.live, ?_, ?_⟩
  · have kept : (keep (s.delete name)).outcome w = (.ok (), { w with disk := d }) := by
      rw [keep, bind_of_ok (outcome_get w), outcome_write, written]
    rw [delete, outcome_work opened, bind_of_ok kept]
    rfl
  · simpa [absolute, current] using opened.rooted
  · simp only [content, again]
    rfl

theorem unlinked (is : q = dir ∨ q = dir.parent) (entry : IsEntry file)
    (unlinked : w.disk.unlink (q.entry file) = .ok d) :
    Shelf { w with disk := d } dir ∧ w.disk.Reaches (· = q.parts ++ [file]) d ∧ Legal file ∧
      (w.disk.root.at? (q.parts ++ [file])).isSome ∧ d.root.at? (q.parts ++ [file]) = none := by
  have straight := (shelf.of_dirs is).1.entry entry.notUp
  obtain ⟨f, found⟩ := file_of_unlinked shelf.linkless straight unlinked
  obtain ⟨there, legal, -⟩ := (file_linkless shelf.linkless straight).1 found
  obtain ⟨d', unlinked', reaches, gone⟩ := unlink_linkless shelf.linkless straight found
  obtain rfl : d = d' := ok.inj (unlinked.symm.trans unlinked')
  exact ⟨shelf.step reaches.linkless (named_unlink shelf.named unlinked), reaches, legal file (by simp [Path.entry]),
    isSome_of_eq_some there, gone⟩

end Saved.Shelf

namespace Api.Projects

open Saved (Shelf copies)
open Store.Session (Opened)

variable {dir : Path} {s : Store} {r : Request} {id stem file : String} {v : Value} {w' : Workspace}

def logOf (dir : Path) : Path := dir.parent.entry "project_insights.json"

theorem outcome_forget (shelf : Shelf w dir) (plain : isPlainItems (logged w.disk (logOf dir)))
    (project : String) : ∃ d, (forget project).outcome w = (.ok (), { w with disk := d }) ∧
      w.disk.Reaches (Insight.Log.Reached dir.parent "project_insights.json") d ∧ Shelf { w with disk := d } dir ∧
      logged d (logOf dir) = remaining project (logged w.disk (logOf dir)) := by
  obtain ⟨straight, -, -, short⟩ := shelf.of_dirs (inr rfl)
  have straight' : (logOf dir).Straight := straight.entry (by decide)
  have short' : (logOf dir).parts.length < stepLimit := by simpa [logOf, Path.entry] using short
  obtain ⟨r, d, run, reaches, named, held⟩ := outcome_removeProject shelf.linkless shelf.named straight' short'
    (by decide) plain project
  refine ⟨d, ?_, reaches, shelf.step reaches.linkless named, held⟩
  have found : log.outcome w = (.ok (logOf dir), w) := by
    rw [outcome_log, shelf.filesDir]
    rfl
  rw [forget, outcome_discard, outcome_attempt, bind_of_ok found, logOf, run]
  rfl

/-! ## The request -/

theorem outcome_delete (searched : searchDir w = .ok dir) (other : isInternal (fileOf (r.text "id")) = false)
    (free : chosenPlace r = none) : (delete r).outcome w = (erase (fileOf (r.text "id")) none).outcome w := by
  unfold delete
  rw [if_neg (by rw [other]; exact Bool.false_ne_true), bind_of_ok (allowedDirs_of_searched searched), free]
  rfl

theorem deleteFile_of_done (run : (deleteSaved file none).outcome w =
    (.ok ("[SUCCESS] Deleted '" ++ file ++ "' from filesystem!"), w')) : (deleteFile file).outcome w = (.ok true, w') := by
  obtain ⟨done, w₁, deleted, told⟩ := steps_of_bind run
  cases done with
  | true =>
    cases told
    exact deleted
  | false =>
    have words : "[INFO] No local file was deleted for '" ++ file ++ "'." =
        "[SUCCESS] Deleted '" ++ file ++ "' from filesystem!" := ok.inj (congrArg Prod.fst told)
    have letters := congrArg (fun s => s.toList[1]?) words
    simp at letters

theorem deleted_copy (shelf : Shelf w dir) (entry : IsEntry file) (run : (deleteFile file).outcome w = (.ok true, w')) :
    ∃ q d, (q = dir ∧ (w.disk.root.at? (dir.parts ++ [file])).isSome ∨
        q = dir.parent ∧ (w.disk.root.at? (dir.parts ++ [file])).isSome = false) ∧
      w' = { w with disk := d } ∧ w.disk.unlink (q.entry file) = .ok d := by
  rcases deleteFile_cases file w with ⟨_, run', notDone⟩ | ⟨dir', p, d, searched, found, unlinked, run'⟩
  · rw [run] at run'
    exact absurd (Prod.mk.inj run').1.symm notDone
  · obtain rfl : dir = dir' := ok.inj (shelf.searchDir.symm.trans searched)
    have after : w' = { w with disk := d } := (Prod.mk.inj (run.symm.trans run')).2
    have place := child_of_isName entry.toIsName
    -- The name is allowed, since a file with it was found; so the first copy can be told from the tree.
    have legal : Legal file := by
      rcases mem_placesOf.1 (mem_of_firstThere? found) with is | is
      · rw [is, place] at unlinked
        exact (shelf.unlinked (inl rfl) entry unlinked).2.2.1
      · rw [is, place] at unlinked
        exact (shelf.unlinked (inr rfl) entry unlinked).2.2.1
    rw [shelf.firstThere? entry legal] at found
    split at found
    · rename_i here
      obtain rfl : dir.entry file = p := some.inj (ok.inj found)
      exact ⟨dir, d, inl ⟨rfl, here⟩, after, unlinked⟩
    · rename_i none_
      split at found
      · obtain rfl : dir.parent.entry file = p := some.inj (ok.inj found)
        exact ⟨dir.parent, d, inr ⟨rfl, by simpa using none_⟩, after, unlinked⟩
      · cases found

theorem own_of_document {f : Fault} (failed : d.document p = .error f) : f.own = false := by
  unfold document content at failed
  cases found : d.file p with
  | error g =>
    rw [found] at failed
    cases failed
    obtain ⟨t, rfl⟩ := trouble_of_file found
    cases t <;> rfl
  | ok g =>
    rw [found] at failed
    simp only [bind, Except.bind, pure, Except.pure] at failed
    split at failed
    · cases failed
    · split at failed
      · unfold parse at failed
        split at failed
        · cases failed
        · cases failed
          rfl
      · cases failed
        rfl

theorem readSaved_ne (p : Path) (w : Workspace) (words : String) :
    ((readSaved p).outcome w).1 ≠ .error (.reject 404 words) := by
  intro refused
  rw [readSaved, telling, outcome_tryCatch, outcome_ask] at refused
  cases read : w.disk.document p with
  | ok v =>
    rw [read] at refused
    cases refused
  | error f =>
    rw [read] at refused
    have same : rejectedAs 500 ("Failed to parse saved project file '" ++ p.name ++ "': ") f = .reject 404 words :=
      error.inj refused
    have own : (rejectedAs 500 ("Failed to parse saved project file '" ++ p.name ++ "': ") f).own = f.own := by
      unfold rejectedAs
      split <;> rfl
    rw [same, own_of_document read] at own
    cases own

theorem notFound_iff (shelf : Shelf w dir) (opened : Opened w s) (unknown : s.content? (stem ++ ".json") = none)
    (identifies : Identifies (r.text "id") stem) (legal : Legal (stem ++ ".json")) :
    ((view r).outcome w).1 = .error (.reject 404 ("Project '" ++ stem ++ "' was not found.")) ↔
      ∀ way ∈ copies dir (stem ++ ".json"), w.disk.root.at? way = none := by
  have fetched : (fetch? (stem ++ ".json")).outcome w = (.ok none, w) := by
    rw [fetch?, outcome_work opened, unknown]
    rfl
  have required : (liftM (required w.context.saveDir) : Action Path).outcome w = (.ok dir, w) := by
    rw [shelf.saveDir]
    rfl
  have looked := shelf.firstThere? identifies.entry legal
  unfold view
  dsimp only
  rw [identifies.file, identifies.stem_eq, bind_of_ok fetched, bind_of_ok (outcome_get w),
    bind_of_ok required, outcome_bind, outcome_ask, looked]
  have reads (p : Path) (answer : Value → Value) (words : String) :
      ((do return answer (← readSaved p) : Action Value).outcome w).1 ≠ .error (.reject 404 words) := by
    intro refused
    refine readSaved_ne p w words ?_
    rw [outcome_bind] at refused
    rcases read : (readSaved p).outcome w with ⟨_ | f, w₁⟩
    · rw [read] at refused
      exact refused
    · rw [read] at refused
      cases refused
  simp only [copies, mem_cons, not_mem_nil, or_false, forall_eq_or_imp, forall_eq, ← not_isSome_iff_eq_none]
  by_cases here : (w.disk.root.at? (dir.parts ++ [stem ++ ".json"])).isSome
  · rw [if_pos here]
    exact iff_of_false (reads _ _ _) fun none_ => none_.1 here
  · rw [if_neg here]
    by_cases above : (w.disk.root.at? (dir.parent.parts ++ [stem ++ ".json"])).isSome
    · rw [if_pos above]
      exact iff_of_false (reads _ _ _) fun none_ => none_.2 above
    · rw [if_neg above]
      exact iff_of_true rfl ⟨here, above⟩

/-- The project has a copy in both directories. -/
def Twice (w : Workspace) (dir : Path) (file : String) : Prop :=
  ∀ way ∈ copies dir file, (w.disk.root.at? way).isSome

theorem copy_left_iff (shelf : Shelf w dir) {q : Path}
    (first : q = dir ∧ (w.disk.root.at? (dir.parts ++ [file])).isSome ∨
        q = dir.parent ∧ (w.disk.root.at? (dir.parts ++ [file])).isSome = false)
    (reaches : w.disk.Reaches (· = q.parts ++ [file]) d)
    (there : (w.disk.root.at? (q.parts ++ [file])).isSome) (gone : d.root.at? (q.parts ++ [file]) = none) :
    (∃ way ∈ copies dir file, (d.root.at? way).isSome) ↔ Twice w dir file := by
  have apart : dir.parts ++ [file] ≠ dir.parent.parts ++ [file] := by
    intro same
    have shorter := congrArg length (append_cancel_right same)
    have some_ := length_pos_iff.2 shelf.deep
    rw [parent, length_dropLast] at shorter
    omega
  have other {way : List String} (ne : way ≠ q.parts ++ [file]) :
      (d.root.at? way).isSome = (w.disk.root.at? way).isSome :=
    reaches.isSome_of_there (fun aim is => is ▸ there) ne
  simp only [Twice, copies, mem_cons, exists_eq_or_imp, forall_eq_or_imp]
  rcases first with ⟨rfl, here⟩ | ⟨rfl, none_⟩
  · rw [gone, other apart.symm, here]
    simp
  · rw [gone, other apart, none_]
    simp

theorem ways_ne {a b : List String} {x y : String} (ne : x ≠ y) : a ++ [x] ≠ b ++ [y] := fun same =>
  ne (cons.inj (append_inj_right' same rfl)).1

theorem not_reached (dir : Path) (other : isInternal (stem ++ ".json") = false) {way : List String}
    (reached : Insight.Log.Reached dir.parent "project_insights.json" way) :
    ∃ name, way = dir.parent.parts ++ [name] ∧ name ≠ stem ++ ".json" := by
  rcases reached with rfl | ⟨t, rfl⟩
  · refine ⟨_, rfl, fun same => ?_⟩
    rw [← same] at other
    revert other
    decide
  · refine ⟨_, rfl, fun same => ?_⟩
    obtain ⟨front, ends⟩ : ∃ front, asideName t "project_insights.json" = front ++ "Z" := ⟨_, rfl⟩
    have last := congrArg (fun s : String => s.toList.getLast?) (ends.symm.trans same)
    simp at last

theorem copies_of_reached (shelf : Shelf w dir) (other : isInternal (stem ++ ".json") = false)
    (reaches : w.disk.Reaches (Insight.Log.Reached dir.parent "project_insights.json") d) :
    ∀ way ∈ copies dir (stem ++ ".json"), (d.root.at? way).isSome = (w.disk.root.at? way).isSome := by
  intro way member
  refine reaches.isSome fun aim reached along => ?_
  obtain ⟨name, rfl, ne⟩ := not_reached dir other reached
  rcases mem_cons.1 member with rfl | last
  · have longer := along.length_le
    have some_ := length_pos_iff.2 shelf.deep
    simp only [parent, length_append, length_dropLast, length_singleton] at longer
    omega
  · obtain rfl := mem_singleton.1 last
    exact ways_ne ne.symm (along.eq_of_length (by simp))

/-- A deletion takes the project out of the store and out of the log, and the first copy of its file. -/
theorem erase_spec (shelf : Shelf w dir) (opened : Opened w s)
    (plain : isPlainItems (logged w.disk (logOf dir))) (identifies : Identifies id stem)
    (other : isInternal (stem ++ ".json") = false) (run : (erase (stem ++ ".json") none).outcome w = (.ok v, w'))
    (done : v.getOrNull "status" = .text ("[SUCCESS] Deleted '" ++ (stem ++ ".json") ++ "' from filesystem!")) :
    Shelf w' dir ∧ Opened w' (s.delete (stem ++ ".json")) ∧ Legal (stem ++ ".json") ∧
      ((∃ way ∈ copies dir (stem ++ ".json"), (w'.disk.root.at? way).isSome) ↔ Twice w dir (stem ++ ".json")) ∧
      logged w'.disk (logOf dir) = remaining stem (logged w.disk (logOf dir)) := by
  obtain ⟨words, w₁, deletedStored, run⟩ := steps_of_bind run
  obtain ⟨told, w₂, deletedSaved, run⟩ := steps_of_bind run
  obtain ⟨_, w₃, forgotten, answered⟩ := steps_of_bind run
  obtain ⟨answer, rfl⟩ := Prod.mk.inj answered
  obtain rfl : told = "[SUCCESS] Deleted '" ++ (stem ++ ".json") ++ "' from filesystem!" := by
    rw [← ok.inj answer] at done
    exact Value.text.inj done
  have straightLog : (logOf dir).Straight := (shelf.of_dirs (inr rfl)).1.entry (by decide)
  have straightStore : w.context.storeFile.Straight := shelf.home.entry (by decide)
  have notLog : stem ++ ".json" ≠ "project_insights.json" := by
    obtain ⟨name, same, ne⟩ := not_reached dir other (inl rfl)
    exact (cons.inj (append_inj_right' same rfl)).1 ▸ ne.symm
  -- The store.
  obtain ⟨d₁, deleted, reaches₁, -, shelf₁, opened₁⟩ := shelf.outcome_delete opened (stem ++ ".json")
  obtain rfl : w₁ = { w with disk := d₁ } := by
    rw [deleteStored, outcome_bind, outcome_attempt, deleted] at deletedStored
    cases has : s.has (stem ++ ".json") <;> simp only [has] at deletedStored <;> exact (Prod.mk.inj deletedStored).2.symm
  have storeThere : (w.disk.root.at? w.context.storeFile.parts).isSome := by
    obtain ⟨f, found, -⟩ := opened.file
    exact isSome_of_eq_some ((file_linkless shelf.linkless straightStore).1 found).1
  have same₁ : Twice { w with disk := d₁ } dir (stem ++ ".json") ↔ Twice w dir (stem ++ ".json") := by
    have each {q : Path} : (d₁.root.at? (q.parts ++ [stem ++ ".json"])).isSome =
        (w.disk.root.at? (q.parts ++ [stem ++ ".json"])).isSome :=
      reaches₁.isSome_of_there (fun aim is => is ▸ storeThere) (storeFile_ne w.context q stem).symm
    simp [Twice, copies, each]
  have logged₁ : logged d₁ (logOf dir) = logged w.disk (logOf dir) :=
    logged_of_leaf shelf.linkless shelf₁.linkless straightLog (reaches₁.leaves _ (ways_ne (by decide)))
  -- The file.
  obtain ⟨q, d₂, first, rfl, unlinked⟩ := deleted_copy shelf₁ identifies.entry (deleteFile_of_done deletedSaved)
  have is : q = dir ∨ q = dir.parent := first.imp And.left And.left
  obtain ⟨shelf₂, reaches₂, legal, there, gone⟩ := shelf₁.unlinked is identifies.entry unlinked
  have left := copy_left_iff shelf₁ first reaches₂ there gone
  have opened₂ : Opened { w with disk := d₂ } (s.delete (stem ++ ".json")) := opened₁.of_leaf shelf.home shelf₁.linkless
    shelf₂.linkless rfl (reaches₂.leaves _ (storeFile_ne w.context q stem))
  have logged₂ : logged d₂ (logOf dir) = logged d₁ (logOf dir) :=
    logged_of_leaf shelf₁.linkless shelf₂.linkless straightLog (reaches₂.leaves _ (ways_ne notLog.symm))
  -- The log.
  rw [identifies.stem_eq] at forgotten
  obtain ⟨d₃, run₃, reaches₃, shelf₃, logged₃⟩ := outcome_forget shelf₂ (by rw [logged₂, logged₁]; exact plain) stem
  obtain rfl : w₃ = { w with disk := d₃ } := (Prod.mk.inj (forgotten.symm.trans run₃)).2
  have opened₃ : Opened { w with disk := d₃ } (s.delete (stem ++ ".json")) := opened₂.of_leaf shelf.home shelf₂.linkless
    shelf₃.linkless rfl (reaches₃.leaves _ ?_)
  · refine ⟨shelf₃, opened₃, legal, ?_, ?_⟩
    · rw [← same₁, ← left]
      have each := copies_of_reached shelf₂ other reaches₃
      exact exists_congr fun way => and_congr_right fun member => by rw [each way member]
    · rw [logged₃, logged₂, logged₁]
  · rintro (same | ⟨t, same⟩)
    · exact ways_ne (by decide) same
    · exact ways_ne (Text.ne_of_mem 'T' (mem_asideName t _) (by decide)).symm same

/-- Whatever the store, the two directories and the log hold: a project that was reported as deleted is no longer
found or listed, unless it had a copy in both directories, and no entry of it is in the log, unless one of the entries
there is no object. -/
theorem gone_unless_twice (shelf : Shelf w dir) (opened : Opened w s)
    (plain : Json.isPlainItems (logged w.disk (logOf dir)) = true)
    (identifies : Identifies (r.text "id") stem) (other : isInternal (stem ++ ".json") = false)
    (free : chosenPlace r = none) (run : (delete r).outcome w = (.ok v, w'))
    (done : v.getOrNull "status" = .text ("[SUCCESS] Deleted '" ++ (stem ++ ".json") ++ "' from filesystem!")) :
    (((view r).outcome w').1 = .error (.reject 404 ("Project '" ++ stem ++ "' was not found.")) ↔
      ¬ Twice w dir (stem ++ ".json")) ∧
    (∃ ns, names.outcome w' = (.ok ns, w') ∧ (stem ∉ ns ↔ ¬ Twice w dir (stem ++ ".json"))) ∧
    ((∀ e ∈ logged w'.disk (logOf dir), ¬ Insight.Log.IsOf stem e) ↔
      (∀ e ∈ logged w.disk (logOf dir), ∃ fs, e = .object fs) ∨
        ∀ e ∈ logged w.disk (logOf dir), ¬ Insight.Log.IsOf stem e) := by
  rw [outcome_delete shelf.searchDir (by rw [identifies.file]; exact other) free, identifies.file] at run
  obtain ⟨shelf', opened', legal, left, logged⟩ := erase_spec shelf opened plain identifies other run done
  have unknown : (s.delete (stem ++ ".json")).content? (stem ++ ".json") = none := by
    simp [Store.content?, Store.find?, Store.delete]
  refine ⟨?_, ?_, ?_⟩
  · rw [notFound_iff shelf' opened' unknown identifies legal, ← left]
    simp
  · obtain ⟨ns, listed, members⟩ := outcome_names shelf'
    refine ⟨ns, listed, ?_⟩
    rw [members (r.text "id") stem identifies, ← left]
    simp [other]
  · rw [logged]
    exact none_remaining_iff

/-! ## Two shelves -/

def numbered (n : Int) : Node := .file ⟨.document .pretty (.object [("a", .int n)]), default, 0⟩

def oneStored : Store := ⟨[⟨"p.json", .object [("a", .int 1)], [], 0, 1⟩], []⟩

/-- A project in the store, in the directory of saved projects and in the log, and what else is in the directory above. -/
def shelved (older : List (String × Node)) : Workspace :=
  let entry (name : String) : Value := .object [("project_name", .text name)]
  { (default : Workspace) with
    disk := ⟨.dir [
      ("User_config_files", .dir (older ++ [
        ("project_insights", .dir [("p.json", numbered 1)]),
        ("project_insights.json", .file ⟨.document .pretty (.list [entry "p", entry "q"]), default, 0⟩)])),
      ("appdb.db", .file ⟨.store oneStored, default, 0⟩)], ⟨"/", []⟩, "user", 0⟩
    context := { ofHome ⟨"/", []⟩ with connection := .live } }

theorem shelf_usual (linkless : w.disk.Linkless) (named : w.disk.root.Named IsEntry)
    (usual : w.context = { ofHome ⟨"/", []⟩ with connection := .live }) : Shelf w (usualSaveDir ⟨"/", []⟩) where
  linkless := linkless
  named := named
  home := usual ▸ ⟨rfl, by decide⟩
  saveDir := usual ▸ rfl
  filesDir := usual ▸ rfl
  rooted := rfl
  names := by decide
  legal := by decide
  deep := by decide
  short := by decide

theorem shelf_shelved : Shelf (shelved []) (usualSaveDir ⟨"/", []⟩) := by
  have entries : ∀ x ∈ ["User_config_files", "project_insights", "p.json", "project_insights.json", "appdb.db"],
      IsEntry x := by decide
  refine shelf_usual (linkless_of_isLinkless ⟨_, rfl⟩ rfl) ?_ rfl
  simp [shelved, numbered, Named, NamedEntries, entries]

/-- A project that was saved once is gone from everywhere. -/
theorem saved_once_gone :
    ∃ v w', (delete (deletionOf "p" .null)).outcome (shelved []) = (.ok v, w') ∧
      ((view (deletionOf "p" .null)).outcome w').1 = .error (.reject 404 "Project 'p' was not found.") ∧
      (∃ ns, names.outcome w' = (.ok ns, w') ∧ "p" ∉ ns) ∧
      ∀ e ∈ logged w'.disk (logOf (usualSaveDir ⟨"/", []⟩)), ¬ Insight.Log.IsOf "p" e := by
  have fine : ((delete (deletionOf "p" .null)).outcome (shelved [])).1.isOk = true := by decide +kernel
  have told : (((delete (deletionOf "p" .null)).outcome (shelved [])).1.toOption.bind fun v =>
      (v.getOrNull "status").text?) = some "[SUCCESS] Deleted 'p.json' from filesystem!" := by
    decide +kernel
  obtain ⟨v, w', run⟩ := Action.ok_of_isOk fine
  rw [run] at told
  have done : v.getOrNull "status" = .text ("[SUCCESS] Deleted '" ++ ("p" ++ ".json") ++ "' from filesystem!") :=
    Value.eq_of_text? told
  have once : ¬ Twice (shelved []) (usualSaveDir ⟨"/", []⟩) ("p" ++ ".json") := by
    intro twice
    have above := twice _ (List.mem_cons_of_mem _ List.mem_cons_self)
    revert above
    decide +kernel
  have objects : ∀ e ∈ logged (shelved []).disk (logOf (usualSaveDir ⟨"/", []⟩)),
      ∃ fs, e = .object fs := by
    have entries : logged (shelved []).disk (logOf (usualSaveDir ⟨"/", []⟩)) =
        [.object [("project_name", .text "p")], .object [("project_name", .text "q")]] := rfl
    simp [entries]
  have identifies : Identifies ((deletionOf "p" .null).text "id") "p" :=
    ⟨by decide +kernel, by decide, by decide, by decide⟩
  obtain ⟨found, ⟨ns, listed, absent⟩, logged⟩ := gone_unless_twice (s := oneStored) shelf_shelved ⟨rfl, rfl, rfl⟩
    (by decide +kernel) identifies (by decide +kernel) rfl run done
  exact ⟨v, w', run, found.2 once, ⟨ns, listed, absent.2 once⟩, logged.2 (Or.inl objects)⟩

/-- A project that was saved in both directories is reported as deleted, and is found and listed afterwards. -/
theorem second_copy_survives :
    let done := (delete (deletionOf "p" .null)).outcome (shelved [("p.json", numbered 2)])
    (done.1.toOption.map fun v => (v.getOrNull "status").textOrEmpty) =
      some "[SUCCESS] Deleted 'p.json' from filesystem!" ∧
    (((view (deletionOf "p" .null)).outcome done.2).1.toOption.map fun v => (v.getOrNull "source").textOrEmpty) =
      some "filesystem" ∧
    (names.outcome done.2).1.toOption = some ["p"] := by
  decide +kernel

end Api.Projects

end Folio

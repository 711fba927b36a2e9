/-
# Proofs.Api.Lifecycle -- a project from its analysis to its deletion

Saving an analysis writes the file of the project and a row of the store, and nothing else (`Shelf.exported`).  Requests
find it by the name of that file, unless the file is one of the application's own, which saving does not look at.  A
name that ends as files do is taken for the name of a file, so it is no identifier of its project
(`exported_lifecycle`).
-/
import Folio.Proofs.Api.Deleted

namespace Folio

open Action Context Disk List Naming Option Saved Store.History Store.Session Text

variable {analysis : Value} {d : Disk} {f : File} {file name : String} {snapshots : List Value}
  {w w' : Workspace} {dir : Path} {s : Store} {logs : Store.Session.Logs}

/-! ## Names of projects -/

namespace Naming

/-- No stem is the bare ending of a file, since it does not begin with a dot. -/
theorem project_ne_ending (name : String) : project name ≠ ".json" := by
  unfold project safeWith
  dsimp only
  split
  · decide
  · intro same
    have letters : safeChars isUnsafe name.toList = ".json".toList := by
      rw [← same, String.toList_ofList]
    obtain ⟨marked, trimmed⟩ : ∃ marked, safeChars isUnsafe name.toList = trimWhile isFringe marked := ⟨_, rfl⟩
    have front : trimWhile isFringe marked <+: marked.dropWhile isFringe := by
      have back := dropWhile_suffix (l := (marked.dropWhile isFringe).reverse) isFringe
      simpa [trimWhile, dropEndWhile] using reverse_prefix.2 back
    rw [← trimmed, letters] at front
    obtain ⟨rest, whole⟩ := front
    have first := head?_dropWhile_not isFringe marked
    rw [← whole] at first
    revert first
    simp [isFringe]

end Naming

/-! ## Saving on the shelf -/

namespace Store.Session

theorem Opened.congr (opened : Opened w s) (disk : w'.disk = w.disk) (context : w'.context = w.context) : Opened w' s :=
  ⟨context ▸ opened.live, by rw [disk, context]; exact opened.rooted, by rw [disk, context]; exact opened.holds⟩

theorem kept_of_insert (opened : Opened w s) {content : Value} {known : Option Bool}
    (run : (insert name content none).outcome w = (.ok known, w')) : ∃ s', (keep s').outcome w = (.ok (), w') := by
  rw [insert, bind_of_ok (outcome_connection opened)] at run
  have worked : ∀ (step : Store → Action (Option Bool)), (work (.ok none) step).outcome w = (step s).outcome w :=
    outcome_work opened _
  split at run
  · cases run
  · rw [worked] at run
    obtain ⟨_, w₁, timed, run₁⟩ := steps_of_bind run
    obtain ⟨⟨s', known'⟩, w₂, inserted, run₂⟩ := steps_of_bind run₁
    obtain ⟨_, w₃, kept, run₃⟩ := steps_of_bind run₂
    have first : w₁ = w := (Prod.mk.inj timed).2.symm
    have second : w₂ = w₁ := (Prod.mk.inj inserted).2.symm
    have last : w₃ = w' := (Prod.mk.inj run₃).2
    rw [second, first, last] at kept
    exact ⟨s', kept⟩

end Store.Session

namespace Saved.Shelf

open Store.Session (Opened)

section

variable (shelf : Shelf w dir)

include shelf

theorem congr (disk : w'.disk = w.disk) (context : w'.context = w.context) : Shelf w' dir :=
  ⟨disk ▸ shelf.linkless, disk ▸ shelf.named, context ▸ shelf.home, context ▸ shelf.saveDir, context ▸ shelf.filesDir,
    shelf.rooted, shelf.names, shelf.legal, shelf.deep, shelf.short⟩

theorem of_keep (opened : Opened w s) {s' : Store} (kept : (keep s').outcome w = (.ok (), w')) : Shelf w' dir := by
  rw [keep, bind_of_ok (outcome_get w)] at kept
  obtain ⟨d, written, rfl⟩ := written_of_ok kept
  exact (shelf.of_write_store opened written).2

theorem of_write (entry : Path.IsEntry file) {c : Content}
    (written : w.disk.write (dir.entry file) c w.now = .ok d) : Shelf { w with disk := d } dir := by
  have straight := shelf.straight.entry entry.notUp
  have further : (dir.entry file).parts ≠ [] := by simp [Path.entry]
  have names : ∀ x ∈ (dir.entry file).parts, Path.IsEntry x := by
    intro x member
    rcases mem_append.1 member with above | last
    · exact shelf.names x above
    · exact mem_singleton.1 last ▸ entry
  have reaches := reaches_write shelf.linkless straight further written
  exact shelf.step reaches.linkless (named_written shelf.linkless straight further names shelf.named written)

theorem of_makeDirs (made_ : w.disk.makeDirs dir = .ok d) : Shelf { w with disk := d } dir := by
  have same : w.disk.absolute dir = dir := absolute_straight shelf.straight
  refine shelf.step (root_makeDirs shelf.linkless shelf.straight made_).2.1 ?_
  refine named_makeDirs (by rw [same]; exact shelf.straight.plain) (shelf.linkless.clear _) ?_ shelf.named made_
  rw [same]
  exact shelf.names

theorem exported (follows : Store.Session.Follows w logs)
    (run : (exportAnalysis name analysis).outcome w = (.ok snapshots, w')) :
    ∃ record s', made w.now (w.disk.document (dir.entry (project name ++ ".json"))).toOption analysis =
        .ok (record, snapshots) ∧ Shelf w' dir ∧ Opened w' s' ∧ s'.content? (project name ++ ".json") = some record ∧
      w'.disk.document (dir.entry (project name ++ ".json")) = .ok record ∧ Legal (project name ++ ".json") ∧
      ∀ way, way ≠ dir.parts ++ [project name ++ ".json"] → way ≠ w.context.storeFile.parts →
        w'.disk.root.leaf? way = w.disk.root.leaf? way := by
  have whole : (⟨"/", dir.parts⟩ : Path) = dir := by rw [← shelf.rooted]
  have entry := isEntry_file name
  have site := site_of_export shelf.linkless shelf.home shelf.saveDir shelf.straight shelf.short run
  obtain ⟨d, record, made_, ready, frame, recorded, plain, run⟩ := export_spec site run
  rw [whole] at made_ run
  rw [fileIn, whole] at recorded run
  obtain ⟨s, opened, shown⟩ := follows
  have opened₁ : Opened { w with disk := d } s :=
    opened.of_leaf shelf.home shelf.linkless ready.linkless rfl (frame.leaves _ id)
  have shelf₁ : Shelf { w with disk := d } dir := shelf.of_makeDirs made_
  -- The file.
  obtain ⟨d₂, f, saved, reaches, ready₂, found, held⟩ := save_ok (w := { w with disk := d }) entry.toIsName ready plain
  rw [whole] at saved ready ready₂
  rw [fileIn, whole] at found
  obtain ⟨d₁, d₃, made₁, written, after⟩ := saved_of_ok saved
  obtain rfl : d = d₁ := Except.ok.inj (ready.makeDirs.symm.trans made₁)
  obtain rfl : d₂ = d₃ := congrArg Workspace.disk after
  rw [Path.child_of_isName entry.toIsName] at written
  have shelf₂ : Shelf { w with disk := d₂ } dir := shelf₁.of_write entry written
  have opened₂ : Opened { w with disk := d₂ } s := opened₁.of_leaf shelf.home shelf₁.linkless shelf₂.linkless rfl
    (reaches.leaves _ (storeFile_ne w.context dir _))
  -- The store.
  obtain ⟨w₃, kept, disk, context⟩ := keepRecord_saved (w := { w with disk := d }) recorded saved
  obtain rfl := (Prod.mk.inj (kept.symm.trans run)).2
  obtain ⟨s', w₄, inserted, opened', shows', -⟩ :=
    outcome_insert opened₂ (shown (project name ++ ".json")) plain none
  rw [inserted] at disk context
  have steady := within_storeFile shelf.home (project name ++ ".json") record { w with disk := d₂ } shelf₂.linkless rfl
  rw [inserted] at steady
  obtain ⟨s'', kept'⟩ := kept_of_insert opened₂ inserted
  have shelf₄ := shelf₂.of_keep opened₂ kept'
  obtain ⟨-, still⟩ := ready₂.keeps steady.disk (storeFile_ne w.context dir _).symm found
  refine ⟨record, s', recorded, shelf₄.congr disk context, opened'.congr disk context, ?_, ?_, site.legal _ (by simp), ?_⟩
  · rw [Store.content?_of_shows shows', map_some]
    cases logs (project name ++ ".json") with
    | none => rfl
    | some h => rw [Store.History.next, newest_write]
  · rw [disk]
    exact document_of_file still held
  · intro way own store
    rw [disk, steady.disk.leaves way store, reaches.leaves way own, frame.leaves way id]

theorem outcome_deleteFile (opened : Opened w s) (unknown : s.count file = 0)
    (entry : Path.IsEntry file) (legal : Legal file) (other : isInternal file = false)
    (found : w.disk.file (dir.entry file) = .ok f) :
    ∃ d, (deleteFile file).outcome w = (.ok true, { w with disk := d }) := by
  have straight := shelf.straight.entry entry.notUp
  obtain ⟨d, unlinked, -⟩ := unlink_linkless shelf.linkless straight found
  have there : (w.disk.root.at? (dir.parts ++ [file])).isSome :=
    isSome_of_eq_some ((file_linkless shelf.linkless straight).1 found).1
  have search : searched.outcome w = (.ok dir, w) := by rw [outcome_searched, shelf.searchDir]
  have find : (find? file).outcome w = (.ok (some (dir.entry file)), w) := by
    rw [find?, bind_of_ok search, outcome_ask, shelf.firstThere? entry legal, if_pos there]
  have counted : (attempt (count file)).outcome w = (.ok (.ok 0), w) := by
    rw [outcome_attempt, Store.Session.count, Store.Session.outcome_work opened, unknown]
    rfl
  have gone : (attempt (change fun d => d.unlink (dir.entry file))).outcome w =
      (.ok (.ok ()), { w with disk := d }) := by
    rw [outcome_attempt, outcome_change, unlinked]
  refine ⟨d, ?_⟩
  rw [deleteFile, other, if_neg Bool.false_ne_true, bind_of_ok find, bind_of_ok counted]
  exact bind_of_ok gone

end

end Saved.Shelf

namespace Api.Projects

open Saved (Shelf)
open Store.Session (Opened)

variable {stem : String} {r : Request} {record : Value}

theorem fileOf_file (stem : String) : fileOf (stem ++ ".json") = stem ++ ".json" := by
  have ends : endsWith (stem ++ ".json") ".json" := by
    rw [endsWith_iff, String.toList_append]
    exact suffix_append _ _
  rw [fileOf, if_pos ends]

theorem fileOf_stem_iff (stem : String) : fileOf stem = stem ++ ".json" ↔ endsWith stem ".json" = false := by
  unfold fileOf
  split
  · rename_i ends
    refine iff_of_false (fun same => ?_) (by simp [ends])
    have longer := congrArg String.length same
    simp at longer
  · rename_i other
    exact iff_of_true rfl (by simpa using other)

theorem outcome_view (opened : Opened w s) (known : s.content? (stem ++ ".json") = some record)
    (identifies : Identifies (r.text "id") stem) :
    (view r).outcome w = (.ok (.object [("project_name", .text stem), ("source", .text "database"),
      ("analysis", record)]), w) := by
  have fetched : (fetch? (stem ++ ".json")).outcome w = (.ok (some record), w) := by
    rw [fetch?, outcome_work opened, known]
    rfl
  unfold view
  dsimp only
  rw [identifies.file, identifies.stem_eq, bind_of_ok fetched]
  rfl

def bothDeleted (file : String) : Value :=
  deletion ("[SUCCESS] Deleted DB records for '" ++ file ++ "'.") ("[SUCCESS] Deleted '" ++ file ++ "' from filesystem!")

/-- What is answered when a file of the application's own is to be deleted. -/
def keptBack (file : String) : Value :=
  deletion ("[INFO] '" ++ file ++ "' is an internal artifact. DB deletion skipped.")
    ("[INFO] '" ++ file ++ "' is an internal artifact and cannot be deleted.")

theorem outcome_forget_ok (project : String) : ∃ w', (forget project).outcome w = (.ok (), w') := by
  exact ⟨_, rfl⟩

theorem outcome_erase (shelf : Shelf w dir) (opened : Opened w s) (known : s.has (stem ++ ".json"))
    (entry : Path.IsEntry (stem ++ ".json")) (legal : Legal (stem ++ ".json"))
    (other : isInternal (stem ++ ".json") = false) (found : w.disk.file (dir.entry (stem ++ ".json")) = .ok f) :
    ((erase (stem ++ ".json") none).outcome w).1 = .ok (bothDeleted (stem ++ ".json")) := by
  obtain ⟨d₁, deleted, reaches, -, shelf₁, opened₁⟩ := shelf.outcome_delete opened (stem ++ ".json")
  have stored : (deleteStored (stem ++ ".json")).outcome w =
      (.ok ("[SUCCESS] Deleted DB records for '" ++ (stem ++ ".json") ++ "'."), { w with disk := d₁ }) := by
    rw [deleteStored, outcome_bind, outcome_attempt, deleted, known]
    rfl
  have still : d₁.file (dir.entry (stem ++ ".json")) = .ok f :=
    (file_of_leaf shelf.linkless shelf₁.linkless (shelf.straight.entry entry.notUp)
      (reaches.leaves _ (storeFile_ne w.context dir stem).symm)).2 found
  have unknown : (s.delete (stem ++ ".json")).count (stem ++ ".json") = 0 := by
    simp [Store.count, Store.delete]
  obtain ⟨d₂, gone⟩ := shelf₁.outcome_deleteFile opened₁ unknown entry legal other still
  have saved : (deleteSaved (stem ++ ".json") none).outcome { w with disk := d₁ } =
      (.ok ("[SUCCESS] Deleted '" ++ (stem ++ ".json") ++ "' from filesystem!"), { w with disk := d₂ }) := by
    rw [deleteSaved, bind_of_ok gone]
    rfl
  rw [erase, bind_of_ok stored, bind_of_ok saved]
  rfl

/-- Whatever name an analysis is saved under, once that has succeeded: its record is in the file of the name's stem, and
no other file than that and the store's was written.  The project is listed unless that file is one of the
application's own.  Every identifier that stands for the file shows the record from the store, and deletes both unless
the file is one of the application's own.  The stem is such an identifier unless it ends as files do. -/
theorem exported_lifecycle (shelf : Shelf w dir) (follows : Store.Session.Follows w logs) {name : String} {analysis : Value}
    {snapshots : List Value} (run : (exportAnalysis name analysis).outcome w = (.ok snapshots, w')) :
    ∃ record, made w.now (w.disk.document (dir.entry (project name ++ ".json"))).toOption analysis =
        .ok (record, snapshots) ∧
      w'.disk.document (dir.entry (project name ++ ".json")) = .ok record ∧
      (∀ way, way ≠ dir.parts ++ [project name ++ ".json"] → way ≠ w.context.storeFile.parts →
        w'.disk.root.leaf? way = w.disk.root.leaf? way) ∧
      (∃ ns, names.outcome w' = (.ok ns, w') ∧
        (project name ∈ ns ↔ isInternal (project name ++ ".json") = false)) ∧
      (∀ r, fileOf (r.text "id") = project name ++ ".json" →
        (view r).outcome w' = (.ok (.object [("project_name", .text (project name)), ("source", .text "database"),
          ("analysis", record)]), w') ∧
        (chosenPlace r = none → ((delete r).outcome w').1 = .ok
          (if isInternal (project name ++ ".json") then keptBack (project name ++ ".json")
            else bothDeleted (project name ++ ".json")))) ∧
      (fileOf (project name) = project name ++ ".json" ↔
        endsWith (project name) ".json" = false) := by
  obtain ⟨record, s', recorded, shelf', opened, known, held, legal, frame⟩ := shelf.exported follows run
  have identifies {id : String} (file : fileOf id = project name ++ ".json") : Identifies id (project name) :=
    ⟨file, noSlash_project name, project_ne_empty name, project_ne_ending name⟩
  obtain ⟨f, found⟩ := Insight.Log.file_of_document (Or.inl ⟨_, held⟩)
  have straight := shelf'.straight.entry (isEntry_file name).notUp
  obtain ⟨there, -, -⟩ := (Disk.file_linkless shelf'.linkless straight).1 found
  refine ⟨record, recorded, held, frame, ?_, fun r file => ⟨outcome_view opened known (identifies file), fun free => ?_⟩,
    fileOf_stem_iff _⟩
  · obtain ⟨ns, listed, members⟩ := outcome_names shelf'
    refine ⟨ns, listed, (members _ _ (identifies (fileOf_file _))).trans (and_iff_left ?_)⟩
    exact ⟨dir.parts ++ [project name ++ ".json"], List.mem_cons_self, isSome_of_eq_some there⟩
  · cases internal : isInternal (project name ++ ".json") with
    | true =>
        rw [if_pos rfl, delete, file, internal]
        rfl
    | false =>
        have has : s'.has (project name ++ ".json") = true := by
          rw [Store.has_eq_isSome, ← isSome_map (f := (·.content))]
          exact isSome_of_eq_some known
        rw [outcome_delete shelf'.searchDir (by rw [file, internal]) free, file, if_neg Bool.false_ne_true]
        exact outcome_erase shelf' opened has (isEntry_file name) legal internal found

def filed (files : List (String × Node)) : Workspace :=
  { (default : Workspace) with
    disk := ⟨.dir [
      ("User_config_files", .dir [("project_insights", .dir files)]),
      ("appdb.db", .file ⟨.store .empty, default, 0⟩)], ⟨"/", []⟩, "user", 0⟩
    context := { ofHome ⟨"/", []⟩ with connection := .live } }

theorem shelf_filed : Shelf (filed []) (usualSaveDir ⟨"/", []⟩) := by
  have entries : ∀ x ∈ ["User_config_files", "project_insights", "appdb.db"], Path.IsEntry x := by decide
  refine shelf_usual (linkless_of_isLinkless ⟨_, rfl⟩ rfl) ?_ rfl
  simp [filed, Node.Named, Node.NamedEntries, entries]

/-- An analysis under a name with an unsafe mark is saved, listed, shown and deleted under its stem. -/
theorem marked_name_lifecycle :
    ∃ record snapshots w', (exportAnalysis "my:app" (.object [("a", .int 1)])).outcome (filed []) = (.ok snapshots, w') ∧
      (∃ ns, names.outcome w' = (.ok ns, w') ∧ "my_app" ∈ ns) ∧
      (view (deletionOf "my_app" .null)).outcome w' = (.ok (.object [("project_name", .text "my_app"),
        ("source", .text "database"), ("analysis", record)]), w') ∧
      ((delete (deletionOf "my_app" .null)).outcome w').1 = .ok (bothDeleted "my_app.json") := by
  have fine : ((exportAnalysis "my:app" (.object [("a", .int 1)])).outcome (filed [])).1.isOk = true := by
    decide +kernel
  obtain ⟨snapshots, w', run⟩ := ok_of_isOk fine
  have stem : project "my:app" = "my_app" := by decide +kernel
  have other : isInternal "my_app.json" = false := by decide +kernel
  obtain ⟨record, -, -, -, ⟨ns, listed, member⟩, requests, -⟩ :=
    exported_lifecycle shelf_filed (follows_empty ⟨rfl, rfl, rfl⟩) run
  rw [stem] at member requests
  obtain ⟨shown, deleted⟩ := requests (deletionOf "my_app" .null) (by decide +kernel)
  refine ⟨record, snapshots, w', run, ⟨ns, listed, member.2 other⟩, shown, ?_⟩
  rw [deleted rfl, if_neg (by decide +kernel)]
  rfl

/-- An analysis under the name of one of the application's own files is saved over that file, and its project is neither
listed nor deleted. -/
theorem own_file_overwritten :
    let own := (Context.usualSaveDir ⟨"/", []⟩).entry "dedup_index.json"
    let index : Node := .file ⟨.document .pretty (.object []), default, 0⟩
    let before := filed [("dedup_index.json", index)]
    let done := (exportAnalysis "dedup_index" (.object [("a", .int 1)])).outcome before
    done.1.isOk = true ∧
    ((before.disk.document own).toOption.bind (·.get? "a")).isSome = false ∧
    ((done.2.disk.document own).toOption.bind (·.get? "a")).isSome = true ∧
    (names.outcome done.2).1.toOption = some [] ∧
    ((delete (deletionOf "dedup_index" .null)).outcome done.2).1.toOption.map
      (fun v => ((v.getOrNull "dbstatus").textOrEmpty, (v.getOrNull "status").textOrEmpty)) =
        some ("[INFO] 'dedup_index.json' is an internal artifact. DB deletion skipped.",
          "[INFO] 'dedup_index.json' is an internal artifact and cannot be deleted.") := by
  decide +kernel

end Api.Projects

end Folio

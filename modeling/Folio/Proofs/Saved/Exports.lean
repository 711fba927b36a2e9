/-
# Proofs.Saved.Exports -- saving one analysis in the file and in the store

`Site` says where analyses are saved and that there is nothing in the way.  Saving an analysis there either
writes its record to the file of the project and to the store, or it fails before anything is written
(`keepRecord_ok`, `keepRecord_error`).
-/
import Folio.Proofs.Analysis
import Folio.Proofs.Saved.Record
import Folio.Proofs.Store.Runs

namespace Folio.Store.Session

variable {f : Fault} {w : Workspace} {s : Store}

theorem Opened.of_leaf {w' : Workspace} (opened : Opened w s) (home : w.context.home.Straight)
    (linkless : w.disk.Linkless) (linkless' : w'.disk.Linkless) (context : w'.context = w.context)
    (same : w'.disk.root.leaf? w.context.storeFile.parts = w.disk.root.leaf? w.context.storeFile.parts) :
    Opened w' s := by
  have straight : w.context.storeFile.Straight := home.entry (by decide)
  constructor
  · rw [context]
    exact opened.live
  · rw [context, Disk.absolute_straight straight]
    exact straight.rooted
  · rw [context]
    obtain ⟨f, found, held⟩ := Disk.file_of_content opened.holds
    rw [Disk.content, (Disk.file_of_leaf linkless linkless' straight same).2 found, ← held]
    rfl

theorem within_storeFile {c : Context} (home : c.home.Straight) (name : String) (content : Value) :
    (insert name content none).Within c (· = c.storeFile.parts) := by
  apply within_insert home
  rfl

end Folio.Store.Session

namespace Folio.Saved

open Action Disk Json Naming Path

open Store (Shows History)
open Store.Session (Opened bytesOf)

/-- Where the analyses of a project are saved, with nothing in the way. -/
structure Site (w : Workspace) (dir : Path) (file : String) : Prop where
  linkless : w.disk.Linkless
  home : w.context.home.Straight
  saved : w.context.saveDir = some dir
  rooted : dir.isAbsolute
  legal : ∀ x ∈ dir.parts ++ [file], Legal x
  short : (dir.parts ++ [file]).length < stepLimit
  made : ∃ d, w.disk.makeDirs ⟨"/", dir.parts⟩ = .ok d
  leaf : ¬ w.disk.root.IsDirAt (dir.parts ++ [file])

def fileIn (dir : Path) (file : String) : Path := (mk "/" dir.parts).entry file

variable {w : Workspace} {dir : Path} {stem : String} {s : Store}

theorem ends_json (stem : String) : stem ++ ".json" ≠ "appdb.db" :=
  Text.ne_of_mem 'j' (by simp) (by decide)

theorem storeFile_ne (c : Context) (dir : Path) (stem : String) : c.storeFile.parts ≠ dir.parts ++ [stem ++ ".json"] := by
  intro same
  have last : "appdb.db" = stem ++ ".json" := by
    simpa [Context.storeFile, Path.entry] using congrArg List.getLast? same
  exact ends_json stem last.symm

namespace Site

variable (site : Site w dir (stem ++ ".json"))

include site

theorem straight : dir.Straight := ⟨site.rooted, fun up => (site.legal ".." (List.mem_append_left _ up)).1 rfl⟩

theorem ready : ∃ d, w.disk.makeDirs ⟨"/", dir.parts⟩ = .ok d ∧ d.Ready ⟨"/", dir.parts⟩ (stem ++ ".json") ∧
    Frame (fun _ => False) w.disk d := by
  obtain ⟨d, made⟩ := site.made
  exact ⟨d, made, .of_makeDirs site.linkless rfl made site.leaf site.legal site.short, frame_makeDirs made⟩

end Site

theorem site_of_ready (ready : w.disk.Ready ⟨"/", dir.parts⟩ (stem ++ ".json")) (home : w.context.home.Straight)
    (saved : w.context.saveDir = some dir) (rooted : dir.isAbsolute) : Site w dir (stem ++ ".json") :=
  ⟨ready.linkless, home, saved, rooted, ready.legal, ready.short, ⟨_, ready.makeDirs⟩, ready.leaf⟩

/-! ## Keeping a record -/

/-- The record that is saved at a moment, with its snapshots. -/
def made (t : Moment) (earlier : Option Value) (analysis : Value) : Except Fault (Value × List Value) := do
  record (← Insight.stamp t) earlier analysis

section Keeping

variable {earlier : Option Value} {analysis document : Value} {snapshots : List Value} {base : Path}

theorem keepRecord_error (failed : made w.now earlier analysis = .error f) :
    (keepRecord base stem earlier analysis).outcome w = (.error f, w) := by
  unfold made at failed
  rw [keepRecord, bind_of_ok (outcome_now w), outcome_bind, outcome_lift]
  cases stamped : Insight.stamp w.now with
  | error g =>
    rw [stamped] at failed
    cases failed
    rfl
  | ok now =>
    rw [stamped] at failed
    dsimp only
    rw [outcome_bind, outcome_lift, show record now earlier analysis = .error f from failed]

section

variable (made_ : made w.now earlier analysis = .ok (document, snapshots))

include made_

theorem keepRecord_failed {w' : Workspace} (failed : (save base stem document).outcome w = (.error f, w')) :
    (keepRecord base stem earlier analysis).outcome w = (.error f, w') := by
  obtain ⟨now, stamped, made_⟩ := ok_of_bind made_
  rw [keepRecord, bind_of_ok (outcome_now w), outcome_bind, outcome_lift, stamped]
  dsimp only
  rw [outcome_bind, outcome_lift, made_]
  dsimp only
  rw [outcome_bind, failed]

theorem keepRecord_saved {w' : Workspace} (saved : (save base stem document).outcome w = (.ok (), w')) :
    ∃ w'', (keepRecord base stem earlier analysis).outcome w = (.ok snapshots, w'') ∧
      w''.disk = ((Store.Session.insert (stem ++ ".json") document none).outcome w').2.disk ∧
      w''.context = ((Store.Session.insert (stem ++ ".json") document none).outcome w').2.context := by
  obtain ⟨now, stamped, made_⟩ := ok_of_bind made_
  rw [keepRecord, bind_of_ok (outcome_now w), outcome_bind, outcome_lift, stamped]
  dsimp only
  rw [outcome_bind, outcome_lift, made_]
  dsimp only
  rw [bind_of_ok saved, outcome_bind, outcome_attempt]
  dsimp only
  split
  · exact ⟨_, rfl, rfl, rfl⟩
  · exact ⟨_, rfl, rfl, rfl⟩

theorem keepRecord_unwritable (unplain : isPlain document = false) :
    (keepRecord base stem earlier analysis).outcome w = (.error unwritable, w) := by
  refine keepRecord_failed made_ ?_
  rw [save, unplain]
  rfl

end

section

variable (name : IsName (stem ++ ".json")) (ready : w.disk.Ready ⟨"/", dir.parts⟩ (stem ++ ".json"))

include name ready

theorem save_ok (plain : isPlain document) :
    ∃ d f, (save ⟨"/", dir.parts⟩ stem document).outcome w = (.ok (), { w with disk := d }) ∧
      w.disk.Reaches (· = dir.parts ++ [stem ++ ".json"]) d ∧ d.Ready ⟨"/", dir.parts⟩ (stem ++ ".json") ∧
      d.file (fileIn dir (stem ++ ".json")) = .ok f ∧ f.content = .document .pretty document := by
  have entry : (mk "/" dir.parts).child (stem ++ ".json") = fileIn dir (stem ++ ".json") :=
    child_of_isName name _
  obtain ⟨d, written, reaches, found, ready'⟩ := ready.write (.document .pretty document) w.now
  refine ⟨d, _, ?_, reaches, ready', found, rfl⟩
  rw [save, plain, entry]
  show (makeDirs ⟨"/", dir.parts⟩ >>= fun _ => write _ _).outcome w = _
  rw [outcome_bind, outcome_makeDirs, ready.makeDirs]
  show (write (fileIn dir (stem ++ ".json")) (.document .pretty document)).outcome w = _
  rw [outcome_write, fileIn, written]

theorem keepRecord_written (home : w.context.home.Straight)
    (made_ : made w.now earlier analysis = .ok (document, snapshots)) (plain : isPlain document) :
    ∃ d w', w.disk.Reaches (· = dir.parts ++ [stem ++ ".json"]) d ∧
      (keepRecord ⟨"/", dir.parts⟩ stem earlier analysis).outcome w = (.ok snapshots, w') ∧
      w'.disk = ((Store.Session.insert (stem ++ ".json") document none).outcome { w with disk := d }).2.disk ∧
      w'.context = w.context ∧ w'.disk.Ready ⟨"/", dir.parts⟩ (stem ++ ".json") ∧
      w'.disk.document (fileIn dir (stem ++ ".json")) = .ok document := by
  obtain ⟨d, f, saved, reaches, ready', found, held⟩ := save_ok name ready plain
  have steady := Store.Session.within_storeFile home (stem ++ ".json") document { w with disk := d } reaches.linkless rfl
  obtain ⟨w', kept, disk, context⟩ := keepRecord_saved made_ saved
  obtain ⟨later, still⟩ := ready'.keeps steady.disk (Ne.symm (storeFile_ne w.context dir stem)) found
  refine ⟨d, w', reaches, kept, disk, context.trans steady.context, ?_, ?_⟩
  · rw [disk]
    exact later
  · rw [disk]
    exact document_of_file still held

theorem keepRecord_ok {h : Option History} (home : w.context.home.Straight) (opened : Opened w s)
    (shows_ : Shows s (stem ++ ".json") h) (made_ : made w.now earlier analysis = .ok (document, snapshots))
    (plain : isPlain document) :
    ∃ w' s', (keepRecord ⟨"/", dir.parts⟩ stem earlier analysis).outcome w = (.ok snapshots, w') ∧
      w'.disk.Ready ⟨"/", dir.parts⟩ (stem ++ ".json") ∧ w'.context = w.context ∧
      w'.disk.document (fileIn dir (stem ++ ".json")) = .ok document ∧ Opened w' s' ∧
      Shows s' (stem ++ ".json") (some (History.next h ⟨document, bytesOf document⟩)) := by
  obtain ⟨d, w', reaches, kept, disk, context, ready', held⟩ := keepRecord_written name ready home made_ plain
  -- The store lies elsewhere, so it is open still.
  have open_ : Opened { w with disk := d } s :=
    opened.of_leaf home ready.linkless reaches.linkless rfl (reaches.leaves _ (storeFile_ne w.context dir stem))
  obtain ⟨s', w₂, inserted, opened', shows', -⟩ := Store.Session.outcome_insert open_ shows_ plain none
  rw [inserted] at disk
  refine ⟨w', s', kept, ready', context, held, ?_, shows'⟩
  have context₂ : w₂.context = w.context := by
    have steady := Store.Session.within_storeFile home (stem ++ ".json") document { w with disk := d } reaches.linkless rfl
    rw [inserted] at steady
    exact steady.context
  exact opened'.of_leaf (by rwa [context₂]) (disk ▸ ready'.linkless) ready'.linkless (context.trans context₂.symm)
    (by rw [disk])

end

end Keeping

/-! ## One analysis -/

variable {name : String} {analysis : Value}

theorem outcome_export (site : Site w dir (project name ++ ".json")) (analysis : Value) :
    ∃ d, w.disk.makeDirs ⟨"/", dir.parts⟩ = .ok d ∧ d.Ready ⟨"/", dir.parts⟩ (project name ++ ".json") ∧
      Frame (fun _ => False) w.disk d ∧ (exportAnalysis name analysis).outcome w =
        (keepRecord ⟨"/", dir.parts⟩ (project name)
          (w.disk.document (fileIn dir (project name ++ ".json"))).toOption analysis).outcome { w with disk := d } := by
  obtain ⟨d, made_, ready, frame⟩ := site.ready
  refine ⟨d, made_, ready, frame, ?_⟩
  have entry : (mk "/" dir.parts).child (project name ++ ".json") =
      fileIn dir (project name ++ ".json") := child_of_isName (isEntry_file name).toIsName _
  have earlier : (d.document (fileIn dir (project name ++ ".json"))).toOption =
      (w.disk.document (fileIn dir (project name ++ ".json"))).toOption :=
    document_of_leaf site.linkless ready.linkless ready.straight (frame.leaves _ id)
  have directory_ : directory.outcome w = (.ok ⟨"/", dir.parts⟩, w) := by
    rw [outcome_directory site.saved, resolved_linkless site.linkless site.straight]
  have makes : (makeDirs ⟨"/", dir.parts⟩).outcome w = (.ok (), { w with disk := d }) := by
    rw [outcome_makeDirs, made_]
  have asks : (ask (·.exists? (fileIn dir (project name ++ ".json")))).outcome { w with disk := d } = _ :=
    outcome_exists ready.room
  rw [exportAnalysis, bind_of_ok directory_, bind_of_ok makes]
  dsimp only
  rw [entry, bind_of_ok asks, ← earlier]
  cases found : d.root.at? ((mk "/" dir.parts).entry (project name ++ ".json")).parts with
  | some n => rfl
  | none =>
    have nothing : (d.document (fileIn dir (project name ++ ".json"))).toOption = none :=
      document_of_none ready.linkless ready.straight found
    rw [nothing]
    rfl

/-! ## Analyses that were saved -/

variable {w' : Workspace} {snapshots : List Value}

theorem saved_of_ok {base : Path} {stem : String} {v : Value} (run : (save base stem v).outcome w = (.ok (), w')) :
    ∃ d d', w.disk.makeDirs base = .ok d ∧
      d.write (base.child (stem ++ ".json")) (.document .pretty v) w.now = .ok d' ∧ w' = { w with disk := d' } := by
  rw [save] at run
  split at run
  · cases run
  · obtain ⟨_, w₁, makes, writes⟩ := steps_of_bind run
    obtain ⟨d, made_, rfl⟩ := changed_of_ok makes
    obtain ⟨d', written, after⟩ := written_of_ok writes
    exact ⟨d, d', made_, written, after⟩

theorem site_of_export (linkless : w.disk.Linkless) (home : w.context.home.Straight)
    (saveDir : w.context.saveDir = some dir) (direct : dir.Straight) (short : dir.parts.length + 1 < stepLimit)
    (run : (exportAnalysis name analysis).outcome w = (.ok snapshots, w')) : Site w dir (project name ++ ".json") := by
  have entry := isEntry_file name
  rw [exportAnalysis, bind_of_ok (outcome_directory saveDir), resolved_linkless linkless direct] at run
  obtain ⟨_, w₁, made_, run₁⟩ := steps_of_bind run
  obtain ⟨there, w₂, asked, run₂⟩ := steps_of_bind run₁
  have same : w₂ = w₁ := (Prod.mk.inj asked).2.symm
  obtain ⟨earlier, run₃⟩ : ∃ earlier, (keepRecord ⟨"/", dir.parts⟩ (project name) earlier analysis).outcome w₁ =
      (.ok snapshots, w') := by
    rw [same] at run₂
    split at run₂
    · rw [bind_of_ok (outcome_disk w₁), bind_of_ok (outcome_pure _ _)] at run₂
      exact ⟨_, run₂⟩
    · rw [bind_of_ok (outcome_pure _ _)] at run₂
      exact ⟨_, run₂⟩
  obtain ⟨⟨document, snapshots'⟩, recorded⟩ : ∃ x, made w₁.now earlier analysis = .ok x := by
    cases recorded : made w₁.now earlier analysis with
    | ok x => exact ⟨x, rfl⟩
    | error f =>
      rw [keepRecord_error recorded] at run₃
      cases run₃
  obtain ⟨w₃, saved⟩ : ∃ w₃, (save ⟨"/", dir.parts⟩ (project name) document).outcome w₁ = (.ok (), w₃) := by
    rcases saved : (save ⟨"/", dir.parts⟩ (project name) document).outcome w₁ with ⟨f | _, w₃⟩
    · rw [keepRecord_failed recorded saved] at run₃
      cases run₃
    · exact ⟨w₃, rfl⟩
  obtain ⟨d₂, d₃, made₂, written, -⟩ := saved_of_ok saved
  rw [outcome_makeDirs] at made_
  cases made₁ : w.disk.makeDirs ⟨"/", dir.parts⟩ with
  | error f =>
    rw [made₁] at made_
    cases made_
  | ok d₁ =>
    rw [made₁] at made_
    obtain rfl : { w with disk := d₁ } = w₁ := (Prod.mk.inj made_).2
    have straight : (mk "/" dir.parts).Straight := ⟨rfl, direct.plain⟩
    rw [child_of_isName entry.toIsName] at written
    have linkless₁ := (root_makeDirs linkless straight made₁).2.1
    have linkless₂ := (root_makeDirs linkless₁ straight made₂).2.1
    have straight' := straight.entry entry.notUp
    have named : ((mk "/" dir.parts).entry (project name ++ ".json")).parts ≠ [] := by simp [Path.entry]
    obtain ⟨-, legal, -⟩ := (file_linkless (reaches_write linkless₂ straight' named written).linkless straight').1
      (file_written linkless₂ straight' named written)
    refine ⟨linkless, home, saveDir, direct.rooted, legal, by simpa using short, ⟨d₁, made₁⟩, fun isDir => ?_⟩
    have later := (frame_makeDirs made₂).dirs _ ((frame_makeDirs made₁).dirs _ isDir)
    exact (root_write linkless₂ straight' named written).2.2.1 later

theorem export_spec (site : Site w dir (project name ++ ".json"))
    (run : (exportAnalysis name analysis).outcome w = (.ok snapshots, w')) :
    ∃ d record, w.disk.makeDirs ⟨"/", dir.parts⟩ = .ok d ∧ d.Ready ⟨"/", dir.parts⟩ (project name ++ ".json") ∧
      Frame (fun _ => False) w.disk d ∧
      made w.now (w.disk.document (fileIn dir (project name ++ ".json"))).toOption analysis =
        .ok (record, snapshots) ∧ isPlain record ∧ (keepRecord ⟨"/", dir.parts⟩ (project name)
        (w.disk.document (fileIn dir (project name ++ ".json"))).toOption analysis).outcome { w with disk := d } =
          (.ok snapshots, w') := by
  obtain ⟨d, made_, ready, frame, same⟩ := outcome_export site analysis
  rw [same] at run
  cases recorded : made w.now (w.disk.document (fileIn dir (project name ++ ".json"))).toOption analysis with
  | error f =>
    rw [keepRecord_error (w := { w with disk := d }) recorded] at run
    cases run
  | ok x =>
    obtain ⟨record, snapshots'⟩ := x
    have plain : isPlain record := by
      by_contra unplain
      rw [keepRecord_unwritable (w := { w with disk := d }) recorded (by simpa using unplain)] at run
      cases run
    obtain ⟨_, _, -, kept, -⟩ := keepRecord_written (w := { w with disk := d }) (isEntry_file name).toIsName ready
      site.home recorded plain
    obtain rfl : snapshots' = snapshots := Except.ok.inj (Prod.mk.inj (kept.symm.trans run)).1
    exact ⟨d, record, made_, ready, frame, rfl, plain, run⟩

end Folio.Saved

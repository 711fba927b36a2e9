/-
# Proofs.Analysis.Keeping -- an analysis that is noted and saved a second time

An analysis notes and saves itself, under the name of its project, and gives the duplicates and the snapshots.
`runAndKeep` then notes and saves what it gave.  So the log has a second entry, without the name, and the second
document stands where the first one did (`noted_and_saved_again`).
-/
import Folio.Proofs.Dedup.Reach
import Folio.Proofs.Saved.Exports

namespace Folio

open Action Analysis Dedup Disk Fields Insight.Log List Naming Or Path Saved Value

variable {home : Path} {stamped : String}

namespace Insight.Log

variable {d d' : Disk} {base : Path} {name : String} {aims : List String → Prop}

theorem unmoved (ready : d.Ready base name) (orderly : Orderly d (base.entry name)) (reaches : d.Reaches aims d')
    (off : ∀ aim, aims aim → ¬ (base.entry name).parts <+: aim) : d'.Ready base name ∧ Orderly d' (base.entry name) ∧
      logged d' (base.entry name) = logged d (base.entry name) := by
  have leaf := reaches.leaves (base.entry name).parts fun aim => off _ aim (prefix_refl _)
  exact ⟨ready.step reaches off, orderly.of_leaf ready.linkless reaches.linkless ready.straight leaf,
    logged_of_leaf ready.linkless reaches.linkless ready.straight leaf⟩

end Insight.Log

namespace Analysis

open Insight.Log (logged Orderly)
open Saved (Shaped)

variable {root : Path} {name : String} {v : Value} {w w' : Workspace}

/-! ## The document -/

/-- What every analysis says, apart from the resume item. -/
def alwaysTold : List String := ["project_root", "hierarchy", "document_analysis", "duration_estimate", "project_type"]

/-- The document of a project: it says what every analysis says, and its resume item names the project, skills and
frameworks. -/
structure Analyzed (name : String) (v : Value) : Prop where
  told : ∀ key ∈ alwaysTold, (v.get? key).isSome
  item : ∃ fs resume skills frameworks, v = .object fs ∧ get? fs "resume_item" = some (.object resume) ∧
    get? resume "project_name" = some (.text name) ∧ get? resume "skills" = some (.texts skills) ∧
    get? resume "frameworks" = some (.texts frameworks)

theorem name_ofProject {d : Disk} {services : Services} {documents contributions : Value} (some_ : name ≠ "") :
    Gives (·.name = name) (Resume.Item.ofProject d services root (some name) documents contributions) :=
  .bind fun _ _ => .bind fun _ _ => .bind fun _ _ => gives_ok (if_neg (by simpa using some_))

theorem analyzed_of_document (some_ : name ≠ "") (run : (document root name).outcome w = (.ok v, w')) :
    Analyzed name v := by
  rw [document, bind_of_ok (outcome_get w)] at run
  obtain ⟨hierarchy, -, run⟩ := step_of_lift run
  obtain ⟨documents, -, run⟩ := step_of_lift run
  obtain ⟨item, made, run⟩ := step_of_lift run
  obtain ⟨figures, w₁, -, run⟩ := steps_of_bind run
  have named := name_ofProject some_ made
  obtain rfl := Except.ok.inj (Prod.mk.inj run).1
  refine ⟨fun key member => ?_, _, itemFields item (timeSpan hierarchy), item.skills, item.stack.frameworks, rfl, rfl,
    named ▸ rfl, rfl, rfl⟩
  simp only [alwaysTold, mem_cons, not_mem_nil, or_false] at member
  rcases member with rfl | rfl | rfl | rfl | rfl
  all_goals rfl

theorem Analyzed.shaped (analyzed : Analyzed name v) (duplicates : Value) :
    Shaped (v.set "dedup" duplicates).withTextTimes := by
  obtain ⟨fs, resume, skills, frameworks, rfl, item, -, known, known'⟩ := analyzed.item
  have level : ((object fs).set "dedup" duplicates).withTextTimes.getOrNull "resume_item" =
      (object resume).withTextTimes := by
    rw [getOrNull_withTextTimes, getOrNull_set_ne _ (by decide), getOrNull_of_get? item]
  have names {key : String} {names : List String} (there : get? resume key = some (.texts names)) :
      (object resume).withTextTimes.get? key = some (.texts names) := by
    rw [get?_withTextTimes, Value.get?, there, Option.map_some, withTextTimes_texts]
  constructor
  · exact ⟨skills, by rw [level, names known]⟩
  · exact ⟨frameworks, by rw [level, names known']⟩

theorem Analyzed.told_saved (analyzed : Analyzed name v) (duplicates : Value) {key : String} (member : key ∈ alwaysTold) :
    ((v.set "dedup" duplicates).withTextTimes.get? key).isSome := by
  have other : key ≠ "dedup" := by
    rintro rfl
    revert member
    decide
  rw [get?_withTextTimes, get?_set_ne _ other, Option.isSome_map]
  exact analyzed.told key member

/-! ## The run -/

open Context (usualFilesDir usualSaveDir)

/-- A project that is no part of the application's own files, and the place of these. -/
structure Bench (w : Workspace) (root : Path) : Prop where
  named : w.disk.root.Named IsEntry
  home : w.context.home.Straight
  rooted : w.context.home.root = "/"
  saveDir : w.context.saveDir = some (usualSaveDir w.context.home)
  short : (usualSaveDir w.context.home).parts.length + 1 < stepLimit
  straight : root.Straight
  apart : ∀ rest, ¬ root.parts <+: (usualFilesDir w.context.home).parts ++ rest
  ready : w.disk.Ready (usualFilesDir w.context.home) "project_insights.json"
  orderly : Orderly w.disk (logPlace w.context.home)

theorem logPlace_parts (home : Path) :
    (logPlace home).parts = (usualFilesDir home).parts ++ ["project_insights.json"] := rfl

theorem not_log_prefix {x : String} (other : x ≠ "project_insights.json") (rest : List String) :
    ¬ (logPlace home).parts <+: (usualFilesDir home).parts ++ x :: rest := by
  rw [logPlace_parts, prefix_append_right_inj, cons_prefix_cons]
  rintro ⟨same, -⟩
  exact other same.symm

theorem not_log_prefix_saved {aim : List String} (below : (usualSaveDir home).parts <+: aim) :
    ¬ (logPlace home).parts <+: aim := by
  obtain ⟨rest, rfl⟩ := below
  rw [usualSaveDir, entry, append_assoc]
  exact not_log_prefix (by decide) rest

theorem not_log_prefix_kept {stem : String} {aim : List String}
    (kept : Keeps home (usualSaveDir home) stem aim) : ¬ (logPlace home).parts <+: aim := by
  rcases kept with rfl | rfl | rfl
  · exact not_log_prefix_saved (prefix_refl _)
  · exact not_log_prefix_saved (prefix_append _ _)
  · simpa [logPlace, usualFilesDir, entry] using along.length_le

namespace Bench

variable {o : Outcome} {stem label : String} {remove : Bool} {w₁ w₂ w₃ : Workspace} {found : Dedup.Outcome}
  {rest aim : List String}

section Apart

variable (bench : Bench w root)

include bench

theorem linkless : w.disk.Linkless := bench.ready.linkless

theorem base : (usualFilesDir w.context.home).Straight := bench.ready.straight_base

theorem dir : (usualSaveDir w.context.home).Straight := bench.base.entry (by decide)

theorem outside (inside : root.parts <+: aim) : ¬ (usualFilesDir w.context.home).parts ++ rest <+: aim := by
  intro along
  rcases prefix_or_prefix_of_prefix inside along with above | ⟨more, below⟩
  · exact bench.apart rest above
  · rw [append_assoc] at below
    exact bench.apart (rest ++ more) ⟨[], by rw [append_nil, below]⟩

end Apart

section Stages

variable (bench : Bench w root)
  (stages : Stages root (usualSaveDir w.context.home) stem remove w o w' v label w₁ w₂ w₃ found)

include bench stages

theorem searched : Steady (fun way => way = (usualSaveDir w.context.home).parts ∨
    way = (usualSaveDir w.context.home).parts ++ ["dedup_index.json.lock"] ∨
    way = (usualSaveDir w.context.home).parts ++ ["dedup_index.json"] ∨ root.parts <+: way) w₂ w₃ := by
  obtain ⟨_, looked⟩ := stages.looked
  obtain ⟨es, node⟩ := dir_of_document looked
  have there := node_linkless bench.linkless bench.straight node
  -- Noting the analysis left the project alone.
  have same : w₂.disk.root.at? root.parts = w.disk.root.at? root.parts := by
    refine stages.noting.disk.trees _ ⟨es, there⟩ ?_
    rintro aim ⟨rest, rfl, -⟩
    exact bench.apart rest
  have node₂ := node_of_at? bench.linkless stages.noting.linkless bench.straight same node
  have inside : ∀ q ∈ w₂.disk.below root, q.Straight := by
    rw [below_of_at? bench.linkless stages.noting.linkless bench.straight node same]
    exact fun q => straight_of_mem_below bench.linkless bench.named bench.straight node
  exact steady_run stages.noting.linkless bench.dir (by decide) bench.straight node₂ ⟨es, same.trans there⟩ inside
    (fun rest => by
      have apart := bench.apart ("project_insights" :: rest)
      simpa [usualSaveDir, entry] using apart) stages.searched

theorem noted (some_ : stem ≠ "") : w₂.disk.Ready (usualFilesDir w.context.home) "project_insights.json" ∧
      Orderly w₂.disk (logPlace w.context.home) ∧
      (logged w₂.disk (logPlace w.context.home) = logged w.disk (logPlace w.context.home) ∨
        ∃ i : Insight, i.projectName = stem ∧ logged w₂.disk (logPlace w.context.home) =
          logged w.disk (logPlace w.context.home) ++ [i.toValue]) := by
  obtain ⟨ready₁, orderly₁, same₁⟩ := unmoved bench.ready bench.orderly stages.prepared.disk (by
    rintro aim rfl
    exact not_log_prefix (by decide) [])
  obtain ⟨_, w₂', -, ready₂, orderly₂, added | ⟨f, run, same₂, -⟩⟩ :=
    record_cases ready₁ orderly₁ v (noteOf v label)
  · obtain ⟨i, made, run, added⟩ := added
    obtain rfl : w₂ = w₂' := stages.noted.trans (congrArg Prod.snd run)
    obtain ⟨_, looked⟩ := stages.looked
    obtain ⟨fs, resume, -, -, rfl, item, named, -, -⟩ := (analyzed_of_document some_ looked).item
    refine ⟨ready₂, orderly₂, inr ⟨i, name_of_insightOf item named some_ made, ?_⟩⟩
    exact added.trans (congrArg (· ++ [i.toValue]) same₁)
  · obtain rfl : w₂ = w₂' := stages.noted.trans (congrArg Prod.snd run)
    exact ⟨ready₂, orderly₂, inl (same₂.trans same₁)⟩

theorem context₃ : w₃.context = w.context := (bench.searched stages).context.trans stages.noting.context

theorem now₃ : w₃.now = w.now := (bench.searched stages).now.trans stages.noting.now

theorem saving : Steady (Keeps w.context.home (usualSaveDir w.context.home) stem) w₃ w' := by
  have within : (exportAnalysis stem (v.set "dedup" found.toValue).withTextTimes).Within w.context
      (Keeps w.context.home (usualSaveDir w.context.home) stem) := by
    refine within_export bench.home bench.saveDir bench.dir (inl rfl) (inr (inl rfl)) (inr (inr rfl)) _
  exact within.steady (bench.searched stages).linkless (bench.context₃ stages) stages.exported

theorem log_after (ready : w₂.disk.Ready (usualFilesDir w.context.home) "project_insights.json")
    (orderly : Orderly w₂.disk (logPlace w.context.home)) :
    w'.disk.Ready (usualFilesDir w.context.home) "project_insights.json" ∧ Orderly w'.disk (logPlace w.context.home) ∧
      logged w'.disk (logPlace w.context.home) = logged w₂.disk (logPlace w.context.home) := by
  obtain ⟨ready₃, orderly₃, same₃⟩ := unmoved ready orderly (bench.searched stages).disk (by
    rintro aim (rfl | rfl | rfl | inside)
    · exact not_log_prefix_saved (prefix_refl _)
    · exact not_log_prefix_saved (prefix_append _ _)
    · exact not_log_prefix_saved (prefix_append _ _)
    · exact bench.outside inside)
  obtain ⟨ready₄, orderly₄, same₄⟩ := unmoved ready₃ orderly₃ (bench.saving stages).disk
    fun aim => not_log_prefix_kept
  exact ⟨ready₄, orderly₄, same₄.trans same₃⟩

theorem leaf_before {file : String} (other : file ≠ "dedup_index.json") (lock : file ≠ "dedup_index.json.lock") :
    w₃.disk.root.leaf? ((usualSaveDir w.context.home).entry file).parts =
      w.disk.root.leaf? ((usualSaveDir w.context.home).entry file).parts := by
  refine ((bench.searched stages).disk.leaves _ ?_).trans (stages.noting.disk.leaves _ ?_)
  · rintro (same | same | same | inside)
    · simp [entry] at same
    · exact lock (by simpa [entry] using same)
    · exact other (by simpa [entry] using same)
    · have along : (usualFilesDir w.context.home).parts ++ ["project_insights", file] <+:
          ((usualSaveDir w.context.home).entry file).parts := by simp [usualSaveDir, entry]
      exact bench.outside inside along
  · rintro ⟨rest, same, rfl | rfl | rfl | ⟨t, rfl⟩⟩ <;> simp [usualSaveDir, entry] at same

theorem written : ∃ record, made w.now (w₃.disk.document ((usualSaveDir w.context.home).entry
        (project stem ++ ".json"))).toOption (v.set "dedup" found.toValue).withTextTimes =
          .ok (record, o.snapshots) ∧ Json.isPlain record ∧
      w'.disk.Ready (usualSaveDir w.context.home) (project stem ++ ".json") ∧
      w'.disk.document ((usualSaveDir w.context.home).entry (project stem ++ ".json")) = .ok record := by
  have context := bench.context₃ stages
  have site : Site w₃ (usualSaveDir w.context.home) (project stem ++ ".json") :=
    site_of_export (bench.searched stages).linkless (context ▸ bench.home) (context ▸ bench.saveDir) bench.dir
      bench.short stages.exported
  have whole : (⟨"/", (usualSaveDir w.context.home).parts⟩ : Path) = usualSaveDir w.context.home := by
    rw [← bench.rooted]
    rfl
  obtain ⟨d, record, -, ready, -, made, plain, run⟩ := export_spec site stages.exported
  obtain ⟨_, w₄, -, kept, -, -, ready', held⟩ := keepRecord_written (w := { w₃ with disk := d })
    (isEntry_file stem).toIsName ready site.home made plain
  obtain rfl : w₄ = w' := (Prod.mk.inj (kept.symm.trans run)).2
  rw [fileIn, whole] at made held
  rw [whole] at ready'
  exact ⟨record, bench.now₃ stages ▸ made, plain, ready', held⟩

theorem recorded (some_ : stem ≠ "") (other : project stem ++ ".json" ≠ "dedup_index.json") (before : Earlier
      (w.disk.document ((usualSaveDir w.context.home).entry (project stem ++ ".json"))).toOption) :
    ∃ saved, Chronicle saved ∧ (∀ key ∈ alwaysTold, (saved.get? key).isSome) ∧
      w'.disk.Ready (usualSaveDir w.context.home) (project stem ++ ".json") ∧
      w'.disk.document ((usualSaveDir w.context.home).entry (project stem ++ ".json")) = .ok saved := by
  obtain ⟨_, looked⟩ := stages.looked
  have analyzed := analyzed_of_document some_ looked
  have lock : project stem ++ ".json" ≠ "dedup_index.json.lock" := by
    intro same
    simpa using congrArg (fun s : String => s.toList.getLast?) same
  obtain ⟨record, made, plain, ready, held⟩ := bench.written stages
  rw [document_of_leaf bench.linkless (bench.searched stages).linkless
    (bench.dir.entry (isEntry_file stem).notUp) (bench.leaf_before stages other lock)] at made
  obtain ⟨now, -, recorded⟩ := ok_of_bind made
  obtain ⟨record', recorded', extends_⟩ := record_shaped now before (analyzed.shaped found.toValue)
  obtain ⟨rfl, -⟩ : record' = record ∧ _ := by simpa using recorded'.symm.trans recorded
  refine ⟨record', extends_.chronicle plain, fun key member => ?_, ready, held⟩
  have apart : key ≠ "resume_item" ∧ key ≠ "snapshots" := by
    constructor <;> rintro rfl <;> revert member <;> decide
  rw [extends_.others key apart.1 apart.2]
  exact analyzed.told_saved found.toValue member

end Stages

end Bench

/-! ## What is left behind -/

def recordPlace (home : Path) (name : String) : Path := (usualSaveDir home).entry (project name ++ ".json")

theorem recordPlace_ne_log (home : Path) (name : String) : (recordPlace home name).parts ≠ (logPlace home).parts := by
  intro same
  have below : (usualSaveDir home).parts <+: (recordPlace home name).parts := prefix_append _ _
  rw [same] at below
  exact not_log_prefix_saved below (prefix_refl _)

/-- What an analysis leaves behind: its entry in the log, if it could be noted, and its record. -/
structure Left (w : Workspace) (root : Path) (o : Outcome) (w' : Workspace) (saved : Value) : Prop where
  context : w'.context = w.context
  stamped : ∃ label, Insight.stamp w'.now = .ok label
  ready : w'.disk.Ready (usualFilesDir w.context.home) "project_insights.json"
  orderly : Orderly w'.disk (logPlace w.context.home)
  noted : logged w'.disk (logPlace w.context.home) = logged w.disk (logPlace w.context.home) ∨
    ∃ i : Insight, i.projectName = project root.name ∧
      logged w'.disk (logPlace w.context.home) = logged w.disk (logPlace w.context.home) ++ [i.toValue]
  place : w'.disk.Ready (usualSaveDir w.context.home) (project (project root.name) ++ ".json")
  held : w'.disk.document (recordPlace w.context.home (project root.name)) = .ok saved
  chronicle : Chronicle saved
  told : ∀ key ∈ alwaysTold, (saved.get? key).isSome
  plain : Json.isPlain o.duplicates

variable {o : Outcome}

theorem Bench.left {remove : Bool} (bench : Bench w root) (other : project (project root.name) ≠ "dedup_index")
    (before : Earlier (w.disk.document (recordPlace w.context.home (project root.name))).toOption)
    (run : (run root none remove).outcome w = (.ok o, w')) : ∃ saved, Left w root o w' saved := by
  obtain ⟨v, label, w₁, w₂, w₃, found, stages⟩ := stages_of_run bench.linkless bench.home bench.saveDir run
  have some_ : project root.name ≠ "" := project_ne_empty _
  have file : project (project root.name) ++ ".json" ≠ "dedup_index.json" :=
    fun same => other ((String.append_left_inj _).1 same)
  obtain ⟨ready₂, orderly₂, noted⟩ := bench.noted stages some_
  obtain ⟨ready, orderly, same⟩ := bench.log_after stages ready₂ orderly₂
  obtain ⟨saved, chronicle, told, place, held⟩ := bench.recorded stages some_ file before
  have saving := bench.saving stages
  refine ⟨saved, saving.context.trans (bench.context₃ stages), ⟨label, ?_⟩, ready, orderly, ?_, place, held, chronicle, told,
    ?_⟩
  · rw [saving.now, bench.now₃ stages]
    exact stages.stamped
  · rw [same]
    exact noted
  · rw [stages.told]
    exact plain_of_run stages.searched

/-! ## Keeping what the run gave -/

/-- What remains of a record: the duplicates, the snapshots and the names of skills and frameworks. -/
def Remains (o : Outcome) (saved kept : Value) : Prop :=
  ∃ snapshots skills frameworks, kept = bare o.duplicates snapshots skills frameworks ∧
    (∀ v, v ∈ textItems skills ↔ v ∈ namesAt saved "skills") ∧
    ∀ v, v ∈ textItems frameworks ↔ v ∈ namesAt saved "frameworks"

/-- What an analysis gives says nothing about its project, so it is noted without a name. -/
theorem noted_again (time : Insight.stamp w.now = .ok stamped)
    (ready : w.disk.Ready (usualFilesDir home) "project_insights.json") (orderly : Orderly w.disk (logPlace home)) :
    ∃ (i : Insight) (w' : Workspace), i.projectName = "unknown" ∧
      (record (logPlace home) o.toValue {}).outcome w = (.ok i, w') ∧ Steady (· = (logPlace home).parts) w w' ∧
      w'.disk.Ready (usualFilesDir home) "project_insights.json" ∧ Orderly w'.disk (logPlace home) ∧
      logged w'.disk (logPlace home) = logged w.disk (logPlace home) ++ [i.toValue] := by
  obtain ⟨id, w', steady, ready', orderly', cases_⟩ :=
    record_cases ready orderly o.toValue {}
  obtain ⟨i', made', unnamed, plain⟩ : ∃ i, insightOf w.now id o.toValue {} = .ok i ∧
      i.projectName = "unknown" ∧ Json.isPlain i.toValue := insightOf_bare time rfl rfl rfl rfl
  rcases cases_ with ⟨i, made, run, added⟩ | ⟨f, -, -, refused⟩
  · obtain rfl : i = i' := Except.ok.inj (made.symm.trans made')
    exact ⟨i, w', unnamed, run, steady, ready', orderly', added⟩
  · rw [refused i' made'] at plain
    cases plain

theorem saved_again {dir : Path} {name stem : String} {saved : Value} (same : project name = stem)
    (home : w.context.home.Straight) (saveDir : w.context.saveDir = some dir)
    (rooted : dir.root = "/") (time : Insight.stamp w.now = .ok stamped)
    (plain : Json.isPlain o.duplicates) (chronicle : Chronicle saved)
    (ready : w.disk.Ready dir (stem ++ ".json")) (held : w.disk.document (dir.entry (stem ++ ".json")) = .ok saved) :
    ∃ snapshots w' kept, (exportAnalysis name o.toValue).outcome w = (.ok snapshots, w') ∧
      w'.disk.document (dir.entry (stem ++ ".json")) = .ok kept ∧ Remains o saved kept := by
  have whole : (⟨"/", dir.parts⟩ : Path) = dir := by rw [← rooted]
  have site : Site w dir (project name ++ ".json") := by
    rw [same]
    exact site_of_ready (whole ▸ ready) home saveDir ready.straight_base.rooted
  obtain ⟨d, made_, ready', frame, run⟩ := outcome_export site o.toValue
  obtain ⟨snapshots, skills, frameworks, recorded, plain', knows, knows'⟩ :=
    record_bare stamped chronicle plain o.snapshots
  rw [same, fileIn, whole, held] at run
  have recorded' : made w.now (some saved) o.toValue =
      .ok (bare o.duplicates snapshots skills frameworks, snapshots) := by
    rw [made, time]
    exact recorded
  rw [same] at ready'
  obtain ⟨_, w', -, done, -, -, -, held'⟩ := keepRecord_written (w := { w with disk := d })
    (same ▸ (isEntry_file name).toIsName) ready' home recorded' plain'
  rw [whole] at done
  rw [fileIn, whole] at held'
  exact ⟨snapshots, w', _, run.trans done, held', snapshots, skills, frameworks, rfl, knows, knows'⟩

theorem outcome_runAndKeep (folder : Text.lower root.suffix ≠ ".zip")
    (run : (run root none true).outcome w = (.ok o, w')) : (runAndKeep root).outcome w = (do
      discard (record (logPlace w'.context.home) o.toValue {})
      discard (exportAnalysis root.name o.toValue) : Action Unit).outcome w' := by
  have log_ : log.outcome w' = (.ok (logPlace w'.context.home), w') := rfl
  have itself : (Text.lower root.suffix == ".zip") = false := by simpa using folder
  rw [runAndKeep, itself, if_neg Bool.false_ne_true, bind_of_ok (outcome_pure root w), bind_of_ok run, bind_of_ok log_]

/-- Whatever folder is analyzed and kept, once its analysis succeeds: the log has the entry of the analysis, if that
could be noted, and then one without a name.  What the analysis saved has all that an analysis always says, and of this
only the duplicates, the snapshots and the names of skills and frameworks remain.  The record stays as it is just where
the name of its file changes when it is made safe twice, since the second document has another file then. -/
theorem noted_and_saved_again {o : Outcome} {w₁ : Workspace} (bench : Bench w root)
    (folder : Text.lower root.suffix ≠ ".zip")
    (other : project (project root.name) ≠ "dedup_index")
    (before : Saved.Earlier (w.disk.document (recordPlace w.context.home (project root.name))).toOption)
    (run : (run root none true).outcome w = (.ok o, w₁)) :
    ∃ r w' saved kept, (runAndKeep root).outcome w = (r, w') ∧
      (logged w₁.disk (logPlace w.context.home) = logged w.disk (logPlace w.context.home) ∨
        ∃ i : Insight, i.projectName = project root.name ∧
          logged w₁.disk (logPlace w.context.home) = logged w.disk (logPlace w.context.home) ++ [i.toValue]) ∧
      (∃ i : Insight, i.projectName = "unknown" ∧
        logged w'.disk (logPlace w.context.home) = logged w₁.disk (logPlace w.context.home) ++ [i.toValue]) ∧
      w₁.disk.document (recordPlace w.context.home (project root.name)) = .ok saved ∧
      (∀ key ∈ alwaysTold, (saved.get? key).isSome = true) ∧
      w'.disk.document (recordPlace w.context.home (project root.name)) = .ok kept ∧
      if project (project root.name) = project root.name then r = .ok () ∧ Remains o saved kept
        else kept = saved := by
  obtain ⟨saved, left⟩ := bench.left other before run
  obtain ⟨label, time⟩ := left.stamped
  obtain ⟨i, w₂, unnamed, noted, steady, ready, orderly, added⟩ := noted_again (o := o) time left.ready left.orderly
  have context : w₂.context = w.context := steady.context.trans left.context
  -- The second note does not touch the record.
  have straight := left.place.straight
  have held := Disk.document_ok_of_leaf left.ready.linkless steady.linkless straight
    (steady.disk.leaves _ (recordPlace_ne_log _ _)) left.held
  have within : (exportAnalysis root.name o.toValue).Within w.context
      (Keeps w.context.home (usualSaveDir w.context.home) root.name) :=
    within_export bench.home bench.saveDir bench.dir (inl rfl) (inr (inl rfl)) (inr (inr rfl)) _
  have saving := within w₂ steady.linkless context
  obtain ⟨-, -, same⟩ := unmoved ready orderly saving.disk fun aim => not_log_prefix_kept
  have discarded : (discard (record (logPlace w.context.home) o.toValue {}) : Action Unit).outcome w₁ =
      (.ok (), w₂) := by
    rw [outcome_discard, noted]
    rfl
  rw [outcome_runAndKeep folder run, left.context, bind_of_ok discarded, outcome_discard]
  by_cases idempotent : project (project root.name) = project root.name
  · have place : w₂.disk.Ready (usualSaveDir w.context.home) (project (project root.name) ++ ".json") := by
      refine left.place.step steady.disk ?_
      rintro aim rfl along
      simpa [logPlace, usualSaveDir, Path.entry] using along.length_le
    have rooted : (usualSaveDir w.context.home).root = "/" := bench.rooted
    obtain ⟨snapshots, w', kept, saved_, held', remains⟩ := saved_again idempotent.symm (context ▸ bench.home)
      (by rw [context]; exact bench.saveDir) rooted (steady.now ▸ time) left.plain left.chronicle place held
    rw [saved_] at same
    rw [saved_]
    refine ⟨_, w', saved, kept, rfl, left.noted, ⟨i, unnamed, same.trans added⟩, left.held, left.told, held', ?_⟩
    rw [if_pos idempotent]
    exact ⟨rfl, remains⟩
  · have beside : ¬ Keeps w.context.home (usualSaveDir w.context.home) root.name
        (recordPlace w.context.home (project root.name)).parts := by
      rintro (above | own | store)
      · simp [recordPlace, Path.entry] at above
      · exact idempotent (by simpa [recordPlace, Path.entry] using own)
      · exact storeFile_ne w.context _ _ store.symm
    have held' := Disk.document_ok_of_leaf steady.linkless saving.linkless straight (saving.disk.leaves _ beside) held
    refine ⟨_, _, saved, saved, rfl, left.noted, ⟨i, unnamed, same.trans added⟩, left.held, left.told, held', ?_⟩
    rw [if_neg idempotent]

def oneFolder (name : String) : Workspace :=
  { (default : Workspace) with
    disk := ⟨.dir [
      ("User_config_files", .dir []),
      (name, .dir [("a.txt", .file ⟨.text "x", default, 0⟩)])], ⟨"/", []⟩, "user", 0⟩
    context := Context.ofHome ⟨"/", []⟩ }

theorem bench_oneFolder : Bench (oneFolder "proj") ⟨"/", ["proj"]⟩ where
  named := by
    have entries : ∀ x ∈ ["User_config_files", "proj", "a.txt"], IsEntry x := by decide
    simp [oneFolder, Node.Named, Node.NamedEntries, entries]
  home := ⟨rfl, by decide⟩
  rooted := rfl
  saveDir := rfl
  short := by decide
  straight := ⟨rfl, by decide⟩
  apart rest := by
    rintro ⟨more, same⟩
    revert same
    simp [usualFilesDir, entry, oneFolder, Context.ofHome]
  ready := ⟨linkless_of_isLinkless ⟨_, rfl⟩ rfl, rfl, ⟨_, rfl⟩, (fun ⟨_, found⟩ => nomatch found), by decide,
    by decide⟩
  orderly := ⟨inl rfl, rfl⟩

/-- The record of a folder loses what the analysis said of it, and the log has an entry without its name. -/
theorem folder_saved_again :
    ∃ o w₁ w' saved kept, (run ⟨"/", ["proj"]⟩ none true).outcome (oneFolder "proj") = (.ok o, w₁) ∧
      (runAndKeep ⟨"/", ["proj"]⟩).outcome (oneFolder "proj") = (.ok (), w') ∧
      (∃ i : Insight, i.projectName = "unknown" ∧
        logged w'.disk (logPlace ⟨"/", []⟩) = logged w₁.disk (logPlace ⟨"/", []⟩) ++ [i.toValue]) ∧
      (saved.get? "hierarchy").isSome = true ∧
      w'.disk.document (recordPlace ⟨"/", []⟩ "proj") = .ok kept ∧ Remains o saved kept := by
  have fine : ((run ⟨"/", ["proj"]⟩ none true).outcome (oneFolder "proj")).1.isOk = true := by decide +kernel
  obtain ⟨o, w₁, run⟩ := ok_of_isOk fine
  have stem : project "proj" = "proj" := by decide +kernel
  have before : Saved.Earlier ((oneFolder "proj").disk.document (recordPlace ⟨"/", []⟩ (project "proj"))).toOption := by
    rw [stem]
    rintro v ⟨⟩
  obtain ⟨r, w', saved, kept, done, -, second, -, told, held, remains⟩ := noted_and_saved_again bench_oneFolder
    (by decide +kernel) (by decide +kernel) before run
  rw [if_pos (by decide +kernel)] at remains
  rw [remains.1] at done
  refine ⟨o, w₁, w', saved, kept, run, done, second, told _ (by decide), ?_, remains.2⟩
  rw [← stem]
  exact held

/-- One folder is noted twice, once without its name, and nothing that an analysis always says is in its record. -/
theorem folder_noted_twice :
    let done := (runAndKeep ⟨"/", ["proj"]⟩).outcome (oneFolder "proj")
    let record := done.2.disk.document (recordPlace ⟨"/", []⟩ "proj")
    done.1.isOk = true ∧
    (logged done.2.disk (logPlace ⟨"/", []⟩)).map (fun e => (e.getOrNull "project_name").textOrEmpty) =
      ["proj", "unknown"] ∧
    (record.toOption.map fun v => alwaysTold.filter fun key => (v.get? key).isSome) = some [] := by
  decide +kernel

end Analysis

end Folio

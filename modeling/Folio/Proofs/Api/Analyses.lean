/-
# Proofs.Api.Analyses -- the same archive once more, and the names of an analyzed project

Duplicates are told by the names of directories, and every upload is unpacked into a directory with a name of its own.
So an archive that is uploaded and analyzed twice counts as two projects: the second analysis finds all of its files to
be duplicates.

A name is made safe on its way to the answer, once more before the project is noted, and a third time when its record
is saved.  The three agree exactly when the first has no blank at an end (`names_agree_iff_unblank`).
-/
import Folio.Proofs.Analysis.Keeping
import Folio.Proofs.Api.Analyzing
import Folio.Proofs.Dedup.Hashing

namespace Folio.Api

open Analyses Archive Context Dedup Disk Projects Value

open Analyses (Sited indexOf)

variable {o : Dedup.Outcome}

/-! ## What an upload leaves alone -/

theorem Projects.Uploaded.reads {f : SentFile} {mark : String} {w w' : Workspace} {dir : Path}
    (uploaded : Uploaded f mark w w') (sited : Sited w.context.home w.temp dir) (linkless : w.disk.Linkless) :
    w'.disk.Linkless ∧ w'.disk.root.leaf? (indexOf dir).parts = w.disk.root.leaf? (indexOf dir).parts ∧
      ∃ g, w'.disk.file (keptFile w.temp f mark) = .ok g ∧ g.content = f.content := by
  obtain ⟨d, made, written⟩ := uploaded.written
  have straight := straight_keptFile sited.straightTemp f mark
  have named : (keptFile w.temp f mark).parts ≠ [] := by simp [keptFile, Path.entry]
  have reaches₁ := reaches_makeDirs linkless (sited.straightTemp.entry (by decide)) made
  have reaches₂ := reaches_write reaches₁.linkless straight named written
  refine ⟨reaches₂.linkless, ?_, _, file_written reaches₁.linkless straight named written, rfl⟩
  rw [reaches₂.leaves, reaches₁.leaves]
  · simp [indexOf, Path.entry]
  · intro same
    have parts : dir.parts ++ ["dedup_index.json"] = (w.temp.entry "devdoc_uploads").parts ++ [keptName f mark] := same
    exact sited.uploadsApart (List.append_inj_left' parts (by simp))

/-! ## Twice -/

/-- What an answer tells about the files of the project: how many are new, how many are duplicates and how many
of those were deleted. -/
def tally (answer : Value) : List Value :=
  ["unique_files", "duplicate_files", "removed"].map ((answer.getOrNull "dedup").getOrNull ·)

theorem tally_eq {answer : Value} (dedup : answer.get? "dedup" = some o.toValue) :
    tally answer = [.nat o.unique, .nat o.duplicates.length, .nat o.removed] := by
  have found : answer.getOrNull "dedup" = o.toValue := by simp [getOrNull, dedup]
  rw [tally, found]
  rfl

/-- How many files of an archive can be read when it is unpacked below a directory for temporary files. -/
def fileCount (temp : Path) (a : Archive) : Nat :=
  (readable (temp.parts.length + 2) (tree a)).length

theorem reanalysis_reports_all {w w₁ w₂ w₃ w₄ : Workspace} {dir : Path} {r q₁ q₂ : Request} {t₁ t₂ t₃ : Moment}
    {a₁ b₁ a₂ b₂ : Value} (sited : Sited w.context.home w.temp dir) (linkless : w.disk.Linkless)
    (saved : w.context.saveDir = some dir) (absent : ∀ f, w.disk.file (indexOf dir) ≠ .ok f)
    (upload₁ : (upload r).outcome w = (.ok a₁, w₁))
    (run₁ : (run q₁).outcome { w₁ with now := t₁ } = (.ok b₁, w₂))
    (upload₂ : (upload r).outcome { w₂ with now := t₂ } = (.ok a₂, w₃))
    (run₂ : (run q₂).outcome { w₃ with now := t₃ } = (.ok b₂, w₄))
    (apart : a₁.get? "stored_path" ≠ a₂.get? "stored_path")
    (own : ∀ n, b₁.get? "project_name" = some (.text n) →
      Naming.project (Naming.project n) ≠ "dedup_index") :
    ∃ a, ofContent? (r.file.getD default).content = some a ∧
      tally b₁ = [.nat (fileCount w.temp a), .nat 0, .nat 0] ∧
      tally b₂ = [.nat 0, .nat (fileCount w.temp a),
        .nat (if q₂.flag "remove_duplicates" true then fileCount w.temp a else 0)] := by
  obtain ⟨mark₁, up₁, stored₁⟩ := uploaded upload₁
  obtain ⟨linkless₁, leaf₁, g₁, file₁, content₁⟩ := up₁.reads sited linkless
  have sited₁ : Sited w₁.context.home w₁.temp dir := by
    rw [up₁.context, up₁.temp]
    exact sited
  obtain ⟨a, root₁, n₁, d₁, i₁, name₁, archive₁, bare₁, first⟩ :=
    analyzed (w := { w₁ with now := t₁ }) sited₁ linkless₁ (by rw [up₁.context]; exact saved)
      (by rw [up₁.context]) file₁ run₁
  -- The first scan starts from nothing and notes everything.
  obtain rfl : i₁ = .empty := by
    rcases load_eq_ok first.loaded with empty | ⟨f, found, -⟩
    · exact empty
    · refine absurd ?_ (absent f)
      exact (Disk.file_of_leaf linkless first.rooted.linkless (straight_indexOf sited.straightSaves)
        (first.index.trans leaf₁)).1 found
  have noted := noted_scan first.rooted (q₁.flag "remove_duplicates" true)
  obtain ⟨linkless₂, context₂, temp₂, g, index₂, content⟩ := first.kept noted.disk (own name₁ first.named)
  obtain ⟨mark₂, up₂, stored₂⟩ := uploaded upload₂
  have sited₂ : Sited w₂.context.home w₂.temp dir := by
    rw [context₂, temp₂]
    exact sited₁
  obtain ⟨linkless₃, leaf₃, g₂, file₂, content₂⟩ :=
    up₂.reads (w := { w₂ with now := t₂ }) sited₂ linkless₂
  have sited₃ : Sited w₃.context.home w₃.temp dir := by
    rw [up₂.context, up₂.temp]
    exact sited₂
  obtain ⟨a', root₂, n₂, d₂, i₂, name₂, archive₂, bare₂, second⟩ :=
    analyzed (w := { w₃ with now := t₃ }) sited₃ linkless₃
      (by rw [up₂.context]; exact (congrArg saveDir (context₂.trans up₁.context)).trans saved)
      (by rw [up₂.context]) file₂ run₂
  rw [content₁] at archive₁
  rw [content₂] at archive₂
  obtain rfl : a = a' := Option.some.inj (archive₁.symm.trans archive₂)
  -- The second scan starts from what the first one noted.
  obtain rfl : i₂ = .ofValue (scan d₁ .empty (q₁.flag "remove_duplicates" true) root₁).index.toValue := by
    have found : d₂.file (indexOf dir) = .ok g :=
      (Disk.file_of_leaf linkless₂ second.rooted.linkless (straight_indexOf sited.straightSaves)
        (second.index.trans leaf₃)).2 index₂
    have loaded := second.loaded
    rw [load_of_file found, content] at loaded
    exact (Except.ok.inj loaded).symm
  -- Both directories are fresh, and their names are those of the files that the uploads are kept in.
  have temp₂ : w₂.temp = w.temp := temp₂.trans up₁.temp
  have temp₃ : w₃.temp = w.temp := up₂.temp.trans temp₂
  obtain ⟨k₁, place₁⟩ := first.place
  obtain ⟨k₂, place₂⟩ := second.place
  dsimp only at place₁ place₂ stored₂
  rw [up₁.temp] at place₁
  rw [temp₃, temp₂] at place₂
  rw [temp₂] at stored₂
  have files : keptFile w.temp (r.file.getD default) mark₁ ≠
      keptFile w.temp (r.file.getD default) mark₂ := by
    intro same
    exact apart (by rw [stored₁, stored₂, same])
  have names : root₁.name ≠ root₂.name := by
    have other := directories_apart up₁.isMark up₂.isMark files (k₁ + 1) (k₂ + 1)
    rw [place₁, place₂]
    simpa [Path.name, Path.entry] using other
  have level₁ : root₁.parts.length = w.temp.parts.length + 2 := by
    simp [place₁, unpackDir, Path.entry]
  have level₂ : root₂.parts.length = root₁.parts.length := by
    simp [place₁, place₂, unpackDir, Path.entry]
  have reported := copy_reported first.rooted second.rooted (bare₂.trans bare₁.symm) level₂ names
    (q₁.flag "remove_duplicates" true) (q₂.flag "remove_duplicates" true)
  have count : (readable root₁.parts.length n₁).length = fileCount w.temp a := by
    rw [fileCount, ← bare₁, level₁, readable_bare, List.length_map]
  rw [count] at reported
  refine ⟨a, archive₁, ?_, ?_⟩
  · obtain ⟨o, dedup, unique, duplicates⟩ := first.found
    rw [tally_eq dedup, Dedup.Outcome.removed, unique, duplicates, noted.unique, first.rooted.length_visited, noted.duplicates,
      count]
    simp
  · obtain ⟨o, dedup, unique, duplicates⟩ := second.found
    have removed := removed_eq (o := o) (duplicates ▸ reported.removed)
    rw [tally_eq dedup, removed, duplicates, reported.length, unique, reported.unique]

/-! ## An archive on an empty disk -/

def blank : Workspace :=
  { (default : Workspace) with
    disk := ⟨.empty, ⟨"/", []⟩, "user", 0⟩
    temp := ⟨"/", ["t"]⟩
    context := ofHome ⟨"/", ["h"]⟩ }

def appOf (names : List String) : Archive :=
  ⟨names.map fun name => ⟨name, Bytes.ofText "x", default, false⟩, false⟩

def sendApp (names : List String) : Request :=
  { args := .object [], file := some ⟨some "app.zip", .archive (appOf names)⟩ }

def analyzeApp : Request := { args := .object [("project_name", .text "app")] }

def uploadedOnce (names : List String) : Except Fault Value × Workspace := (upload (sendApp names)).outcome blank

def analyzedOnce (names : List String) : Except Fault Value × Workspace :=
  (run analyzeApp).outcome (uploadedOnce names).2

def uploadedTwice (names : List String) : Except Fault Value × Workspace :=
  (upload (sendApp names)).outcome (analyzedOnce names).2

def analyzedTwice (names : List String) : Except Fault Value × Workspace :=
  (run analyzeApp).outcome (uploadedTwice names).2

def answerOf (step : Except Fault Value × Workspace) : Value := step.1.toOption.getD .null

theorem answered {step : Except Fault Value × Workspace} (ok : step.1.isOk) : step = (.ok (answerOf step), step.2) := by
  obtain ⟨r, w⟩ := step
  cases r with
  | ok v => rfl
  | error f => cases ok

theorem linkless_blank : blank.disk.Linkless := linkless_of_isLinkless ⟨[], rfl⟩ rfl

theorem sited_blank : Sited blank.context.home blank.temp (usualSaveDir blank.context.home) where
  straightHome := ⟨rfl, by decide⟩
  straightTemp := ⟨rfl, by decide⟩
  straightSaves := ⟨rfl, by decide⟩
  names := by decide
  homeApart := by decide
  savesApart := by decide
  uploadsApart := by decide

def appNames : List String := ["a.txt"]

theorem app_answers : (uploadedOnce appNames).1.isOk ∧ (analyzedOnce appNames).1.isOk ∧
      (uploadedTwice appNames).1.isOk ∧ (analyzedTwice appNames).1.isOk ∧
      ((answerOf (analyzedOnce appNames)).get? "project_name").bind text? = some "app" ∧
      ((answerOf (uploadedOnce appNames)).get? "stored_path").bind text? ≠
        ((answerOf (uploadedTwice appNames)).get? "stored_path").bind text? ∧
      (tally (answerOf (analyzedTwice appNames))).map (Json.render .line) = ["0", "1", "1"] := by
  decide +kernel

theorem app_reported_twice :
    tally (answerOf (analyzedOnce appNames)) = [.nat 1, .nat 0, .nat 0] ∧
      tally (answerOf (analyzedTwice appNames)) = [.nat 0, .nat 1, .nat 1] := by
  obtain ⟨sent, analyzed, again, twice, named, apart, -⟩ := app_answers
  unfold analyzedTwice uploadedTwice analyzedOnce uploadedOnce at *
  generalize step₁ : (upload (sendApp appNames)).outcome blank = s₁ at *
  generalize step₂ : (run analyzeApp).outcome s₁.2 = s₂ at *
  generalize step₃ : (upload (sendApp appNames)).outcome s₂.2 = s₃ at *
  generalize step₄ : (run analyzeApp).outcome s₃.2 = s₄ at *
  have absent (f : File) : blank.disk.file (indexOf (usualSaveDir blank.context.home)) ≠ .ok f := by
    intro found
    have none_ : (blank.disk.file (indexOf (usualSaveDir blank.context.home))).isOk = false := by decide
    rw [found] at none_
    cases none_
  have own (n : String) (name : (answerOf s₂).get? "project_name" = some (.text n)) :
      Naming.project (Naming.project n) ≠ "dedup_index" := by
    rw [name] at named
    obtain rfl : n = "app" := by simpa [Value.text?] using named
    decide +kernel
  obtain ⟨a, archive, first, second⟩ := reanalysis_reports_all sited_blank linkless_blank rfl absent
    (step₁.trans (answered sent)) (step₂.trans (answered analyzed)) (step₃.trans (answered again))
    (step₄.trans (answered twice)) (fun same => apart (by rw [same])) own
  obtain rfl : appOf appNames = a := Option.some.inj archive
  have count : fileCount blank.temp (appOf appNames) = 1 := by decide +kernel
  rw [count] at first second
  exact ⟨first, second⟩

/-- One file, analyzed again under the same name, is a duplicate of itself and is deleted. -/
theorem analyzed_again_deleted :
    (analyzedTwice appNames).1.isOk = true ∧
      (tally (answerOf (analyzedTwice appNames))).map (Json.render .line) = ["0", "1", "1"] := by
  obtain ⟨-, -, -, twice, -, -, counts⟩ := app_answers
  exact ⟨twice, counts⟩

end Folio.Api

namespace Folio

open Action

namespace Saved

variable {earlier : Option Value} {analysis : Value}

theorem snapshots_record {now : String} (object : analysis.isObject) :
    Gives (fun r => r.1.get? "snapshots" = some (.list r.2)) (record now earlier analysis) := by
  unfold record
  split
  · iterate 6 refine .bind fun _ _ => ?_
    exact gives_ok (Value.get?_set_self (by simpa using object) _ _)
  · exact .bind fun _ _ => gives_ok (Value.get?_set_self object _ _)

end Saved

namespace Naming

/-- Once a name is safe for good, it stays so however often it is made safe. -/
theorem project_thrice_iff (name : String) :
    project (project name) = project name ∧ project (project (project name)) = project name ↔
      Unblank (project name) := by
  rw [← project_project_iff]
  constructor
  · exact And.left
  · intro same
    exact ⟨same, by rw [same, same]⟩

end Naming

namespace Api.Analyses

open Analysis (Bench logPlace)
open Context (usualSaveDir)
open Insight.Log (logged)
open Naming (project Unblank)

variable {w w₁ w' : Workspace} {r : Request} {root : Path} {answer : Value}

theorem named_of_analyze (bench : Bench w root) (run : (analyze r root).outcome w = (.ok answer, w')) :
    let name := askedName r w root
    w'.disk.Linkless ∧ answer.get? "project_name" = some (.text (project name)) ∧
      (logged w'.disk (logPlace w.context.home) = logged w.disk (logPlace w.context.home) ∨
        ∃ i : Insight, i.projectName = project (project name) ∧
          logged w'.disk (logPlace w.context.home) = logged w.disk (logPlace w.context.home) ++ [i.toValue]) ∧
      ∃ saved, saved.get? "snapshots" = answer.get? "snapshots" ∧
        w'.disk.document ((usualSaveDir w.context.home).entry (project (project (project name)) ++ ".json")) =
          .ok saved := by
  intro name
  obtain ⟨o, inner, -, snapshots, named⟩ := steps_of_analyze run
  obtain ⟨v, label, w₁, w₂, w₃, found, stages⟩ := Analysis.stages_of_run bench.linkless bench.home bench.saveDir inner
  have own : Analysis.nameFor root (some (project name)) = project name :=
    if_neg (by simpa using Naming.project_ne_empty name)
  rw [own] at stages
  have some_ := Naming.project_ne_empty (project name)
  obtain ⟨ready₂, orderly₂, noted⟩ := bench.noted stages some_
  obtain ⟨ready, -, same⟩ := bench.log_after stages ready₂ orderly₂
  obtain ⟨record, made, -, -, held⟩ := bench.written stages
  obtain ⟨_, looked⟩ := stages.looked
  obtain ⟨fs, _, _, _, rfl, -⟩ := (Analysis.analyzed_of_document some_ looked).item
  obtain ⟨now, -, recorded⟩ := ok_of_bind made
  refine ⟨ready.linkless, named, ?_, record, ?_, held⟩
  · rw [same]
    exact noted
  · rw [snapshots, Saved.snapshots_record rfl recorded]

/-- Every name is made safe once and for all exactly when its safe name has no blank at an end.  Whatever is uploaded,
once its analysis succeeds: the answer has the safe name of what was asked for, the entry in
the log, if the analysis could be noted, the safe name of that, and the file with the snapshots of the answer the safe
name of this again.  The three are one name exactly when the first has no blank at an end, and a name has one only if
it came with a blank that is neither a space nor a control character. -/
theorem names_agree_iff_unblank {u : Upload} {unpacked : Bool} (upload : w.context.upload = some u)
    (placed : (directory u).outcome w = (.ok (root, unpacked), w₁)) (bench : Bench w₁ root)
    (run : (Analyses.run r).outcome w = (.ok answer, w')) :
    (∀ name, project (project name) = project name ↔ Unblank (project name)) ∧
    ∃ name, name = askedName r w₁ root ∧ answer.get? "project_name" = some (.text (project name)) ∧
      (logged w'.disk (logPlace w₁.context.home) = logged w₁.disk (logPlace w₁.context.home) ∨
        ∃ i : Insight, i.projectName = project (project name) ∧
          logged w'.disk (logPlace w₁.context.home) = logged w₁.disk (logPlace w₁.context.home) ++ [i.toValue]) ∧
      (∃ saved, saved.get? "snapshots" = answer.get? "snapshots" ∧
        w'.disk.document ((usualSaveDir w₁.context.home).entry (project (project (project name)) ++ ".json")) =
          .ok saved) ∧
      (project (project name) = project name ∧ project (project (project name)) = project name ↔
        Unblank (project name)) ∧
      ((∀ c ∈ name.toList, Text.isBlank c = true → c = ' ' ∨ c.toNat < 32) → Unblank (project name)) := by
  obtain ⟨root', unpacked', w₁', w₂, placed', analyzed, rfl⟩ := steps_of_upload upload run
  obtain ⟨same, rfl⟩ := Prod.mk.inj (placed.symm.trans placed')
  obtain ⟨rfl, rfl⟩ := Prod.mk.inj (Except.ok.inj same)
  obtain ⟨linkless, named, noted, saved, told, held⟩ := named_of_analyze bench analyzed
  refine ⟨Naming.project_project_iff, _, rfl, named, ?_, ⟨saved, told, ?_⟩, Naming.project_thrice_iff _, Naming.unblank_of_plain⟩
  · cases unpacked with
    | false => exact noted
    | true =>
      obtain ⟨linkless', leaves⟩ := Disk.removeTree_linkless linkless bench.straight
      have log : logged (w₂.disk.removeTree root) (logPlace w₁.context.home) = logged w₂.disk (logPlace w₁.context.home) :=
        Insight.Log.logged_of_leaf linkless linkless' bench.ready.straight (leaves _ (bench.apart _))
      rw [if_pos rfl, log]
      exact noted
  · cases unpacked with
    | false => exact held
    | true =>
      obtain ⟨linkless', leaves⟩ := Disk.removeTree_linkless linkless bench.straight
      refine Disk.document_ok_of_leaf linkless linkless' (bench.dir.entry (Naming.isEntry_file _).notUp) (leaves _ ?_) held
      simpa [usualSaveDir, Path.entry] using
        bench.apart ["project_insights", project (project (project (askedName r w₁ root))) ++ ".json"]

def uploadedFolder : Workspace :=
  let w := Analysis.oneFolder "proj"
  { w with context := { w.context with upload := some (.place ⟨"/", ["proj"]⟩) } }

def asking (name : String) : Request := { args := .object [("project_name", .text name)] }

theorem bench_uploadedFolder : Bench uploadedFolder ⟨"/", ["proj"]⟩ :=
  { Analysis.bench_oneFolder with }

/-- A low line before a no-break space: the folder is answered under a name that begins with the space, and noted and
saved without it. -/
theorem folder_named_twice :
    ∃ answer w', (Analyses.run (asking "_\u00a0a")).outcome uploadedFolder = (.ok answer, w') ∧
      answer.get? "project_name" = some (.text "\u00a0a") ∧ ¬ Unblank "\u00a0a" ∧
      ∃ saved, w'.disk.document ((usualSaveDir ⟨"/", []⟩).entry "a.json") = .ok saved := by
  have fine : ((Analyses.run (asking "_\u00a0a")).outcome uploadedFolder).1.isOk = true := by decide +kernel
  obtain ⟨answer, w', run⟩ := Action.ok_of_isOk fine
  obtain ⟨-, name, rfl, named, -, ⟨saved, -, held⟩, -⟩ :=
    names_agree_iff_unblank rfl (by rfl) bench_uploadedFolder run
  have once : project (askedName (asking "_\u00a0a") uploadedFolder ⟨"/", ["proj"]⟩) = "\u00a0a" := by decide +kernel
  have twice : project (project "\u00a0a") = "a" := by decide +kernel
  rw [once] at named held
  rw [twice] at held
  exact ⟨answer, w', run, named, by decide, saved, held⟩

/-- The answer, the log and the file of one analysis have three different names. -/
theorem folder_with_three_names :
    let done := (Analyses.run (asking ".\u00a0.\u00a0a")).outcome uploadedFolder
    done.1.toOption.map (fun answer => (answer.getOrNull "project_name").textOrEmpty) = some "\u00a0.\u00a0a" ∧
    (logged done.2.disk (logPlace ⟨"/", []⟩)).map (fun e => (e.getOrNull "project_name").textOrEmpty) = ["\u00a0a"] ∧
    (done.2.disk.document ((usualSaveDir ⟨"/", []⟩).entry "a.json")).isOk = true := by
  decide +kernel

end Api.Analyses

end Folio

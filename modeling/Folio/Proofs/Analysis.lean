/-
# Proofs.Analysis -- what an analysis changes

Around the search for duplicates an analysis reads the project, notes it in the log and saves what it found.  None of
this reaches into the project or touches the index of known files.
-/
import Folio.Analysis
import Folio.Proofs.Insight.Log

namespace Folio

open Action Context Insight.Log Naming Or Path

variable {dir : Path} {remove : Bool} {c : Context} {aims : List String → Prop} {p : Path} {w w' : Workspace}

/-! ## The log -/

theorem Trouble.cause_ne_malformed (t : Trouble) (s : String) : (t.fault s).cause ≠ .malformed := by
  intro same
  cases t <;> cases same

namespace Insight.Log

theorem mem_asideName (now : Moment) (name : String) : 'T' ∈ (asideName now name).toList := by simp [asideName]

theorem notUp_asideName (now : Moment) (name : String) : asideName now name ≠ ".." :=
  Text.ne_of_mem 'T' (mem_asideName now name) (by decide)

theorem file_of_document {d : Disk} (read : (∃ v, d.document p = .ok v) ∨
    ∃ f, d.document p = .error f ∧ f.cause = .malformed) : ∃ f, d.file p = .ok f := by
  cases found : d.file p with
  | ok f => exact ⟨f, rfl⟩
  | error e =>
    have failed : d.document p = .error e := by simp [Disk.document, Disk.content, found, bind, Except.bind]
    rcases read with ⟨v, read⟩ | ⟨f, read, cause⟩
    · rw [failed] at read
      cases read
    · obtain rfl : e = f := by simpa [failed] using read
      obtain ⟨t, rfl⟩ := Disk.trouble_of_file found
      exact absurd cause (Trouble.cause_ne_malformed _ _)

theorem exists?_of_document {d : Disk} {v : Value} (read : d.document p = .ok v) : d.exists? p = .ok true := by
  obtain ⟨f, found⟩ := file_of_document (inl ⟨v, read⟩)
  unfold Disk.exists? Disk.ask
  cases node : d.node p with
  | ok n => rfl
  | error t => simp [Disk.file, node] at found

/-- Reading a log gives its entries or fails, and leaves everything as it is.  Otherwise the log holds none and is put
aside. -/
def Reads (p : Path) (w : Workspace) (read : Action (List Value)) : Prop :=
  (∃ r, read.outcome w = (r, w) ∧ (r = .ok (logged w.disk p) ∨ logged w.disk p = [] ∧ ∃ f, r = .error f)) ∨
    ∃ f d, w.disk.file p = .ok f ∧ logged w.disk p = [] ∧
      w.disk.rename p (p.withName (asideName w.now p.name)) = .ok d ∧
      read.outcome w = (.ok [], { w with disk := d })

theorem entries_cases (p : Path) (w : Workspace) : Reads p w (entries p) := by
  have nothing (none_ : ∀ v, w.disk.document p ≠ .ok v) : logged w.disk p = [] := by
    unfold logged
    cases read : w.disk.document p with
    | ok v => exact absurd read (none_ v)
    | error f => rfl
  have unread {there : Except Fault Bool} (asked : w.disk.exists? p = there) (ne : there ≠ .ok true) :
      logged w.disk p = [] := nothing fun _ read => ne (asked.symm.trans (exists?_of_document read))
  have put {f : File} (found : w.disk.file p = .ok f) (empty : logged w.disk p = []) :
      Reads p w (do putAside p; return []) := by
    rw [Reads, putAside, outcome_bind, bind_of_ok (outcome_now w), bind_of_ok (outcome_disk w)]
    cases renamed : w.disk.rename p (p.withName (asideName w.now p.name)) with
    | error f => exact inl ⟨_, rfl, inl (by rw [empty])⟩
    | ok d => exact inr ⟨f, d, found, empty, rfl, rfl⟩
  rw [Reads, entries, outcome_bind, outcome_ask]
  cases asked : w.disk.exists? p with
  | error f => exact inl ⟨_, rfl, inr ⟨unread asked (by simp), f, rfl⟩⟩
  | ok there =>
    cases there with
    | false => exact inl ⟨_, rfl, inl (by rw [unread asked (by simp)])⟩
    | true =>
      have goesOn : ¬ (!true) := by decide
      dsimp only
      rw [if_neg goesOn, bind_of_ok (outcome_disk w)]
      cases read : w.disk.document p with
      | ok v =>
        obtain ⟨f, found⟩ := file_of_document (inl ⟨v, read⟩)
        cases v with
        | list es => exact inl ⟨_, rfl, inl (by rw [logged_of_document read])⟩
        | _ => exact put found (by rw [logged, read]; rfl)
      | error e =>
        have empty : logged w.disk p = [] := nothing fun v done => by
          rw [read] at done
          cases done
        dsimp only [entriesOf]
        split
        · rename_i cause
          obtain ⟨f, found⟩ := file_of_document (inr ⟨e, read, eq_of_beq cause⟩)
          exact put found empty
        · split
          · exact inl ⟨_, rfl, inl (by rw [empty])⟩
          · exact inl ⟨_, rfl, inr ⟨empty, _, rfl⟩⟩

theorem within_entries (straight : p.Straight) (aim : aims p.parts)
    (aside : ∀ t, aims (p.withName (asideName t p.name)).parts) : (entries p).Within c aims := by
  intro w linkless _
  rcases entries_cases p w with ⟨r, read, -⟩ | ⟨f, d, found, -, renamed, read⟩ <;> rw [read]
  · exact .refl linkless
  · have reaches := Disk.reaches_rename linkless straight (notUp_asideName _ _) found renamed
    refine ⟨reaches.mono ?_, rfl, rfl, rfl⟩
    rintro way (rfl | rfl)
    · exact aim
    · exact aside _

theorem within_record (straight : p.Straight) (named : p.parts ≠ []) (aim : aims p.parts)
    (above : aims p.parent.parts) (aside : ∀ t, aims (p.withName (asideName t p.name)).parts) (analysis : Value)
    (note : Note) : (record p analysis note).Within c aims := by
  have identified : note.identifier.Within c aims := by
    unfold Note.identifier
    split
    · split
      · exact .freshId
      · exact .pure _
    · exact .freshId
  rw [record, recordAfter_eq]
  exact .bind (.lift _) fun _ => .bind identified fun _ => .bind .now fun _ => .bind (.lift _) fun _ =>
    .bind (within_entries straight aim aside) fun _ => .bind (.store straight named aim above _ _) fun _ => .pure _

end Insight.Log

/-! ## Overrides -/

theorem Portfolio.Overrides.within_load (home : c.home.Straight)
    (aim : aims ((usualFilesDir c.home).entry "portfolio_overrides").parts) (project : String) :
    (load project).Within c aims := by
  have straight : ((usualFilesDir c.home).entry "portfolio_overrides").Straight :=
    (home.entry (by decide)).entry (by decide)
  refine .bind (.get fun w context => ?_) fun file => .bind (.ask _) fun there => ?_
  · subst context
    exact .bind (.makeDirs straight aim) fun _ => .pure _
  · split
    · exact .pure _
    · refine .bind .disk fun d => ?_
      split
      · exact .pure _
      · exact .throw _

/-! ## The store -/

namespace Store.Session

theorem within_connection : connection.Within c aims := .get fun _ _ => .pure _

theorem within_work {α : Type} (without : Except Fault α) {step : Store → Action α}
    (each : ∀ s, (step s).Within c aims) : (work without step).Within c aims := by
  refine .bind within_connection fun link => ?_
  split
  · exact .lift _
  · exact .throw _
  · refine .bind (.bind .disk fun d => .get fun w _ => ?_) each
    split
    · exact .pure _
    · exact .throw _

theorem within_insert (home : c.home.Straight) (aim : aims c.storeFile.parts) (name : String) (content : Value)
    (blob : Option Bytes) : (insert name content blob).Within c aims := by
  have straight : c.storeFile.Straight := home.entry (by decide)
  have kept (s : Store) : (keep s).Within c aims := .get fun w context => by
    subst context
    exact .write straight (by simp [storeFile, Path.entry]) aim _
  refine .bind within_connection fun link => ?_
  split
  · exact .bind (.throw _) fun _ => within_work _ fun s => .bind (.bind .now fun _ => .pure _) fun _ =>
      .bind (.lift _) fun _ => .bind (kept _) fun _ => .pure _
  · exact within_work _ fun s => .bind (.bind .now fun _ => .pure _) fun _ =>
      .bind (.lift _) fun _ => .bind (kept _) fun _ => .pure _

end Store.Session

/-! ## Saving -/

namespace Naming

theorem isEntry_file (name : String) : IsEntry (project name ++ ".json") :=
  isEntry_append (safe_project name) (project_ne_empty name) (by decide)

end Naming

namespace Saved

theorem outcome_directory (saved : w.context.saveDir = some dir) :
    directory.outcome w = (.ok (w.disk.resolved dir), w) := by
  have required : required w.context.saveDir = .ok dir := by rw [saved]; rfl
  rw [directory, bind_of_ok (outcome_get w), required]
  rfl

theorem within_export {name : String} (home : c.home.Straight) (saved : c.saveDir = some dir)
    (straight : dir.Straight) (above : aims dir.parts) (own : aims (dir.parts ++ [project name ++ ".json"]))
    (store : aims c.storeFile.parts) (analysis : Value) : (exportAnalysis name analysis).Within c aims := by
  have entry := isEntry_file name
  have place : (mk "/" dir.parts).child (project name ++ ".json") =
      (mk "/" dir.parts).entry (project name ++ ".json") := child_of_isName entry.toIsName _
  have straight' : (mk "/" dir.parts).Straight := ⟨rfl, straight.plain⟩
  have kept (v : Value) : (save ⟨"/", dir.parts⟩ (project name) v).Within c aims := by
    have written : (makeDirs ⟨"/", dir.parts⟩ >>= fun _ => write
        ((mk "/" dir.parts).child (project name ++ ".json")) (.document .pretty v)).Within c aims := by
      rw [place]
      exact .bind (.makeDirs straight' above) fun _ =>
        .write (straight'.entry entry.notUp) (by simp [Path.entry]) own _
    unfold save
    split
    · exact .bind (.throw _) fun _ => written
    · exact written
  have record (earlier : Option Value) :
      (keepRecord ⟨"/", dir.parts⟩ (project name) earlier analysis).Within c aims := by
    refine .bind .now fun _ => .bind (.lift _) fun _ => .bind (.lift _) fun _ => .bind (kept _) fun _ =>
      .bind (.attempt (Store.Session.within_insert home store _ _ _)) fun known => ?_
    split
    · exact .bind (.print _) fun _ => .pure _
    · exact .pure _
  refine .bind_ok (.get fun w context => ?_) fun w x w' linkless context run => ?_
  · exact .bind (.lift _) fun _ => .bind .disk fun _ => .pure _
  · obtain rfl : x = ⟨"/", dir.parts⟩ := by
      rw [outcome_directory (context ▸ saved), Disk.resolved_linkless linkless straight] at run
      exact (Except.ok.inj (Prod.mk.inj run).1).symm
    refine .bind (.makeDirs straight' above) fun _ => .bind (.ask _) fun there => ?_
    split
    · exact .bind .disk fun _ => .bind (.pure _) record
    · exact .bind (.pure _) record

end Saved

/-! ## The analysis -/

namespace Analysis

variable {root : Path} {name : String} {v : Value}

theorem within_document (root : Path) (name : String) : (document root name).Within c aims := by
  have figures (languages : List String) : (codeFigures root languages).Within c aims := by
    unfold codeFigures
    split
    · exact .pure _
    · exact .get fun w _ => .bind (.lift _) fun found => .bind (.loop (fun _ => .print _) _) fun _ => .pure _
  exact .get fun w _ => .bind (.lift _) fun _ => .bind (.lift _) fun _ => .bind (.lift _) fun _ =>
    .bind (figures _) fun _ => .pure _

theorem dir_of_document (run : (document root name).outcome w = (.ok v, w')) :
    ∃ es, w.disk.node root = .ok (.dir es) := by
  rw [document, bind_of_ok (outcome_get w)] at run
  obtain ⟨hierarchy, listed, -⟩ := step_of_lift run
  unfold Hierarchy.ofDirectory Disk.exists? Disk.isDir? Disk.ask at listed
  cases found : w.disk.node root with
  | error t => cases means : t.meansNo <;> simp [found, means, bind, Except.bind] at listed
  | ok n =>
    cases n with
    | dir es => exact ⟨es, rfl⟩
    | file f | link t => simp [found, Node.isDir, bind, Except.bind] at listed

variable {o : Outcome}

theorem dir_of_run {name : Option String}
    (run : (run root name remove).outcome w = (.ok o, w')) : ∃ es, w.disk.node root = .ok (.dir es) := by
  obtain ⟨_, _, first, -⟩ := steps_of_bind run
  exact dir_of_document first

def Notes (home : Path) (way : List String) : Prop :=
  ∃ rest, way = (usualFilesDir home).parts ++ rest ∧
    (rest = [] ∨ rest = ["portfolio_overrides"] ∨ rest = ["project_insights.json"] ∨
      ∃ t, rest = [asideName t "project_insights.json"])

def Keeps (home dir : Path) (name : String) (way : List String) : Prop :=
  way = dir.parts ∨ way = (dir.entry (project name ++ ".json")).parts ∨ way = (home.entry "appdb.db").parts

def overridesPlace (home : Path) : List String := (usualFilesDir home).parts ++ ["portfolio_overrides"]

def logPlace (home : Path) : Path := (usualFilesDir home).entry "project_insights.json"

def noteOf (v : Value) (label : String) : Insight.Log.Note :=
  { contributors := v.getOrNull "contributors", label := .text label }

/-- An analysis that succeeds looks at the project (`v`), notes it if it can, takes the duplicates out and saves what it
found. -/
structure Stages (root dir : Path) (stem : String) (remove : Bool) (w : Workspace) (o : Outcome) (w' : Workspace)
    (v : Value) (label : String) (w₁ w₂ w₃ : Workspace) (found : Dedup.Outcome) : Prop where
  looked : ∃ w₀, (document root stem).outcome w = (.ok v, w₀)
  stamped : Insight.stamp w.now = .ok label
  prepared : Steady (· = overridesPlace w.context.home) w w₁
  noted : w₂ = ((record (logPlace w.context.home) v (noteOf v label)).outcome w₁).2
  noting : Steady (Notes w.context.home) w w₂
  searched : (Dedup.run root (dir.entry "dedup_index.json") remove false).outcome w₂ = (.ok found, w₃)
  exported : (Saved.exportAnalysis stem (v.set "dedup" found.toValue).withTextTimes).outcome w₃ = (.ok o.snapshots, w')
  told : o.duplicates = found.toValue

def nameFor (root : Path) (given : Option String) : String :=
  match given with
  | some s => if s == "" then root.name else s
  | none => root.name

section

variable (linkless : w.disk.Linkless) (home : w.context.home.Straight) (saved : w.context.saveDir = some dir)

include linkless home saved

theorem stages_of_run {given : Option String}
    (run : (run root given remove).outcome w = (.ok o, w')) : ∃ v label w₁ w₂ w₃ found,
      Stages root dir (project (nameFor root given)) remove w o w' v label w₁ w₂ w₃ found := by
  obtain ⟨c, context⟩ : ∃ c, w.context = c := ⟨_, rfl⟩
  have file : (usualFilesDir c.home).Straight := (context ▸ home).entry (by decide)
  have log : (logPlace c.home).Straight := file.entry (by decide)
  obtain ⟨v, w₁, first, run⟩ := steps_of_bind run
  have steady₁ : Steady (· = overridesPlace c.home) w w₁ := (within_document root _).steady linkless context first
  obtain ⟨overrides, w₂, second, run⟩ := steps_of_bind run
  have loads (stem : String) : (Portfolio.Overrides.load stem).Within c (· = overridesPlace c.home) := by
    refine Portfolio.Overrides.within_load (context ▸ home) ?_ stem
    rfl
  have steady₂ := steady₁.trans ((loads _).steady steady₁.linkless (steady₁.context.trans context) second)
  obtain ⟨_, w₃, showcase, run⟩ := steps_of_bind run
  have steady₃ := steady₂.trans ((Within.discard (.lift _)).steady steady₂.linkless
    (steady₂.context.trans context) showcase)
  rw [bind_of_ok (outcome_now _)] at run
  obtain ⟨label, stamp, run⟩ := step_of_lift run
  have context₃ := steady₃.context.trans context
  have logged : Analysis.log.outcome w₃ = (.ok (logPlace c.home), w₃) := by
    rw [← context₃]
    rfl
  rw [bind_of_ok logged] at run
  obtain ⟨_, w₅, recorded, run⟩ := steps_of_bind run
  have noted : w₅ = ((record (logPlace c.home) v (noteOf v label)).outcome w₃).2 := by
    exact (Prod.mk.inj recorded).2.symm
  have noting : (record (logPlace c.home) v (noteOf v label)).Within c (Notes c.home) := by
    refine within_record log (by simp [logPlace, Path.entry]) ⟨_, rfl, by simp⟩ ⟨[], ?_, by simp⟩
      (fun t => ⟨[asideName t "project_insights.json"], ?_, inr (inr (inr ⟨t, rfl⟩))⟩) _ _
    · simp [logPlace, parent, Path.entry]
    · simp [logPlace, withName, Path.entry, name]
  have before : Steady (Notes c.home) w w₃ := by
    refine steady₃.mono ?_
    rintro way rfl
    exact ⟨_, rfl, inr (inl rfl)⟩
  have steady₅ : Steady (Notes c.home) w w₅ := by
    rw [noted]
    exact before.trans (noting w₃ before.linkless context₃)
  have indexed : indexFile.outcome w₅ = (.ok (dir.entry "dedup_index.json"), w₅) := by
    have required : required w₅.context.saveDir = .ok dir := by
      rw [steady₅.context, saved]
      rfl
    rw [indexFile, bind_of_ok (outcome_get w₅), required]
    rfl
  rw [bind_of_ok indexed] at run
  obtain ⟨found, w₆, searched, run⟩ := steps_of_bind run
  obtain ⟨snapshots, w₇, exported, run⟩ := steps_of_bind run
  obtain ⟨rfl, rfl⟩ : _ = o ∧ w₇ = w' := by simpa using run
  refine ⟨v, label, w₃, w₅, w₆, found, ⟨w₁, first⟩, ?_, context ▸ steady₃, context ▸ noted, context ▸ steady₅, searched,
    exported, rfl⟩
  rw [← steady₃.now]
  exact stamp

theorem steps_of_run (some_ : name ≠ "") (run : (run root (some name) remove).outcome w = (.ok o, w')) :
    ∃ w₁ w₂ found analysis snapshots, Steady (Notes w.context.home) w w₁ ∧
      (Dedup.run root (dir.entry "dedup_index.json") remove false).outcome w₁ = (.ok found, w₂) ∧
      (Saved.exportAnalysis (project name) analysis).outcome w₂ = (.ok snapshots, w') ∧
      o.duplicates = found.toValue := by
  obtain ⟨v, label, w₁, w₂, w₃, found, stages⟩ := stages_of_run linkless home saved run
  have own : nameFor root (some name) = name := if_neg (by simpa using some_)
  rw [own] at stages
  exact ⟨w₂, w₃, found, _, o.snapshots, stages.noting, stages.searched, stages.exported, stages.told⟩

end

end Analysis

end Folio

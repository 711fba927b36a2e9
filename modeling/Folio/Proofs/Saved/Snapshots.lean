/-
# Proofs.Saved.Snapshots -- analyses that are saved one after the other

Each analysis of a project reads what the earlier ones left in the file of the project, and writes to the file and to
the store.  In between the file and the store have the same document, the record of all analyses that were saved
(`Books`). One analysis carries it on (`Books.saves`), or it fails and leaves everything as it was (`Books.fails`).
-/
import Folio.Proofs.Saved.Exports

namespace Folio.Store.History

variable {w' : Workspace}

theorem newest_next (h : Option History) (p : Payload) : (next h p).newest = p := by
  cases h with
  | none => rfl
  | some h => exact h.newest_write p

theorem count_next (h : Option History) (p : Payload) : count (some (next h p)) = count h + 1 := by
  cases h with
  | none => rfl
  | some h => exact h.length_write p

end Folio.Store.History

namespace Folio.Saved

open Insight Json Naming Option List

open Store (Shows History)
open Store.Session (Opened freshStore opened_freshStore)

/-- An analysis that is saved at a moment under a project's name. -/
structure Export where
  time : Moment
  name : String
  analysis : Value

def Export.run (e : Export) (w : Workspace) : Except Fault (List Value) × Workspace :=
  (exportAnalysis e.name e.analysis).outcome { w with now := e.time }

def after : List Export → Workspace → Workspace
  | [], w => w
  | e :: es, w => after es (e.run w).2

def kept : List Export → Workspace → List Export
  | [], _ => []
  | e :: es, w => if (e.run w).1.isOk then e :: kept es (e.run w).2 else kept es (e.run w).2

def saved (w : Workspace) (dir : Path) (stem : String) : Option Value :=
  (w.disk.document (fileIn dir (stem ++ ".json"))).toOption

/-! ## The invariant -/

/-- File and store have the record of the same analyses. -/
structure Books (w : Workspace) (dir : Path) (stem : String) (s : Store) (es : List Export) : Prop where
  site : Site w dir (stem ++ ".json")
  opened : Opened w s
  shown : ∃ h, Shows s (stem ++ ".json") h ∧ h.map (·.newest.content) = saved w dir stem ∧ History.count h = es.length
  earlier : Earlier (saved w dir stem)
  count : (snapshotsIn ((saved w dir stem).getD .null)).length = es.length
  skills : ∀ v, v ∈ namesAt ((saved w dir stem).getD .null) "skills" ↔ ∃ e ∈ es, v ∈ namesAt e.analysis "skills"
  frameworks : ∀ v,
    v ∈ namesAt ((saved w dir stem).getD .null) "frameworks" ↔ ∃ e ∈ es, v ∈ namesAt e.analysis "frameworks"

variable {w : Workspace} {dir : Path} {stem : String} {s : Store} {es : List Export} {e : Export}

theorem books_nil (site : Site w dir (stem ++ ".json")) (opened : Opened w s)
    (fresh : Shows s (stem ++ ".json") none) (nothing : saved w dir stem = none) : Books w dir stem s [] := by
  refine ⟨site, opened, ⟨none, fresh, ?_, rfl⟩, ?_, ?_, ?_, ?_⟩ <;> rw [nothing]
  · rfl
  · nofun
  · rfl
  · exact fun v => iff_of_false (by simp) (by simp)
  · exact fun v => iff_of_false (by simp) (by simp)

namespace Books

theorem of_frame (books : Books w dir stem s es) (ready : w'.disk.Ready ⟨"/", dir.parts⟩ (stem ++ ".json"))
    (frame : Disk.Frame (fun _ => False) w.disk w'.disk) (context : w'.context = w.context) :
    saved w' dir stem = saved w dir stem ∧ Books w' dir stem s es := by
  obtain ⟨site, opened, shown, earlier, count, skills, frameworks⟩ := books
  have same : saved w' dir stem = saved w dir stem :=
    Disk.document_of_leaf site.linkless ready.linkless ready.straight (frame.leaves _ id)
  rw [← same] at shown earlier count skills frameworks
  refine ⟨same, ?_, ?_, shown, earlier, count, skills, frameworks⟩
  · exact site_of_ready ready (by rw [context]; exact site.home) (by rw [context]; exact site.saved) site.rooted
  · exact opened.of_leaf site.home site.linkless ready.linkless context (frame.leaves _ id)

theorem at_time (books : Books w dir stem s es) (t : Moment) : Books { w with now := t } dir stem s es := by
  obtain ⟨site, opened, shown, earlier, count, skills, frameworks⟩ := books
  exact ⟨⟨site.linkless, site.home, site.saved, site.rooted, site.legal, site.short, site.made, site.leaf⟩,
    ⟨opened.live, opened.rooted, opened.holds⟩, shown, earlier, count, skills, frameworks⟩

section

variable (books : Books w dir stem s es) (named : project e.name = stem)

include books named

theorem outcome_run :
    ∃ w₁, w₁.disk.Ready ⟨"/", dir.parts⟩ (stem ++ ".json") ∧ w₁.now = e.time ∧ saved w₁ dir stem = saved w dir stem ∧
      Books w₁ dir stem s es ∧
      e.run w = (keepRecord ⟨"/", dir.parts⟩ stem (saved w dir stem) e.analysis).outcome w₁ := by
  subst named
  have now := books.at_time e.time
  obtain ⟨d, -, ready, frame, same⟩ := outcome_export now.site e.analysis
  obtain ⟨w₁, is⟩ : ∃ w₁ : Workspace, w₁ = { w with now := e.time, disk := d } := ⟨_, rfl⟩
  rw [← is] at same
  have disk : w₁.disk = d := by rw [is]
  rw [← disk] at ready frame
  obtain ⟨still, books₁⟩ := now.of_frame ready frame (by rw [is])
  exact ⟨w₁, ready, by rw [is], still, books₁, same⟩

theorem fails {f : Fault} (run : e.run w = (.error f, w')) :
    saved w' dir stem = saved w dir stem ∧ Books w' dir stem s es := by
  obtain ⟨w₁, ready, now, still, books₁, same⟩ := books.outcome_run named
  rw [same] at run
  cases record_ : made w₁.now (saved w dir stem) e.analysis with
  | error g =>
    rw [keepRecord_error record_] at run
    cases run
    exact ⟨still, books₁⟩
  | ok pair =>
    obtain ⟨document, snapshots⟩ := pair
    cases plain : isPlain document with
    | false =>
      rw [keepRecord_unwritable record_ plain] at run
      cases run
      exact ⟨still, books₁⟩
    | true =>
      obtain ⟨h, shows_, -, -⟩ := books₁.shown
      obtain ⟨_, _, fine, -⟩ := keepRecord_ok (named ▸ (isEntry_file e.name).toIsName) ready books₁.site.home
        books₁.opened shows_ record_ plain
      rw [fine] at run
      cases run

variable (shaped : Shaped e.analysis)

include shaped

theorem saves {now : String} (stamped : stamp e.time = .ok now) (plain : isPlain (e.analysis.set "snapshots" .null)) :
    ∃ document w' s', e.run w = (.ok (snapshotsIn document), w') ∧ saved w' dir stem = some document ∧
      Extends now (saved w dir stem) e.analysis document ∧ Books w' dir stem s' (es ++ [e]) := by
  obtain ⟨w₁, ready, time, still, books₁, same⟩ := books.outcome_run named
  obtain ⟨document, recorded, extends_⟩ := record_shaped now books.earlier shaped
  have record_ : made w₁.now (saved w dir stem) e.analysis = .ok (document, snapshotsIn document) := by
    rw [made, time, stamped]
    exact recorded
  have plain_ : isPlain document := extends_.plain.trans plain
  obtain ⟨h, shows_, content, count⟩ := books₁.shown
  obtain ⟨w', s', run, ready', context, held, opened', shows'⟩ := keepRecord_ok
    (named ▸ (isEntry_file e.name).toIsName) ready books₁.site.home books₁.opened shows_ record_ plain_
  have written : saved w' dir stem = some document := by
    rw [saved, held]
    rfl
  refine ⟨document, w', s', same.trans run, written, extends_, ?_, opened', ?_, ?_, ?_, ?_, ?_⟩
  · exact site_of_ready ready' (by rw [context]; exact books₁.site.home) (by rw [context]; exact books₁.site.saved)
      books₁.site.rooted
  · refine ⟨_, shows', ?_, ?_⟩
    · rw [written, map_some, History.newest_next]
    · rw [History.count_next, count, length_append, length_singleton]
  · rw [written]
    intro v same
    cases same
    exact extends_.chronicle plain_
  · rw [written, getD_some, snapshotsIn_of_get? extends_.snapshots, length_append, books.count,
      length_append, length_singleton, length_singleton]
  · intro v
    rw [written, getD_some, extends_.skills, books.skills]
    simp
  · intro v
    rw [written, getD_some, extends_.frameworks, books.frameworks]
    simp

theorem isOk_run_iff : (e.run w).1.isOk ↔ (stamp e.time).isOk ∧ isPlain (e.analysis.set "snapshots" .null) := by
  obtain ⟨w₁, ready, time, still, books₁, same⟩ := books.outcome_run named
  cases stamped : stamp e.time with
  | error f =>
    have record_ : made w₁.now (saved w dir stem) e.analysis = .error f := by
      rw [made, time, stamped]
      rfl
    rw [same, keepRecord_error record_]
    exact iff_of_false Bool.false_ne_true fun both => Bool.false_ne_true both.1
  | ok now =>
    cases plain : isPlain (e.analysis.set "snapshots" .null) with
    | false =>
      obtain ⟨document, recorded, extends_⟩ := record_shaped now books.earlier shaped
      have record_ : made w₁.now (saved w dir stem) e.analysis = .ok (document, snapshotsIn document) := by
        rw [made, time, stamped]
        exact recorded
      rw [same, keepRecord_unwritable record_ (extends_.plain.trans plain)]
      exact iff_of_false Bool.false_ne_true fun both => Bool.false_ne_true both.2
    | true =>
      obtain ⟨document, w', s', run, -⟩ := books.saves named shaped stamped plain
      rw [run]
      exact iff_of_true rfl ⟨rfl, rfl⟩

theorem saved_of_isOk (fine : (e.run w).1.isOk) :
    ∃ now document w' s', stamp e.time = .ok now ∧ e.run w = (.ok (snapshotsIn document), w') ∧
      saved w' dir stem = some document ∧ Extends now (saved w dir stem) e.analysis document ∧
      Books w' dir stem s' (es ++ [e]) := by
  obtain ⟨told, plain⟩ := (books.isOk_run_iff named shaped).1 fine
  cases stamped : stamp e.time with
  | error f =>
    rw [stamped] at told
    cases told
  | ok now =>
    obtain ⟨document, w', s', carried⟩ := books.saves named shaped stamped plain
    exact ⟨now, document, w', s', rfl, carried⟩

end

theorem after_all {more : List Export} (books : Books w dir stem s es)
    (named : ∀ e ∈ more, project e.name = stem) (shaped : ∀ e ∈ more, Shaped e.analysis) :
    ∃ s', Books (after more w) dir stem s' (es ++ kept more w) := by
  induction more generalizing w s es with
  | nil => exact ⟨s, by simpa [after, kept] using books⟩
  | cons e more ih =>
    have own := named e mem_cons_self
    have later := fun x member => named x (mem_cons_of_mem e member)
    have fit := fun x member => shaped x (mem_cons_of_mem e member)
    rw [after, kept]
    cases fine : (e.run w).1.isOk with
    | true =>
      obtain ⟨-, document, w', s', -, run, -, -, next⟩ :=
        books.saved_of_isOk own (shaped e mem_cons_self) fine
      rw [run, if_pos rfl, append_cons]
      exact ih next later fit
    | false =>
      obtain ⟨f, w', run⟩ := Action.error_of_isOk fine
      rw [run]
      exact ih (books.fails own run).2 later fit

end Books

/-! ## Any number of analyses -/

/-- What the file and the store of a project say after some analyses were saved. -/
structure Agrees (w : Workspace) (dir : Path) (stem : String) (s : Store) (es : List Export) : Prop where
  opened : Opened w s
  /-- There is a file exactly if an analysis was saved. -/
  there : saved w dir stem = none ↔ es = []
  /-- One snapshot for each analysis. -/
  count : (snapshotsIn ((saved w dir stem).getD .null)).length = es.length
  /-- The names of all of them. -/
  skills : ∀ v, v ∈ namesAt ((saved w dir stem).getD .null) "skills" ↔ ∃ e ∈ es, v ∈ namesAt e.analysis "skills"
  frameworks : ∀ v,
    v ∈ namesAt ((saved w dir stem).getD .null) "frameworks" ↔ ∃ e ∈ es, v ∈ namesAt e.analysis "frameworks"
  /-- The store has the document of the file, in as many versions. -/
  row : (s.find? (stem ++ ".json")).map (fun e => (e.content, e.current)) = (saved w dir stem).map (·, es.length)

theorem Books.agrees (books : Books w dir stem s es) : Agrees w dir stem s es := by
  obtain ⟨h, shows_, content, count⟩ := books.shown
  refine ⟨books.opened, ?_, books.count, books.skills, books.frameworks, ?_⟩
  · rw [← content, ← length_eq_zero_iff, ← count]
    cases h with
    | none => exact iff_of_true rfl rfl
    | some h =>
      have some_ : History.count (some h) ≠ 0 := by
        have := h.size_pos
        simp only [History.count, History.size] at this ⊢
        omega
      exact iff_of_false (by simp) some_
  · rw [← content, ← count, Store.find?_eq_head?]
    cases shows_ with
    | absent none_ => rw [none_]; rfl
    | present h e one current newest =>
      have held : e.content = h.newest.content := congrArg Store.Payload.content newest
      rw [one, head?_cons, map_some, current, held]
      rfl

/-- Analyses of one project are saved one after the other, where there is neither a document nor a row for
it yet; each may fail.  Then file and store agree on those that did not fail.  And whatever analysis comes
next: if it fails, the file and the store are as they were.  If it is shaped, it fails only because its
moment cannot be told or it cannot be written; otherwise its snapshot is added after those that are there. -/
theorem snapshots_accumulate (site : Site w dir (stem ++ ".json")) (opened : Opened w s)
    (fresh : Shows s (stem ++ ".json") none) (nothing : saved w dir stem = none)
    (named : ∀ e ∈ es, Naming.project e.name = stem) (shaped : ∀ e ∈ es, Shaped e.analysis) :
    ∃ s', Agrees (after es w) dir stem s' (kept es w) ∧
      ∀ e : Export, Naming.project e.name = stem →
        (∀ f w', e.run (after es w) = (.error f, w') →
          saved w' dir stem = saved (after es w) dir stem ∧ Opened w' s') ∧
        (Shaped e.analysis →
          ((e.run (after es w)).1.isOk = true ↔
            (Insight.stamp e.time).isOk = true ∧ Json.isPlain (e.analysis.set "snapshots" .null) = true) ∧
          ∀ snapshots w', e.run (after es w) = (.ok snapshots, w') →
            ∃ now document, Insight.stamp e.time = .ok now ∧ saved w' dir stem = some document ∧
              snapshots = snapshotsIn ((saved (after es w) dir stem).getD .null) ++ [shot now document] ∧
              snapshotsIn document = snapshots) := by
  obtain ⟨s', books⟩ := (books_nil site opened fresh nothing).after_all named shaped
  rw [List.nil_append] at books
  refine ⟨s', books.agrees, fun e own => ⟨fun f w' run => ?_, fun fit => ⟨books.isOk_run_iff own fit, ?_⟩⟩⟩
  · obtain ⟨same, books'⟩ := books.fails own run
    exact ⟨same, books'.opened⟩
  · intro snapshots w' run
    obtain ⟨now, document, w₁, -, stamped, run₁, written, extends_, -⟩ :=
      books.saved_of_isOk own fit (by rw [run]; rfl)
    rw [run₁] at run
    cases run
    exact ⟨now, document, stamped, written, snapshotsIn_of_get? extends_.snapshots, rfl⟩

def rootSaves : Path := Context.usualSaveDir ⟨"/", []⟩

def findings (skills frameworks : List String) : Fields :=
  [("resume_item", .object [("skills", .texts skills), ("frameworks", .texts frameworks)])]

/-- Three analyses under two spellings of a name; a duration in the second one cannot be written. -/
def threeExports : List Export := [
  ⟨⟨1000000, none⟩, "my:app", .object (findings ["rust", "c"] [])⟩,
  ⟨⟨2000000, none⟩, "my_app", .object (findings ["ada"] [] ++ [("duration_estimate", .span ⟨5⟩)])⟩,
  ⟨⟨3000000, none⟩, "my_app", .object (findings ["c", "go"] ["qt"])⟩]

theorem linkless_freshStore : freshStore.disk.Linkless := Disk.linkless_of_isLinkless ⟨_, rfl⟩ rfl

theorem site_freshStore : Site freshStore rootSaves "my_app.json" where
  linkless := linkless_freshStore
  home := ⟨rfl, by decide⟩
  saved := rfl
  rooted := rfl
  legal := by decide
  short := by decide
  made := ⟨_, rfl⟩
  leaf := by
    rintro ⟨es, there⟩
    cases there

/-- Two of them are saved: the file has their snapshots, and the store two versions of its document. -/
theorem threeExports_accumulate :
    (kept threeExports freshStore).map (·.name) = ["my:app", "my_app"] ∧
      ∃ s', Opened (after threeExports freshStore) s' ∧
        (snapshotsIn ((saved (after threeExports freshStore) rootSaves "my_app").getD .null)).length = 2 ∧
        (s'.find? "my_app.json").map (fun e => (e.content, e.current)) =
          (saved (after threeExports freshStore) rootSaves "my_app").map (·, 2) := by
  have names : (kept threeExports freshStore).map (·.name) = ["my:app", "my_app"] := by decide +kernel
  have two : (kept threeExports freshStore).length = 2 := by rw [← List.length_map (·.name), names]; rfl
  have named : ∀ e ∈ threeExports, Naming.project e.name = "my_app" := by decide +kernel
  have shaped : ∀ e ∈ threeExports, Shaped e.analysis := by
    intro e member
    simp only [threeExports, List.mem_cons, List.not_mem_nil, or_false] at member
    obtain rfl | rfl | rfl := member <;> exact ⟨⟨_, rfl⟩, ⟨_, rfl⟩⟩
  obtain ⟨s', agrees, -⟩ :=
    snapshots_accumulate site_freshStore opened_freshStore (.absent rfl rfl) rfl named shaped
  exact ⟨names, s', agrees.opened, two ▸ agrees.count, two ▸ agrees.row⟩

end Folio.Saved

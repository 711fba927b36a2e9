/-
# Proofs.Dedup.Reach -- how far a scan reaches

A scan changes files of its project only (`reaches_scan`), and with the lock and the index that is all that a run
reaches (`steady_run`).  A note of another project is never replaced, so what a run reports is still in the index that
it stores. The index could be written, hence so can the report (`plain_of_run`).
-/
import Folio.Proofs.Dedup.Copies
import Folio.Proofs.Workspace

namespace Folio.Dedup

open Disk Fields Json List Or Scan

variable {d : Disk} {file : Path} {i : Index} {n : Node} {o : Outcome}
  {s : Scan} {p root : Path} {remove : Bool} {project : String}

/-- What one visit does: nothing, or it notes a file that no other project has noted, or it reports one that
another project has noted. -/
theorem visit_cases (s : Scan) (remove : Bool) (project : String) (p : Path) : s.visit remove project p = s ∨
      (∃ h looks, s.visit remove project p = { s with index := { s.index with looks } }.note project h p ∧
        ∀ note, get? s.index.notes h = some note → isOwn project note) ∨
      ∃ f h looks note, s.disk.file p = .ok f ∧ get? s.index.notes h = some note ∧ isOwn project note = false ∧
        s.visit remove project p =
          { s with index := { s.index with looks } }.report remove ⟨note.getOrNull "path", note.getOrNull "project"⟩ p := by
  cases found : s.disk.file p with
  | error e => exact inl (visit_skip found)
  | ok f =>
    right
    rw [visit_found found rfl rfl]
    rcases judge_cases (s.looked _ f) remove project p _ with ⟨same, own⟩ | ⟨note, noted, other, same⟩
    · exact inl ⟨_, _, same, own⟩
    · exact inr ⟨f, _, _, note, rfl, noted, other, same⟩

/-! ## What is reached -/

theorem reaches_visit (linkless : s.disk.Linkless) (straight : p.Straight) (remove : Bool) (project : String) :
    s.disk.Reaches (· = p.parts) (s.visit remove project p).disk := by
  rcases visit_cases s remove project p with same | ⟨h, looks, same, -⟩ | ⟨f, h, looks, note, found, -, -, same⟩
  · rw [same]
    exact .refl linkless
  · rw [same]
    exact .refl linkless
  · obtain ⟨d, reported, reaches, -⟩ := report_eq (s := { s with index := { s.index with looks } }) linkless
      straight found remove ⟨note.getOrNull "path", note.getOrNull "project"⟩
    rw [same, reported]
    exact reaches

theorem reaches_visits {ps : List Path} (linkless : s.disk.Linkless) (straight : ∀ q ∈ ps, q.Straight) (remove : Bool)
    (project : String) :
    s.disk.Reaches (fun way => ∃ q ∈ ps, way = q.parts) (ps.foldl (visit remove project) s).disk := by
  induction ps generalizing s with
  | nil => exact .refl linkless
  | cons q ps ih =>
    have first := reaches_visit linkless (straight q mem_cons_self) remove project
    have rest := ih first.linkless fun r member => straight r (mem_cons_of_mem q member)
    refine (first.mono ?_).trans (rest.mono ?_)
    · rintro way rfl
      exact ⟨q, mem_cons_self, rfl⟩
    · rintro way ⟨r, member, rfl⟩
      exact ⟨r, mem_cons_of_mem q member, rfl⟩

theorem prefix_of_mem_below (listed : p ∈ d.below root) : root.parts <+: p.parts := by
  unfold below at listed
  split at listed
  · rw [Node.inside_eq_ways, map_map] at listed
    obtain ⟨e, -, rfl⟩ := mem_map.1 listed
    exact prefix_append _ _
  · cases listed

theorem reaches_scan (linkless : d.Linkless) (straight : ∀ q ∈ d.below root, q.Straight) (i : Index)
    (remove : Bool) : d.Reaches (root.parts <+: ·) (scan d i remove root).disk := by
  refine (reaches_visits (s := ⟨d, i, 0, []⟩) linkless straight remove root.name).mono ?_
  rintro way ⟨q, listed, rfl⟩
  exact prefix_of_mem_below listed

/-! ## What is reported -/

/-- Every reported original is still noted for its project. -/
structure Attested (project : String) (s : Scan) : Prop where
  /-- No other project's note has the name of the looks. -/
  apart : ∀ note, get? s.index.notes looksKey = some note → isOwn project note
  noted : ∀ dup ∈ s.duplicates, ∃ h note, get? s.index.notes h = some note ∧ isOwn project note = false ∧
    dup.first = ⟨note.getOrNull "path", note.getOrNull "project"⟩

theorem Attested.visit (attested : Attested project s) (remove : Bool) (p : Path) :
    Attested project (s.visit remove project p) := by
  rcases visit_cases s remove project p with same | ⟨h, looks, same, own⟩ | ⟨f, h, looks, note, -, there, other, same⟩
  · rw [same]
    exact attested
  · rw [same]
    constructor
    · intro note there
      simp only [Scan.note, get?_set] at there
      split at there
      · cases there
        simp [isOwn_noteOf]
      · exact attested.apart note there
    · intro dup member
      obtain ⟨h', note', there, other, first⟩ := attested.noted dup member
      have ne : h' ≠ h := by
        rintro rfl
        rw [own note' there] at other
        cases other
      refine ⟨h', note', ?_, other, first⟩
      simp only [Scan.note, get?_set, if_neg ne]
      exact there
  · rw [same]
    have notes := notes_report { s with index := { s.index with looks } } remove
    obtain ⟨removed, duplicates⟩ := duplicates_report { s with index := { s.index with looks } } remove
      ⟨note.getOrNull "path", note.getOrNull "project"⟩ p
    constructor
    · rw [notes]
      exact attested.apart
    · rw [notes, duplicates]
      intro dup member
      rcases mem_append.1 member with old | new
      · exact attested.noted dup old
      · rw [mem_singleton.1 new]
        exact ⟨h, note, there, other, rfl⟩

theorem attested_scan (apart : get? i.notes looksKey = none) (remove : Bool) (root : Path) :
    Attested root.name (scan d i remove root) := by
  refine foldlRecOn (motive := Attested root.name) _ _ ?_ fun s attested p _ => attested.visit remove p
  refine ⟨fun note there => ?_, fun dup member => ?_⟩
  · rw [apart] at there
    cases there
  · cases member

theorem get?_ofValue_looksKey (v : Value) : get? (Index.ofValue v).notes looksKey = none := by
  cases v with
  | object fs =>
    rw [Option.eq_none_iff_forall_ne_some]
    intro note there
    have kept := (mem_filter.1 (mem_of_get? there)).2
    simp at kept
  | _ => rfl

theorem get?_load_looksKey (loaded : load d file = .ok i) : get? i.notes looksKey = none := by
  rcases load_eq_ok loaded with rfl | ⟨f, -, rfl⟩
  · rfl
  · unfold Index.read
    split
    · exact get?_ofValue_looksKey _
    · rfl

theorem plain_of_run {w w' : Workspace}
    (run : (run root file remove false).outcome w = (.ok o, w')) : isPlain o.toValue := by
  obtain ⟨-, d, i, -, -, -, -, loaded, -, -, -, -, duplicates, plain⟩ := steps_of_run run
  have attested : Attested root.name (scan d i remove root) := attested_scan (get?_load_looksKey loaded) remove root
  have each : ∀ dup ∈ o.duplicates, isPlain dup.toValue := by
    rw [duplicates]
    intro dup member
    obtain ⟨h, note, there, other, first⟩ := attested.noted dup member
    have apart : h ≠ looksKey := by
      rintro rfl
      rw [attested.apart note there] at other
      cases other
    have held := isPlain_of_get? plain (by rw [get?_set, if_neg apart]; exact there)
    simp [Duplicate.toValue, first, isPlain, isPlainFields, isPlain_getOrNull held]
  have all : isPlainItems (o.duplicates.map (·.toValue)) := by
    rw [isPlainItems_iff]
    intro v member
    obtain ⟨dup, listed, rfl⟩ := mem_map.1 member
    exact each dup listed
  simp [Outcome.toValue, Value.nat, isPlain, isPlainFields, all]

/-! ## Runs -/

theorem below_of_at? {d' : Disk} (linkless : d.Linkless) (linkless' : d'.Linkless) (straight : root.Straight)
    (found : d.node root = .ok n) (same : d'.root.at? root.parts = d.root.at? root.parts) :
    d'.below root = d.below root := by
  rw [below, below, found, node_of_at? linkless linkless' straight same found]

theorem straight_of_mem_below {q : Path} (linkless : d.Linkless) (named : d.root.Named Path.IsEntry)
    (straight : root.Straight) (found : d.node root = .ok n) (member : q ∈ d.below root) : q.Straight := by
  rw [below, found] at member
  obtain ⟨e, inside, rfl⟩ := mem_map.1 member
  have inner := (Node.named_at? named (node_linkless linkless straight found)).2
  obtain ⟨rel, -, entries, same⟩ := Node.of_mem_inside root n inner e inside
  rw [same]
  refine ⟨straight.rooted, fun up => ?_⟩
  rcases mem_append.1 up with above | below
  · exact straight.plain above
  · exact (entries _ below).notUp rfl

theorem lockOf_entry (dir : Path) (name : String) : lockOf (dir.entry name) = dir.entry (name ++ ".lock") := by
  simp [lockOf, Path.withName, Path.entry, Path.name]

theorem lock_notUp (name : String) : name ++ ".lock" ≠ ".." := Text.ne_of_mem 'l' (by simp) (by decide)

theorem steady_run {dir : Path} {name : String} {w w' : Workspace} (linkless : w.disk.Linkless)
    (home : dir.Straight) (notUp : name ≠ "..") (straight : root.Straight) (found : w.disk.node root = .ok n)
    (isDir : w.disk.root.IsDirAt root.parts) (inside : ∀ q ∈ w.disk.below root, q.Straight)
    (apart : ∀ rest, ¬ root.parts <+: dir.parts ++ rest)
    (run : (run root (dir.entry name) remove false).outcome w = (.ok o, w')) :
    Steady (fun way => way = dir.parts ∨ way = dir.parts ++ [name ++ ".lock"] ∨ way = dir.parts ++ [name] ∨
      root.parts <+: way) w w' := by
  obtain ⟨d₁, d₂, i, d₃, d₄, made, taken, -, again, written, rfl, -, -, -⟩ := steps_of_run run
  rw [Path.parent_entry] at made again
  rw [lockOf_entry] at taken
  have reaches₁ := reaches_makeDirs linkless home made
  have reaches₂ := reaches_write reaches₁.linkless (home.entry (lock_notUp name)) (by simp [Path.entry]) taken
  -- Up to the scan nothing happens in the project.
  have before : w.disk.Reaches (fun way => ∃ rest, way = dir.parts ++ rest) d₂ := by
    refine (reaches₁.mono ?_).trans (reaches₂.mono ?_)
    · rintro way rfl
      exact ⟨[], by simp⟩
    · rintro way rfl
      exact ⟨_, rfl⟩
  have same : d₂.root.at? root.parts = w.disk.root.at? root.parts := by
    refine before.trees _ isDir ?_
    rintro way ⟨rest, rfl⟩
    exact apart rest
  have listed : d₂.below root = w.disk.below root := below_of_at? linkless before.linkless straight found same
  have scanned : d₂.Reaches (root.parts <+: ·) (scan d₂ i remove root).disk :=
    reaches_scan before.linkless (by rw [listed]; exact inside) i remove
  have reaches₃ := reaches_makeDirs scanned.linkless home again
  have reaches₄ := reaches_write reaches₃.linkless (home.entry notUp) (by simp [Path.entry]) written
  refine ⟨?_, rfl, rfl, rfl⟩
  refine (reaches₁.mono ?_).trans ((reaches₂.mono ?_).trans ((scanned.mono ?_).trans ((reaches₃.mono ?_).trans
    (reaches₄.mono ?_))))
  · exact fun way => inl
  · exact fun way is => inr (inl is)
  · exact fun way below => inr (inr (inr below))
  · exact fun way => inl
  · exact fun way is => inr (inr (inl is))

end Folio.Dedup

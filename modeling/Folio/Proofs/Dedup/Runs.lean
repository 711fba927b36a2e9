/-
# Proofs.Dedup.Runs -- no series of scans loses a content

A run takes the lock, loads the index, scans, and saves the index; it may fail at each of these steps and leaves what it
did until then.  Between runs the files below the roots are those of the start but for duplicates, and the stored index
is sound (`Tidy`).  Every run keeps a tidy disk tidy, whether it ends well or not (`Ran.tidy`).  On a tidy disk each
content of the start is still there, provided that fingerprints tell contents apart (`contents_of_tidy`).
-/
import Folio.Proofs.Action
import Folio.Proofs.Dedup.Scan
import Mathlib.Data.Set.Function

namespace Folio.Dedup

open Action List Node Or

open Disk (Frame)

variable {t : Moment} {way : List String}
  {start d d' : Disk} {roots : List Path} {file root : Path} {i : Index} {remove : Bool}

/-! ## Between runs -/

def Stored (start : Disk) (roots : List Path) (file : Path) (d : Disk) : Prop :=
  ∀ f, d.root.at? (indexPlace start file) = some (.file f) →
    ∃ layout i, f.content = .document layout (Index.toValue i) ∧
      Sound start roots d (.ofValue (Index.toValue i))

/-- What holds of the disk between runs. -/
structure Tidy (start : Disk) (roots : List Path) (file : Path) (d : Disk) : Prop where
  kept : Kept start roots file d
  survives : Survives start roots d
  stored : Stored start roots file d

theorem tidy_start (setting : Setting start roots file) : Tidy start roots file start where
  kept := .refl setting
  survives way f below there := ⟨way, f, below, there, rfl⟩
  stored f there := by simp [setting.absent] at there

section Touch

variable {touched : List String → Prop}

section

variable (setting : Setting start roots file) (kept : Kept start roots file d) (kept' : Kept start roots file d')
  (frame : Frame touched d d') (only : ∀ way, touched way → way = indexPlace start file ∨ way = lockPlace start file)

include setting kept kept' frame only

theorem file_iff_of_touch (below : InRoots start roots way) (f : File) :
    d'.root.at? way = some (.file f) ↔ d.root.at? way = some (.file f) := by
  have off : ∀ {e : Disk}, Kept start roots file e → e.root.at? way = some (.file f) → ¬ touched way := by
    intro e keptE there touch
    obtain ⟨notIndex, notLock⟩ := keptE.apart setting below there
    exact (only way touch).elim notIndex notLock
  constructor
  · exact fun there => (frame.file (off kept' there) f).1 there
  · exact fun there => (frame.file (off kept there) f).2 there

theorem Sound.touch (sound : Sound start roots d i) : Sound start roots d' i where
  plain := sound.plain
  objects := sound.objects
  notes h note found := by
    obtain ⟨root, member, p, rel, way, f, continues, eq, located, below, there, print⟩ :=
      sound.notes h note found
    have inRoots : InRoots start roots way := ⟨root, member, below⟩
    have links : ∀ along target, d.root.at? along = some (.link target) → ¬ touched along := by
      intro along target link touch
      rcases only along touch with rfl | rfl
      · exact kept.index target link
      · exact kept.lock target link
    have off : ¬ touched way := fun touch =>
      (only way touch).elim (kept.apart setting inRoots there).1 (kept.apart setting inRoots there).2
    exact ⟨root, member, p, rel, way, f, continues, eq, frame.locate links (inr off) located, below,
      (frame.file off f).2 there, print⟩
  looks way f h below there known :=
    sound.looks way f h below ((file_iff_of_touch setting kept kept' frame only below f).1 there) known

theorem Survives.touch (survives : Survives start roots d) : Survives start roots d' := by
  intro way f below there
  obtain ⟨way', f', below', there', print⟩ := survives way f below there
  exact ⟨way', f', below', (file_iff_of_touch setting kept kept' frame only below' f').2 there', print⟩

end

theorem Tidy.touch (setting : Setting start roots file) (tidy : Tidy start roots file d)
    (kept' : Kept start roots file d') (frame : Frame touched d d')
    (only : ∀ way, touched way → way = lockPlace start file) : Tidy start roots file d' where
  kept := kept'
  survives := tidy.survives.touch setting tidy.kept kept' frame fun way touch => inr (only way touch)
  stored f there := by
    have off : ¬ touched (indexPlace start file) := fun touch => setting.lock_ne_index (only _ touch).symm
    obtain ⟨layout, i, content, sound⟩ := tidy.stored f ((frame.file off f).1 there)
    exact ⟨layout, i, content, sound.touch setting tidy.kept kept' frame fun way touch => inr (only way touch)⟩

end Touch

section

variable (setting : Setting start roots file) (tidy : Tidy start roots file d)

include setting tidy

theorem Tidy.makeDirs (made : d.makeDirs file.parent = .ok d') : Tidy start roots file d' :=
  tidy.touch setting (tidy.kept.makeDirs setting made) (Disk.frame_makeDirs made)
    fun _ impossible => impossible.elim

theorem Tidy.writeLock {c : Content} (written : d.write (lockOf file) c t = .ok d') : Tidy start roots file d' := by
  obtain ⟨kept', frame, -⟩ := tidy.kept.writeLock setting written
  exact tidy.touch setting kept' frame fun _ eq => eq

/-- The directory of the index is there, and the lock is taken. -/
def Took (file : Path) (now : Moment) (d d₂ : Disk) : Prop :=
  ∃ d₁, d.makeDirs file.parent = .ok d₁ ∧ d₁.write (lockOf file) (.text "") now = .ok d₂

theorem Tidy.take (took : Took file t d d') : Tidy start roots file d' := by
  obtain ⟨d₁, made, taken⟩ := took
  exact (tidy.makeDirs setting made).writeLock setting taken

theorem Tidy.writeIndex (sound : Sound start roots d i) {layout : Json.Layout}
    (written : d.write file (.document layout i.toValue) t = .ok d') : Tidy start roots file d' := by
  obtain ⟨kept', frame, f, there, content⟩ := tidy.kept.writeIndex setting written
  refine ⟨kept', tidy.survives.touch setting tidy.kept kept' frame fun _ eq => inl eq, ?_⟩
  intro g atIndex
  obtain rfl : f = g := by simpa [there] using atIndex
  exact ⟨layout, i, content, (sound.touch setting tidy.kept kept' frame fun _ eq => inl eq).stored⟩

end

/-! ## One run -/

/-- How far a run on a disk gets: it finds the index taken, or makes the directory, takes the lock,
loads, scans, makes the directory again and saves, and each step may be its last. -/
inductive Ran (root file : Path) (remove locked : Bool) (now : Moment) (d : Disk) :
    Except Fault Outcome → Disk → Prop where
  | idle (held : locked) : Ran root file remove locked now d (.ok .none) d
  | homeless {e : Fault} (failed : d.makeDirs file.parent = .error e) :
      Ran root file remove locked now d (.error e) d
  | barred {d₁ : Disk} {e : Fault} (made : d.makeDirs file.parent = .ok d₁)
      (failed : d₁.write (lockOf file) (.text "") now = .error e) :
      Ran root file remove locked now d (.error e) d₁
  | unread {d₂ : Disk} {e : Fault} (took : Took file now d d₂) (failed : load d₂ file = .error e) :
      Ran root file remove locked now d (.error e) d₂
  | scanned {d₂ : Disk} {i : Index} {e : Fault} (took : Took file now d d₂) (loaded : load d₂ file = .ok i)
      (failed : (scan d₂ i remove root).disk.makeDirs file.parent = .error e) :
      Ran root file remove locked now d (.error e) (scan d₂ i remove root).disk
  | unsaved {d₂ d₃ : Disk} {i : Index} {e : Fault} (took : Took file now d d₂) (loaded : load d₂ file = .ok i)
      (again : (scan d₂ i remove root).disk.makeDirs file.parent = .ok d₃)
      (failed : Json.isPlain (scan d₂ i remove root).index.toValue = false ∨
        d₃.write file (.document layout (scan d₂ i remove root).index.toValue) now = .error e) :
      Ran root file remove locked now d (.error e) d₃
  | saved {d₂ d₃ d₄ : Disk} {i : Index} (free : locked = false) (took : Took file now d d₂)
      (loaded : load d₂ file = .ok i) (again : (scan d₂ i remove root).disk.makeDirs file.parent = .ok d₃)
      (plain : Json.isPlain (scan d₂ i remove root).index.toValue)
      (written : d₃.write file (.document layout (scan d₂ i remove root).index.toValue) now = .ok d₄) :
      Ran root file remove locked now d
        (.ok ⟨(scan d₂ i remove root).unique, (scan d₂ i remove root).duplicates,
          (scan d₂ i remove root).index.notes.length⟩) d₄

theorem ran_run (root file : Path) (remove locked : Bool) (w : Workspace) : ∃ d,
    ((run root file remove locked).outcome w).2 = { w with disk := d } ∧
      Ran root file remove locked w.now w.disk ((run root file remove locked).outcome w).1 d := by
  cases locked with
  | true => exact ⟨_, rfl, .idle rfl⟩
  | false =>
    simp only [run, Bool.false_eq_true, if_false, parent_lockOf]
    rw [outcome_bind, outcome_makeDirs]
    cases made : w.disk.makeDirs file.parent with
    | error e => exact ⟨_, rfl, .homeless made⟩
    | ok d₁ =>
      simp only [writeText]
      rw [outcome_bind, outcome_write]
      cases taken : d₁.write (lockOf file) (.text "") w.now with
      | error e => exact ⟨_, rfl, .barred made taken⟩
      | ok d₂ =>
        have took : Took file w.now w.disk d₂ := ⟨d₁, made, taken⟩
        simp only
        rw [outcome_bind, outcome_ask]
        cases loaded : load d₂ file with
        | error e => exact ⟨_, rfl, .unread took loaded⟩
        | ok i =>
          simp only
          rw [bind_of_ok (outcome_disk _), bind_of_ok (outcome_modify _ _), outcome_bind, outcome_store]
          cases again : (scan d₂ i remove root).disk.makeDirs file.parent with
          | error e => exact ⟨_, rfl, .scanned took loaded again⟩
          | ok d₃ =>
            cases plain : Json.isPlain (scan d₂ i remove root).index.toValue with
            | false => exact ⟨_, rfl, .unsaved took loaded again (inl plain)⟩
            | true =>
              simp only [outcome_write]
              cases written : d₃.write file (.document layout (scan d₂ i remove root).index.toValue) w.now with
              | error e => exact ⟨_, rfl, .unsaved took loaded again (inr written)⟩
              | ok d₄ => exact ⟨_, rfl, .saved rfl took loaded again plain written⟩

theorem load_cases (setting : Setting start roots file) (kept : Kept start roots file d)
    (loaded : load d file = .ok i) : i = .empty ∨ ∃ f, d.root.at? (indexPlace start file) = some (.file f) ∧
      ∀ form v, f.content = .document form v → i = .ofValue v := by
  rcases load_eq_ok loaded with empty | ⟨f, found, rfl⟩
  · exact inl empty
  · obtain ⟨place, located, atPlace⟩ := Disk.file_eq_ok.1 found
    have own : place = indexPlace start file := by
      rw [indexPlace, ← kept.absolute]
      refine Disk.locate_clear ?_ ?_ located <;> rw [kept.absolute]
      · exact setting.notUp_index
      · exact kept.clear setting
    refine inr ⟨f, own ▸ atPlace, fun form v content => ?_⟩
    rw [content]
    rfl

theorem covers_self (name : String) (sound : Sound start roots d i) : Covers name i i := by
  refine inl fun h note found => ?_
  obtain ⟨root, -, p, -, -, -, -, rfl, -⟩ := sound.notes h note found
  exact ⟨root.name, p, p, rfl, found⟩

theorem covers_empty (name : String) (old : Index) : Covers name old .empty :=
  inr fun h note found => by simp [Index.empty, Fields.get?] at found

section

variable (setting : Setting start roots file)

include setting

theorem Tidy.loaded (tidy : Tidy start roots file d) (name : String) (loaded : load d file = .ok i) :
    ∃ old, Sound start roots d old ∧ Sound start roots d i ∧ Covers name old i ∧
      ∀ d', d'.root.leaf? (indexPlace start file) = d.root.leaf? (indexPlace start file) →
        Sound start roots d' old → Stored start roots file d' := by
  have back : ∀ {d' : Disk} {f : File}, d'.root.leaf? (indexPlace start file) = d.root.leaf? (indexPlace start file) →
      d'.root.at? (indexPlace start file) = some (.file f) →
      d.root.at? (indexPlace start file) = some (.file f) := by
    intro d' f same there
    rw [← leaf?_eq_file] at there ⊢
    rwa [← same]
  rcases load_cases setting tidy.kept loaded with rfl | ⟨f, there, read⟩
  · by_cases nothing : ∃ f, d.root.at? (indexPlace start file) = some (.file f)
    · obtain ⟨f, there⟩ := nothing
      obtain ⟨form, i₀, content, sound⟩ := tidy.stored f there
      refine ⟨_, sound, sound_empty _ _ _, covers_empty _ _, fun d' same sound' g there' => ?_⟩
      obtain rfl : f = g := by simpa [there] using back same there'
      exact ⟨form, i₀, content, sound'⟩
    · exact ⟨.empty, sound_empty _ _ _, sound_empty _ _ _, covers_empty _ _,
        fun d' same _ g there' => absurd ⟨g, back same there'⟩ nothing⟩
  · obtain ⟨form, i₀, content, sound⟩ := tidy.stored f there
    obtain rfl := read form _ content
    refine ⟨_, sound, sound, covers_self _ sound, fun d' same sound' g there' => ?_⟩
    obtain rfl : f = g := by simpa [there] using back same there'
    exact ⟨form, i₀, content, sound'⟩

theorem Tidy.begins (tidy : Tidy start roots file d) (root : Path) (loaded : load d file = .ok i) :
    ∃ old, Scanning start roots file root old d ⟨d, i, 0, []⟩ ∧
      ∀ s, Scanning start roots file root old d s → Tidy start roots file s.disk := by
  obtain ⟨old, stored, sound, covers, later⟩ := tidy.loaded setting root.name loaded
  exact ⟨old, ⟨tidy.kept, sound, stored, covers, tidy.survives, rfl⟩,
    fun s done => ⟨done.kept, done.survives, later _ done.index done.stored⟩⟩

variable (safe : remove → Unshared start roots) (member : root ∈ roots)

include safe member

theorem Tidy.scan (tidy : Tidy start roots file d)
    (loaded : load d file = .ok i) : Tidy start roots file (scan d i remove root).disk ∧
      Sound start roots (scan d i remove root).disk (scan d i remove root).index := by
  obtain ⟨old, begins, ends⟩ := tidy.begins setting root loaded
  obtain ⟨done, -⟩ := begins.visits setting safe member
    (fun p listed => continues_of_mem_below tidy.kept listed) (fun _ => True) trivial fun _ _ _ _ _ _ _ _ => trivial
  exact ⟨ends _ done, done.sound⟩

theorem Ran.tidy {locked : Bool} {now : Moment} {r : Except Fault Outcome}
    (ran : Ran root file remove locked now d r d') (tidy : Tidy start roots file d) : Tidy start roots file d' := by
  cases ran with
  | idle held | homeless failed => exact tidy
  | barred made failed => exact tidy.makeDirs setting made
  | unread took failed => exact tidy.take setting took
  | scanned took loaded failed => exact ((tidy.take setting took).scan setting safe member loaded).1
  | unsaved took loaded again failed =>
    exact ((tidy.take setting took).scan setting safe member loaded).1.makeDirs setting again
  | saved free took loaded again plain written =>
    obtain ⟨tidy, sound⟩ := (tidy.take setting took).scan setting safe member loaded
    have tidy' := tidy.makeDirs setting again
    have sound' := sound.touch setting tidy.kept tidy'.kept (Disk.frame_makeDirs again)
      fun _ impossible => impossible.elim
    exact tidy'.writeIndex setting sound' written

end

/-! ## Series of runs -/

structure Pass where
  root : Path
  remove : Bool
  locked : Bool
  now : Moment

def Pass.run (file : Path) (pass : Pass) (w : Workspace) : Except Fault Outcome × Workspace :=
  (Dedup.run pass.root file pass.remove pass.locked).outcome { w with now := pass.now }

def passes (file : Path) (series : List Pass) (w : Workspace) : Workspace :=
  series.foldl (fun w pass => (pass.run file w).2) w

theorem Pass.ran (file : Path) (pass : Pass) (w : Workspace) :
    Ran pass.root file pass.remove pass.locked pass.now w.disk (pass.run file w).1 (pass.run file w).2.disk := by
  obtain ⟨d, state, ran⟩ := ran_run pass.root file pass.remove pass.locked { w with now := pass.now }
  rw [Pass.run, state]
  exact ran

theorem passes_tidy {w : Workspace} (setting : Setting start roots file) {series : List Pass}
    (safe : (∃ pass ∈ series, pass.remove) → Unshared start roots)
    (members : ∀ pass ∈ series, pass.root ∈ roots) (tidy : Tidy start roots file w.disk) :
    Tidy start roots file (passes file series w).disk := by
  refine foldlRecOn (motive := fun w : Workspace => Tidy start roots file w.disk) series _ tidy
    fun w tidy pass member => ?_
  exact (pass.ran file w).tidy setting (fun remove => safe ⟨pass, member, remove⟩) (members pass member) tidy

/-! ## Contents -/

/-- The contents of the files of a disk, the index and its lock left out. -/
def contents (d : Disk) (file : Path) : Set Bytes :=
  { bytes | ∃ way f, way ≠ indexPlace d file ∧ way ≠ lockPlace d file ∧
    d.root.at? way = some (.file f) ∧ f.content.toBytes = bytes }

theorem contents_of_tidy (setting : Setting start roots file) (tidy : Tidy start roots file d)
    (injective : Set.InjOn Bytes.sha256 (contents start file)) : contents d file = contents start file := by
  have index := tidy.kept.indexPlace_eq
  have lock := tidy.kept.lockPlace_eq
  ext bytes
  constructor
  · rintro ⟨way, f, notIndex, notLock, there, rfl⟩
    rw [index] at notIndex
    rw [lock] at notLock
    refine ⟨way, f, notIndex, notLock, ?_, rfl⟩
    rw [← leaf?_eq_file] at there ⊢
    rcases tidy.kept.leaves way notIndex notLock with same | ⟨-, gone⟩
    · rw [← same, there]
    · simp [gone] at there
  · rintro ⟨way, f, notIndex, notLock, there, rfl⟩
    rcases tidy.kept.leaves way notIndex notLock with same | ⟨below, gone⟩
    · refine ⟨way, f, by rwa [index], by rwa [lock], ?_, rfl⟩
      rw [← leaf?_eq_file] at there ⊢
      rw [same, there]
    · obtain ⟨way', f', below', there', print⟩ := tidy.survives way f below there
      obtain ⟨notIndex', notLock'⟩ := tidy.kept.apart setting below' there'
      have same : f'.content.toBytes = f.content.toBytes :=
        injective ⟨way', f', notIndex', notLock', tidy.kept.fileOfStart setting below' there', rfl⟩
          ⟨way, f, notIndex, notLock, there, rfl⟩ print
      exact ⟨way', f', by rwa [index], by rwa [lock], there', same⟩

/-- No series of runs loses a content or makes a new one: over roots of which those of different names
share no file, with an index that starts absent and lies outside of them, and as long as fingerprints
tell the contents apart. -/
theorem passes_keep_contents {w : Workspace} (setting : Setting w.disk roots file)
    (unshared : Unshared w.disk roots) (injective : Set.InjOn Bytes.sha256 (contents w.disk file))
    (series : List Pass) (members : ∀ pass ∈ series, pass.root ∈ roots) :
    contents (passes file series w).disk file = contents w.disk file :=
  contents_of_tidy setting (passes_tidy setting (fun _ => unshared) members (tidy_start setting)) injective

/-! ### Three copies -/

/-- Two projects of one name and a third one, with one content in all of them. -/
def copies : Workspace :=
  { (default : Workspace) with
    disk := ⟨.dir [
      ("a", .dir [("app", .dir [("f", .file ⟨.text "x", default, 1⟩)])]),
      ("b", .dir [("app", .dir [("g", .file ⟨.text "x", default, 2⟩)])]),
      ("c", .dir [("h", .file ⟨.text "x", default, 3⟩)])], ⟨"/", []⟩, "user", 3⟩ }

def copiesRoots : List Path := [⟨"/", ["a", "app"]⟩, ⟨"/", ["b", "app"]⟩, ⟨"/", ["c"]⟩]

def copiesIndex : Path := ⟨"/", ["index.json"]⟩

theorem copies_nodes {n : Node} (there : copies.disk.root.at? way = some n) :
    n.isDir ∨ (∃ number, n = .file ⟨.text "x", default, number⟩) ∧
      (way = ["a", "app", "f"] ∨ way = ["b", "app", "g"] ∨ way = ["c", "h"]) := by
  by_cases top : way = []
  · subst top
    obtain rfl : copies.disk.root = n := by simpa using there
    exact inl rfl
  · have listed := mem_inside ⟨"/", []⟩ top there
    simp only [copies, inside, insideEntries, Path.entry, nil_append, map_cons, map_nil, cons_append, mem_cons,
      not_mem_nil, or_false] at listed
    rcases listed with ⟨rfl, rfl⟩ | ⟨rfl, rfl⟩ | ⟨rfl, rfl⟩ | ⟨rfl, rfl⟩ | ⟨rfl, rfl⟩ | ⟨rfl, rfl⟩ |
      ⟨rfl, rfl⟩ | ⟨rfl, rfl⟩ <;> simp [isDir]

theorem copies_linkless (way : List String) (target : String) : copies.disk.root.at? way ≠ some (.link target) := by
  intro link
  rcases copies_nodes link with dir | ⟨⟨_, eq⟩, -⟩
  · cases dir
  · cases eq

theorem setting_copies {roots : List Path} (dirs : ∀ root ∈ roots, ∃ place, copies.disk.locate root = .ok place ∧
      copies.disk.root.IsDirAt place ∧ place ≠ []) : Setting copies.disk roots copiesIndex where
  named := by
    have entry : ∀ x ∈ ["a", "app", "f", "b", "g", "c", "h"], Path.IsEntry x := by decide
    simp [copies, Named, NamedEntries, entry]
  dirs root member := by
    obtain ⟨place, located, dir, -⟩ := dirs root member
    exact ⟨place, located, dir⟩
  linkless way _ := copies_linkless way
  rooted := rfl
  some_ := by simp [copiesIndex]
  entries := by decide
  clear along _ := copies_linkless along
  clearLock := copies_linkless _
  absent := rfl
  outside := by
    rintro ⟨root, member, place, located, along⟩
    obtain ⟨place', located', ⟨es, dir⟩, some_⟩ := dirs root member
    obtain rfl : place = place' := by simpa [located] using located'
    rcases prefix_concat_iff.1 (show place <+: [] ++ ["index.json"] from along) with rfl | nil
    · cases dir
    · exact some_ (prefix_nil.1 nil)

theorem copiesRoots_dirs : ∀ root ∈ copiesRoots, ∃ place, copies.disk.locate root = .ok place ∧
    copies.disk.root.IsDirAt place ∧ place ≠ [] := by
  simp only [copiesRoots, forall_mem_cons, not_mem_nil, false_implies, implies_true, and_true]
  exact ⟨⟨_, rfl, ⟨_, rfl⟩, by simp⟩, ⟨_, rfl, ⟨_, rfl⟩, by simp⟩, ⟨_, rfl, ⟨_, rfl⟩, by simp⟩⟩

theorem unshared_copies : Unshared copies.disk copiesRoots := by
  have places : ∀ root ∈ copiesRoots, copies.disk.locate root = .ok root.parts := by decide
  have apart : ∀ first ∈ copiesRoots, ∀ second ∈ copiesRoots, first.name ≠ second.name →
      ¬ (first.parts <+: second.parts ∨ second.parts <+: first.parts) := by decide
  rintro first firstIn second secondIn differ way f - ⟨place, located, along⟩ ⟨place', located', along'⟩
  obtain rfl : first.parts = place := by simpa [places first firstIn] using located
  obtain rfl : second.parts = place' := by simpa [places second secondIn] using located'
  exact apart first firstIn second secondIn differ ( prefix_or_prefix_of_prefix along along')

theorem injOn_copies : Set.InjOn Bytes.sha256 (contents copies.disk copiesIndex) := by
  rintro _ ⟨way, f, -, -, there, rfl⟩ _ ⟨way', f', -, -, there', rfl⟩ -
  rcases copies_nodes there with dir | ⟨⟨_, eq⟩, -⟩
  · cases dir
  rcases copies_nodes there' with dir | ⟨⟨_, eq'⟩, -⟩
  · cases dir
  cases eq
  cases eq'
  rfl

/-- Scanning the three projects with deletion, the first of them again at the end. -/
theorem copies_keep_contents :
    Setting copies.disk copiesRoots copiesIndex ∧ Unshared copies.disk copiesRoots ∧
      Set.InjOn Bytes.sha256 (contents copies.disk copiesIndex) ∧
      contents (passes copiesIndex [⟨⟨"/", ["c"]⟩, true, false, default⟩,
        ⟨⟨"/", ["a", "app"]⟩, true, false, default⟩, ⟨⟨"/", ["b", "app"]⟩, true, false, default⟩,
        ⟨⟨"/", ["c"]⟩, true, false, default⟩] copies).disk copiesIndex = contents copies.disk copiesIndex :=
  ⟨setting_copies copiesRoots_dirs, unshared_copies, injOn_copies,
    passes_keep_contents (setting_copies copiesRoots_dirs) unshared_copies injOn_copies _ (by decide)⟩

end Folio.Dedup

/-
# Proofs.Dedup.Saving -- runs that get to their end

Where files are found under the paths that a listing gives them and the index can be written (`Workable`), a run that
deletes nothing takes the lock, loads, scans and saves (`Ran.saves`), and leaves a disk on which the next one can do the
same (`Whole`).
-/
import Folio.Proofs.Dedup.Runs

namespace Folio.Dedup

open Disk Except List

open Disk (Direct Legal)

variable {f : File} {t : Moment}

/-- A setting where look-ups get through and the index can be written. -/
structure Workable (d : Disk) (roots : List Path) (file : Path) : Prop extends Setting d roots file where
  readable : ∀ root ∈ roots, root.Readable
  /-- A file below a root is found under the path of the root and its own names. -/
  found : ∀ root ∈ roots, ∀ place rel f, d.locate root = .ok place →
    d.root.at? (place ++ rel) = some (.file f) → d.locate ⟨root.root, root.parts ++ rel⟩ = .ok (place ++ rel)
  /-- The index and its lock have a directory, names that are allowed, and no directory in their place. -/
  home : d.root.IsDirAt (indexPlace d file).dropLast
  legal : ∀ x ∈ indexPlace d file, Legal x
  legalLock : Legal (file.name ++ ".lock")
  short : (indexPlace d file).length < stepLimit
  free : ¬ d.root.IsDirAt (lockPlace d file)

/-- A tidy disk on which no file was deleted and the index can still be written. -/
structure Whole (start : Disk) (roots : List Path) (file : Path) (d : Disk) : Prop
    extends Tidy start roots file d where
  files : ∀ way f, InRoots start roots way → start.root.at? way = some (.file f) →
    d.root.at? way = some (.file f)
  noIndexDir : ¬ d.root.IsDirAt (indexPlace start file)
  noLockDir : ¬ d.root.IsDirAt (lockPlace start file)

variable {start d d' : Disk} {roots : List Path} {file root : Path} {i : Index}

theorem whole_start (workable : Workable start roots file) : Whole start roots file start where
  toTidy := tidy_start workable.toSetting
  files _ _ _ there := there
  noIndexDir := fun ⟨es, dir⟩ => by simp [workable.absent] at dir
  noLockDir := workable.free

theorem Workable.restrict (workable : Workable start roots file) (member : root ∈ roots) :
    Workable start [root] file := by
  have subset : ∀ other ∈ [root], other ∈ roots := by simpa using member
  have inRoots : ∀ way, InRoots start [root] way → InRoots start roots way :=
    fun way ⟨other, inOne, below⟩ => ⟨other, subset other inOne, below⟩
  exact {
    workable with
    dirs := fun other inOne => workable.dirs other (subset other inOne)
    linkless := fun way below => workable.linkless way (inRoots way below)
    outside := fun below => workable.outside (inRoots _ below)
    readable := fun other inOne => workable.readable other (subset other inOne)
    found := fun other inOne => workable.found other (subset other inOne) }

/-! ## The index and its lock are within reach -/

theorem Whole.directIndex (workable : Workable start roots file) (whole : Whole start roots file d) : Direct d file := by
  have parts : (d.absolute file).parts = indexPlace start file := whole.kept.indexPlace_eq
  refine ⟨by rw [whole.kept.absolute]; exact workable.rooted, ?_, ?_, ?_, ?_, ?_⟩ <;> rw [parts]
  · exact workable.short
  · exact workable.legal
  · exact workable.index_ne_nil
  · exact whole.kept.dirs _ workable.home
  · exact whole.kept.index

theorem length_lockPlace (setting : Setting start roots file) :
    (lockPlace start file).length = (indexPlace start file).length := by
  rw [setting.lockPlace_eq, setting.indexPlace_eq]
  simp

section

variable (workable : Workable start roots file) (whole : Whole start roots file d)

include workable whole

theorem Whole.directLock : Direct d (lockOf file) := by
  have parts : (d.absolute (lockOf file)).parts = lockPlace start file := whole.kept.lockPlace_eq
  have setting := workable.toSetting
  refine ⟨?_, ?_, ?_, ?_, ?_, ?_⟩
  · rw [whole.kept.absolute, lockOf, absolute_withName start workable.some_]
    exact workable.rooted
  · rw [parts, length_lockPlace setting]
    exact workable.short
  · rw [parts, setting.lockPlace_eq]
    intro x member
    rcases mem_append.1 member with front | last
    · exact workable.legal x (dropLast_subset _ front)
    · exact mem_singleton.1 last ▸ workable.legalLock
  · rw [parts, setting.lockPlace_eq]
    simp
  · rw [parts, setting.lockPlace_eq, dropLast_concat]
    exact whole.kept.dirs _ workable.home
  · rw [parts]
    exact whole.kept.lock

/-! ## Files are within reach -/

section

variable {place rel : List String} (member : root ∈ roots) (located : start.locate root = .ok place)
  (there : start.root.at? (place ++ rel) = some (.file f))

include member located there

theorem Whole.locate : d.locate ⟨root.root, root.parts ++ rel⟩ = .ok (place ++ rel) := by
  have found := workable.found root member place rel f located there
  rw [locate_eq_ok] at found ⊢
  rw [whole.kept.absolute]
  refine found.keep whole.kept.dirs
    (fun _ _ target link => (whole.kept.link workable.toSetting _ target).2 link) fun g _ => ⟨f, ?_⟩
  exact whole.files _ f ⟨root, member, place, located, prefix_append _ _⟩ there

theorem Whole.listed : ⟨root.root, root.parts ++ rel⟩ ∈ d.below root := by
  obtain ⟨place', located', dir⟩ := workable.dirs root member
  obtain rfl : place = place' := by simpa [located] using located'
  have now := whole.files _ f ⟨root, member, place, located, prefix_append _ _⟩ there
  have further : rel ≠ [] := by
    rintro rfl
    obtain ⟨es, atDir⟩ := dir
    simp [atDir] at there
  obtain ⟨es, atDir⟩ := whole.kept.dirs _ dir
  rw [Node.at?_append, atDir] at now
  have found := node_eq_ok.2 ⟨place, whole.kept.locate workable.toSetting dir located, atDir⟩
  simp only [below, found]
  exact mem_map.2 ⟨_, Node.mem_inside root further now, rfl⟩

end

/-! ## Steps -/

theorem Whole.makeDirs : d.makeDirs file.parent = .ok d := by
  have shorter := dropLast_prefix (indexPlace start file)
  refine makeDirs_direct ?_ ?_ ?_ <;> rw [whole.kept.parent_eq workable.toSetting]
  · exact Nat.lt_of_le_of_lt shorter.length_le workable.short
  · exact fun x member => workable.legal x (shorter.subset member)
  · exact whole.kept.dirs _ workable.home

theorem Whole.writeLock {c : Content} (written : d.write (lockOf file) c t = .ok d') : Whole start roots file d' ∧
      d'.root.at? (indexPlace start file) = d.root.at? (indexPlace start file) := by
  have setting := workable.toSetting
  have tidy' := whole.toTidy.writeLock setting written
  obtain ⟨-, frame, f, lock, -⟩ := whole.kept.writeLock setting written
  have index : d'.root.at? (indexPlace start file) = d.root.at? (indexPlace start file) := by
    refine at?_write_beside (whole.directLock workable) ?_ ?_ written <;> rw [whole.kept.absolute]
    · exact (length_lockPlace setting).symm
    · exact setting.lock_ne_index.symm
  refine ⟨⟨tidy', fun way f below there => ?_, ?_, fun ⟨es, dir⟩ => by simp [lock] at dir⟩, index⟩
  · exact (file_iff_of_touch setting whole.kept tidy'.kept frame (fun _ eq => Or.inr eq) below f).2
      (whole.files way f below there)
  · rintro ⟨es, dir⟩
    exact whole.noIndexDir ⟨es, index ▸ dir⟩

theorem Whole.take (took : Took file t d d') : Whole start roots file d' ∧
    d'.root.at? (indexPlace start file) = d.root.at? (indexPlace start file) := by
  obtain ⟨d₁, made, taken⟩ := took
  -- The directory is there, so making it again gives the same disk.
  obtain rfl : d = d₁ := ok.inj ((whole.makeDirs workable).symm.trans made)
  exact whole.writeLock workable taken

theorem Whole.writeIndex (sound : Sound start roots d i) {layout : Json.Layout}
    (written : d.write file (.document layout i.toValue) t = .ok d') : Whole start roots file d' ∧
      ∃ f, d'.root.at? (indexPlace start file) = some (.file f) ∧ f.content = .document layout i.toValue := by
  have setting := workable.toSetting
  have tidy' := whole.toTidy.writeIndex setting sound written
  obtain ⟨-, frame, f, there, content⟩ := whole.kept.writeIndex setting written
  have lock : d'.root.at? (lockPlace start file) = d.root.at? (lockPlace start file) := by
    refine at?_write_beside (whole.directIndex workable) ?_ ?_ written <;> rw [whole.kept.absolute]
    · exact length_lockPlace setting
    · exact setting.lock_ne_index
  refine ⟨⟨tidy', fun way f below there => ?_, fun ⟨es, dir⟩ => by simp [there] at dir, ?_⟩, f, there, content⟩
  · exact (file_iff_of_touch setting whole.kept tidy'.kept frame (fun _ eq => Or.inl eq) below f).2
      (whole.files way f below there)
  · rintro ⟨es, dir⟩
    exact whole.noLockDir ⟨es, lock ▸ dir⟩

end

/-! ## Loading -/

theorem load_absent (direct : Direct d file) (nothing : d.root.at? (d.absolute file).parts = none) :
    load d file = .ok .empty := by
  have missing : d.node file = .error .absent := by
    simp [node, locate_direct direct, nothing, Bind.bind, Except.bind]
  simp only [load, exists?, ask, missing]
  rfl

theorem load_document {form : Json.Layout} {v : Value} (direct : Direct d file)
    (there : d.root.at? (d.absolute file).parts = some (.file f)) (content : f.content = .document form v) :
    load d file = .ok (.ofValue v) := by
  rw [load_of_file (file_eq_ok.2 ⟨_, by simp [locate_direct direct, there], there⟩), content]
  rfl

theorem Whole.load (workable : Workable start roots file) (whole : Whole start roots file d) :
    ∃ i, load d file = .ok i := by
  have direct := whole.directIndex workable
  have parts : (d.absolute file).parts = indexPlace start file := whole.kept.indexPlace_eq
  cases there : d.root.at? (indexPlace start file) with
  | none => exact ⟨_, load_absent direct (parts ▸ there)⟩
  | some n =>
    cases n with
    | dir es => exact absurd ⟨es, there⟩ whole.noIndexDir
    | link target => exact absurd there (whole.kept.index target)
    | file f =>
      obtain ⟨form, i, content, -⟩ := whole.stored f there
      exact ⟨_, load_document direct (parts ▸ there) content⟩

/-! ## A run that deletes nothing -/

theorem disk_scan (d : Disk) (i : Index) (root : Path) : (scan d i false root).disk = d := by
  refine foldlRecOn (motive := fun s : Scan => s.disk = d) _ _ rfl fun s same p _ => ?_
  rw [← same, Scan.visit]
  split
  · rfl
  · simp only
    split
    · split <;> rfl
    · rfl

theorem Ran.saves {now : Moment} {r : Except Fault Outcome} (workable : Workable start roots file)
    (member : root ∈ roots) (whole : Whole start roots file d) (ran : Ran root file false false now d r d') :
    ∃ d₂ i, Whole start roots file d₂ ∧
      d₂.root.at? (indexPlace start file) = d.root.at? (indexPlace start file) ∧ load d₂ file = .ok i ∧
      (∃ unique size, r = .ok ⟨unique, (scan d₂ i false root).duplicates, size⟩) ∧
      Whole start roots file d' ∧ ∃ f, d'.root.at? (indexPlace start file) = some (.file f) ∧
        f.content = .document layout (scan d₂ i false root).index.toValue := by
  have setting := workable.toSetting
  have safe : false → Unshared start roots := fun impossible => by cases impossible
  cases ran with
  | idle held => cases held
  | homeless failed => simp [whole.makeDirs workable] at failed
  | barred made failed =>
    rw [whole.makeDirs workable] at made
    cases made
    obtain ⟨d', written⟩ := write_direct (whole.directLock workable)
      (by rw [whole.kept.absolute]; exact whole.noLockDir) (.text "") now
    simp [written] at failed
  | unread took failed =>
    obtain ⟨i, loaded⟩ := (whole.take workable took).1.load workable
    simp [loaded] at failed
  | scanned took loaded failed =>
    rw [disk_scan, (whole.take workable took).1.makeDirs workable] at failed
    cases failed
  | @unsaved d₂ _ i _ took loaded again failed =>
    obtain ⟨whole₂, -⟩ := whole.take workable took
    obtain ⟨-, sound⟩ := whole₂.toTidy.scan setting safe member loaded
    rw [disk_scan, whole₂.makeDirs workable] at again
    obtain rfl := ok.inj again
    rcases failed with unplain | unwritten
    · simp [sound.plain.toValue] at unplain
    · obtain ⟨d', written⟩ := write_direct (whole₂.directIndex workable)
        (by rw [whole₂.kept.absolute]; exact whole₂.noIndexDir)
        (.document layout (scan d₂ i false root).index.toValue) now
      simp [written] at unwritten
  | saved free took loaded again plain written =>
    obtain ⟨whole₂, index⟩ := whole.take workable took
    obtain ⟨-, sound⟩ := whole₂.toTidy.scan setting safe member loaded
    rw [disk_scan, whole₂.makeDirs workable] at again
    rw [disk_scan] at sound
    cases again
    obtain ⟨whole', saved⟩ := whole₂.writeIndex workable sound written
    exact ⟨_, _, whole₂, index, loaded, ⟨_, _, rfl⟩, whole', saved⟩

end Folio.Dedup

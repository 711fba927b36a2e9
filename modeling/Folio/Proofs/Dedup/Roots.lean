/-
# Proofs.Dedup.Roots -- the index, the roots to scan, and the disks that scans make of them

The index answers which fingerprint a file has, when it still looks as it did (`digest_eq`), and where a fingerprint was
seen.  It is read back from its stored form (`get?_stored`, `looks_stored`).

`Setting` is what a series of scans starts from: directories without links inside, and an index that is not there yet,
outside of all of them.  On the disks that the series can reach (`Kept`) files below the roots may be gone, the index
and its lock may have been written, and all else stands as it stood; the roots are found where they were
(`Kept.locate`).
-/
import Folio.Dedup
import Folio.Proofs.Disk.Direct
import Folio.Proofs.Json

namespace Folio.Dedup

open Fields Json List Value

variable {f : File} {fs looks : Fields} {h key other : String} {i : Index} {l : Look} {v : Value}

/-! ## Looks -/

theorem known?_set_self {l' : Look} {h' : String}
    (known : known? (set looks key (l.toValue h)) key l' = some h') : h' = h := by
  simp only [known?, get?_set, if_true, Look.toValue] at known
  split at known
  · exact (Option.some.inj known).symm
  · cases known

theorem known?_erase (known : known? (erase looks key) other l = some h) : known? looks other l = some h := by
  by_cases same : other = key
  · simp [known?, Fields.get?_erase, same] at known
  · simpa [known?, Fields.get?_erase, if_neg same] using known

theorem held_of_known (known : known? looks key l = some h) : ∃ v, get? looks key = some v := by
  cases held : get? looks key with
  | none => simp [known?, held] at known
  | some v => exact ⟨v, rfl⟩

theorem digest_eq (right : ∀ h, known? looks key (lookOf f) = some h → h = fingerprint f) :
    (digest looks key f).1 = fingerprint f := by
  unfold digest
  cases known : known? looks key (lookOf f) with
  | some h => simpa [known] using right h known
  | none => simp [known]

theorem known?_digest (known : known? (digest looks key f).2 other l = some h) :
    known? looks other l = some h ∨ (other = key ∧ h = fingerprint f) := by
  unfold digest at known
  cases before : known? looks key (lookOf f) with
  | some _ =>
    simp only [before] at known
    exact Or.inl known
  | none =>
    simp only [before] at known
    by_cases same : other = key
    · subst same
      exact Or.inr ⟨rfl, known?_set_self known⟩
    · rw [known?, get?_set, if_neg same] at known
      exact Or.inl known

/-! ## Notes -/

variable (project : String) (p : Path)

@[simp] theorem truthy_noteOf : (noteOf project p).truthy := rfl

@[simp] theorem project_noteOf : (noteOf project p).getOrNull "project" = .text project := rfl

@[simp] theorem path_noteOf : (noteOf project p).getOrNull "path" = .text p.text := rfl

@[simp] theorem text_beq (a b : String) : (text a == text b) = (a == b) := rfl

theorem int_beq (a b : Int) : (int a == int b) = (a == b) := rfl

/-! ## Fingerprints -/

theorem length_hex (width n : Nat) : width ≤ (hex width n).length := by
  simp only [hex, Text.padStart, String.length_append, String.length_ofList, length_replicate]
  omega

/-- No fingerprint is the name that the looks are kept under: it is too long for that. -/
theorem fingerprint_ne_looksKey (f : File) : fingerprint f ≠ looksKey := by
  intro same
  have long : 16 ≤ (fingerprint f).length := by
    simp only [fingerprint, Bytes.sha256, map_cons, map_nil, String.join, foldl_cons, foldl_nil, String.length_append]
    have digits : ∀ n, 8 ≤ (hex 8 n).length := length_hex 8
    generalize Bytes.hashBlocks _ _ _ = s
    have := digits s.g.toNat
    have := digits s.h.toNat
    omega
  have short : looksKey.length = 14 := rfl
  rw [same] at long
  omega

/-! ## Plain indexes -/

structure Index.Plain (i : Index) : Prop where
  notes : ∀ e ∈ i.notes, isPlain e.2
  looks : ∀ e ∈ i.looks, isPlain e.2

theorem plain_set (plain : ∀ e ∈ fs, isPlain e.2) (new : isPlain v) : ∀ e ∈ set fs key v, isPlain e.2 := by
  intro e member
  rcases mem_set member with rfl | old
  · exact new
  · exact plain e old

theorem Index.Plain.toValue (plain : i.Plain) : isPlain i.toValue := by
  have looks : isPlain (.object i.looks) := by
    rw [isPlain, isPlainFields_iff]
    exact plain.looks
  rw [Index.toValue, isPlain, isPlainFields_iff]
  exact plain_set plain.notes looks

theorem plain_noteOf : isPlain (noteOf project p) := by
  simp [noteOf, isPlain, isPlainFields]

theorem plain_digest (plain : ∀ e ∈ looks, isPlain e.2) : ∀ e ∈ (digest looks key f).2, isPlain e.2 := by
  unfold digest
  cases known : known? looks key (lookOf f) with
  | some h =>
    simp only [known]
    exact plain
  | none =>
    simp only [known]
    exact plain_set plain (by simp [Look.toValue, nat, isPlain, isPlainFields])

/-! ## The stored form -/

theorem isObject_of_stored {e : String × Value} (member : e ∈ (Index.ofValue v).notes) : e.2.isObject := by
  cases v with
  | object fs => exact (Bool.and_eq_true_iff.1 (mem_filter.1 member).2).2
  | _ => cases member

theorem get?_stored (objects : ∀ e ∈ i.notes, e.2.isObject) (h : String) :
    get? (Index.ofValue i.toValue).notes h = if h = looksKey then none else get? i.notes h := by
  have all : (Index.ofValue i.toValue).notes = erase (set i.notes looksKey (.object i.looks)) looksKey := by
    refine filter_congr fun e member => ?_
    have object : e.2.isObject := by
      rcases mem_set member with rfl | old
      · rfl
      · exact objects e old
    simp [object]
  rw [all, Fields.get?_erase, get?_set]
  split <;> rfl

theorem looks_stored (i : Index) : (Index.ofValue i.toValue).looks = i.looks := by
  simp [Index.ofValue, Index.toValue, get?_set, fieldsOrEmpty, Value.fields?]

theorem plain_stored (plain : i.Plain) : (Index.ofValue i.toValue).Plain where
  notes e member := by
    rcases mem_set (mem_filter.1 member).1 with rfl | old
    · rw [isPlain, isPlainFields_iff]
      exact plain.looks
    · exact plain.notes e old
  looks := by
    rw [looks_stored]
    exact plain.looks

/-! ## Loading -/

def held : Content → Except Fault Value
  | .document _ v => .ok v
  | c =>
    match c.text? with
    | some s => parse s
    | none => .error Disk.undecodable

/-- The index that a content holds; one that holds none counts as empty. -/
def Index.read (c : Content) : Index :=
  match held c with
  | .ok v => .ofValue v
  | .error _ => .empty

section Loading

variable {d : Disk} {file p : Path}

theorem document_of_file (found : d.file p = .ok f) : d.document p = held f.content := by
  simp only [Disk.document, Disk.content, found]
  rfl

theorem load_eq (d : Disk) (file : Path) : load d file = (d.exists? file).map fun there =>
      if there then (match d.file file with | .ok f => .read f.content | .error _ => .empty) else .empty := by
  unfold load
  cases d.exists? file with
  | error e => rfl
  | ok there =>
    cases there with
    | false => rfl
    | true =>
      cases found : d.file file with
      | error e =>
        simp only [Disk.document, Disk.content, found]
        rfl
      | ok f =>
        rw [document_of_file found]
        simp only [Index.read]
        cases held f.content <;> rfl

theorem load_eq_ok (loaded : load d file = .ok i) : i = .empty ∨ ∃ f, d.file file = .ok f ∧ i = .read f.content := by
  rw [load_eq] at loaded
  cases there : d.exists? file with
  | error e => simp [there, Except.map] at loaded
  | ok found =>
    obtain rfl := Except.ok.inj (there ▸ loaded)
    cases found with
    | false => exact Or.inl rfl
    | true =>
      cases read : d.file file with
      | error e => exact Or.inl rfl
      | ok f => exact Or.inr ⟨f, rfl, rfl⟩

theorem load_of_file (found : d.file file = .ok f) : load d file = .ok (.read f.content) := by
  rw [load_eq, Disk.exists?_of_file found, found]
  rfl

end Loading

open Disk Node Path

open Disk (Clear Frame)

variable {c : Content} {f : File} {p : Path} {t : Moment} {way : List String}

/-- A way at or below the place of a root. -/
def Below (d : Disk) (root : Path) (way : List String) : Prop :=
  ∃ place, d.locate root = .ok place ∧ place <+: way

def InRoots (d : Disk) (roots : List Path) (way : List String) : Prop :=
  ∃ root ∈ roots, Below d root way

def indexPlace (d : Disk) (file : Path) : List String := (d.absolute file).parts

def lockPlace (d : Disk) (file : Path) : List String := (d.absolute (lockOf file)).parts

/-- Roots and an index that a series of scans can start from. -/
structure Setting (d : Disk) (roots : List Path) (file : Path) : Prop where
  named : d.root.Named IsEntry
  dirs : ∀ root ∈ roots, ∃ place, d.locate root = .ok place ∧ d.root.IsDirAt place
  linkless : ∀ way, InRoots d roots way → ∀ target, d.root.at? way ≠ some (.link target)
  rooted : (d.absolute file).isAbsolute
  some_ : file.parts ≠ []
  entries : ∀ x ∈ indexPlace d file, IsEntry x
  /-- No link stands on the way to the index or in the place of its lock. -/
  clear : Clear d.root (indexPlace d file)
  clearLock : ∀ target, d.root.at? (lockPlace d file) ≠ some (.link target)
  absent : d.root.at? (indexPlace d file) = none
  outside : ¬ InRoots d roots (indexPlace d file)

/-! ## The lock -/

theorem parent_lockOf (file : Path) : (lockOf file).parent = file.parent := by
  simp [lockOf, withName, parent]

theorem isEntry_lock {x : String} (entry : IsEntry x) : IsEntry (x ++ ".lock") := by
  have long : ∀ y : String, y.length < 5 → x ++ ".lock" ≠ y := by
    intro y short same
    have := congrArg String.length same
    rw [String.length_append] at this
    have five : ".lock".length = 5 := rfl
    omega
  refine ⟨⟨long _ (by decide), long _ (by decide), ?_⟩, long _ (by decide)⟩
  rw [String.toList_append, mem_append, not_or]
  exact ⟨entry.noSlash, by decide⟩

namespace Setting

variable {d : Disk} {roots : List Path} {file : Path}

section

variable (setting : Setting d roots file)

include setting

theorem indexPlace_eq : indexPlace d file = (indexPlace d file).dropLast ++ [file.name] := by
  have own := concat_name setting.some_
  unfold indexPlace absolute join
  split
  · exact own.symm
  · simp [dropLast_append_of_ne_nil setting.some_, own]

theorem index_ne_nil : indexPlace d file ≠ [] := by
  rw [setting.indexPlace_eq]
  simp

theorem notUp_index : ".." ∉ indexPlace d file :=
  fun member => (setting.entries _ member).notUp rfl

theorem lockPlace_eq : lockPlace d file = (indexPlace d file).dropLast ++ [file.name ++ ".lock"] := by
  rw [lockPlace, lockOf, absolute_withName d setting.some_]
  rfl

theorem lock_ne_index : lockPlace d file ≠ indexPlace d file := by
  rw [setting.lockPlace_eq, setting.indexPlace_eq]
  simp

theorem lock_entries : ∀ x ∈ lockPlace d file, IsEntry x := by
  have name : file.name ∈ indexPlace d file := by
    rw [setting.indexPlace_eq]
    simp
  intro x member
  rw [setting.lockPlace_eq, mem_append, mem_singleton] at member
  rcases member with front | rfl
  · exact setting.entries x (dropLast_subset _ front)
  · exact isEntry_lock (setting.entries _ name)

theorem lock_inRoots (below : InRoots d roots (lockPlace d file)) : d.root.IsDirAt (lockPlace d file) := by
  obtain ⟨root, member, place, located, way, along⟩ := below
  obtain ⟨place', located', dir⟩ := setting.dirs root member
  obtain rfl : place = place' := by simpa [located] using located'
  by_cases whole : way = []
  · simpa [whole, ← along] using dir
  · have shorter : place <+: indexPlace d file := by
      have front := congrArg dropLast along
      rw [setting.lockPlace_eq, dropLast_concat, dropLast_append_of_ne_nil whole] at front
      have along : place <+: (indexPlace d file).dropLast := ⟨_, front⟩
      exact along.trans ( dropLast_prefix _)
    exact absurd ⟨root, member, place, located, shorter⟩ setting.outside

end

end Setting

/-! ## Kept disks -/

/-- A disk that scans of the roots can make of `start`. -/
structure Kept (start : Disk) (roots : List Path) (file : Path) (d : Disk) : Prop where
  current : d.current = start.current
  named : d.root.Named IsEntry
  dirs : ∀ way, start.root.IsDirAt way → d.root.IsDirAt way
  leaves : ∀ way, way ≠ indexPlace start file → way ≠ lockPlace start file →
    d.root.leaf? way = start.root.leaf? way ∨ (InRoots start roots way ∧ d.root.leaf? way = none)
  index : ∀ target, d.root.at? (indexPlace start file) ≠ some (.link target)
  lock : ∀ target, d.root.at? (lockPlace start file) ≠ some (.link target)

theorem not_link_of_leaf? {n : Node} (none_ : n.leaf? way = none) (target : String) :
    n.at? way ≠ some (.link target) := by
  rw [ne_eq, ← leaf?_eq_link, none_]
  simp

namespace Kept

variable {start d d' : Disk} {roots : List Path} {file : Path}

theorem refl (setting : Setting start roots file) : Kept start roots file start where
  current := rfl
  named := setting.named
  dirs _ dir := dir
  leaves _ _ _ := Or.inl rfl
  index target := by simp [setting.absent]
  lock := setting.clearLock

/-- A step that touches the index, its lock and files below the roots, and the latter only to take
them away. -/
theorem step {touched : List String → Prop} (kept : Kept start roots file d) (frame : Frame touched d d')
    (named : d'.root.Named IsEntry) (only : ∀ way, touched way →
      ((way = indexPlace start file ∨ way = lockPlace start file) ∧ ∀ target, d'.root.at? way ≠ some (.link target)) ∨
      (InRoots start roots way ∧ d'.root.leaf? way = none)) : Kept start roots file d' := by
  have noLink : ∀ way, (∀ target, d.root.at? way ≠ some (.link target)) →
      ∀ target, d'.root.at? way ≠ some (.link target) := by
    intro way before target
    by_cases here : touched way
    · rcases only way here with ⟨-, after⟩ | ⟨-, gone⟩
      · exact after target
      · exact not_link_of_leaf? gone target
    · exact fun link => before target ((frame.link here target).1 link)
  refine ⟨frame.current.trans kept.current, named, fun way dir => frame.dirs way (kept.dirs way dir),
    fun way notIndex notLock => ?_, noLink _ kept.index, noLink _ kept.lock⟩
  by_cases here : touched way
  · rcases only way here with ⟨index | lock, -⟩ | below
    · exact absurd index notIndex
    · exact absurd lock notLock
    · exact Or.inr below
  · rw [frame.leaves way here]
    exact kept.leaves way notIndex notLock

section

variable (setting : Setting start roots file) (kept : Kept start roots file d)

include setting kept

theorem link (way : List String) (target : String) :
    d.root.at? way = some (.link target) ↔ start.root.at? way = some (.link target) := by
  by_cases index : way = indexPlace start file
  · subst index
    exact iff_of_false (kept.index target) (by simp [setting.absent])
  · by_cases lock : way = lockPlace start file
    · subst lock
      exact iff_of_false (kept.lock target) (setting.clearLock target)
    · rcases kept.leaves way index lock with same | ⟨below, gone⟩
      · rw [← leaf?_eq_link, ← leaf?_eq_link, same]
      · exact iff_of_false (not_link_of_leaf? gone target) (setting.linkless way below target)

theorem linkless (below : InRoots start roots way) (target : String) : d.root.at? way ≠ some (.link target) :=
  fun link => setting.linkless way below target ((kept.link setting way target).1 link)

section

variable (below : InRoots start roots way) (there : d.root.at? way = some (.file f))

include below there

theorem apart : way ≠ indexPlace start file ∧ way ≠ lockPlace start file := by
  constructor
  · rintro rfl
    exact setting.outside below
  · rintro rfl
    obtain ⟨es, dir⟩ := kept.dirs _ (setting.lock_inRoots below)
    simp [there] at dir

theorem fileOfStart : start.root.at? way = some (.file f) := by
  obtain ⟨notIndex, notLock⟩ := kept.apart setting below there
  rw [← leaf?_eq_file] at there ⊢
  rcases kept.leaves way notIndex notLock with same | ⟨-, gone⟩
  · rw [← same, there]
  · simp [gone] at there

end

end

section

variable (kept : Kept start roots file d)

include kept

theorem absolute (p : Path) : d.absolute p = start.absolute p := by
  rw [Disk.absolute, Disk.absolute, kept.current]

theorem indexPlace_eq : indexPlace d file = indexPlace start file :=
  congrArg parts (kept.absolute file)

theorem lockPlace_eq : lockPlace d file = lockPlace start file :=
  congrArg parts (kept.absolute (lockOf file))

end

section

variable (setting : Setting start roots file) (kept : Kept start roots file d)

include setting kept

theorem locate {place : List String} (dir : start.root.IsDirAt place) (located : start.locate p = .ok place) :
    d.locate p = .ok place := by
  rw [locate_eq_ok] at located ⊢
  rw [kept.absolute]
  refine located.keep kept.dirs (fun _ _ target link => (kept.link setting _ target).2 link) ?_
  intro f there
  obtain ⟨es, dir⟩ := dir
  simp [there] at dir

theorem clear : Clear d.root (indexPlace start file) := fun along before target link =>
  setting.clear along before target ((kept.link setting along target).1 link)

theorem clearLock : Clear d.root (lockPlace start file) := by
  intro along before target
  rw [setting.lockPlace_eq] at before
  rcases prefix_concat_iff.1 before with whole | front
  · subst whole
    rw [← setting.lockPlace_eq]
    exact kept.lock target
  · exact kept.clear setting along (front.trans ( dropLast_prefix _)) target

/-! ### Steps -/

theorem parent_eq : (d.absolute file.parent).parts = (indexPlace start file).dropLast := by
  rw [kept.absolute, absolute_parent start setting.some_]
  rfl

theorem makeDirs (made : d.makeDirs file.parent = .ok d') : Kept start roots file d' := by
  have shorter := dropLast_prefix (indexPlace start file)
  refine kept.step (frame_makeDirs made) ?_ fun way impossible => impossible.elim
  refine named_makeDirs ?_ ?_ ?_ kept.named made <;> rw [kept.parent_eq setting]
  · exact fun member => setting.notUp_index (shorter.subset member)
  · exact (kept.clear setting).shorten shorter
  · exact fun x member => setting.entries x (shorter.subset member)

end

theorem write (kept : Kept start roots file d)
    (own : (start.absolute p).parts = indexPlace start file ∨ (start.absolute p).parts = lockPlace start file)
    (rooted : (start.absolute p).isAbsolute) (some_ : (start.absolute p).parts ≠ [])
    (entries : ∀ x ∈ (start.absolute p).parts, IsEntry x)
    (clear : Clear d.root (start.absolute p).parts) (written : d.write p c t = .ok d') :
    Kept start roots file d' ∧ Frame (· = (start.absolute p).parts) d d' ∧
      ∃ f, d'.root.at? (start.absolute p).parts = some (.file f) ∧ f.content = c := by
  rw [← kept.absolute] at own rooted some_ entries clear ⊢
  have plain : ".." ∉ (d.absolute p).parts := fun member => (entries _ member).notUp rfl
  have named := named_write rooted some_ plain clear entries kept.named written
  obtain ⟨frame, there⟩ := write_clear rooted some_ plain clear written
  refine ⟨kept.step frame named ?_, frame, _, there, rfl⟩
  rintro way rfl
  exact Or.inl ⟨own, fun target => by simp [there]⟩

section

variable (setting : Setting start roots file) (kept : Kept start roots file d)

include setting kept

theorem writeIndex (written : d.write file c t = .ok d') : Kept start roots file d' ∧
    Frame (· = indexPlace start file) d d' ∧ ∃ f, d'.root.at? (indexPlace start file) = some (.file f) ∧ f.content = c :=
  kept.write (Or.inl rfl) setting.rooted setting.index_ne_nil setting.entries (kept.clear setting) written

theorem writeLock (written : d.write (lockOf file) c t = .ok d') : Kept start roots file d' ∧
    Frame (· = lockPlace start file) d d' ∧ ∃ f, d'.root.at? (lockPlace start file) = some (.file f) ∧ f.content = c := by
  have rooted : (start.absolute (lockOf file)).isAbsolute := by
    rw [lockOf, absolute_withName start setting.some_]
    exact setting.rooted
  have some_ : lockPlace start file ≠ [] := by simp [setting.lockPlace_eq]
  exact kept.write (Or.inr rfl) rooted some_ setting.lock_entries (kept.clearLock setting) written

end

end Kept

end Folio.Dedup

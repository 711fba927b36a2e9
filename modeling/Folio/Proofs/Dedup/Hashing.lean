/-
# Proofs.Dedup.Hashing -- remembered fingerprints are those of the files

The looks spare a scan the reading of files that it knows.  A `Printing` is a way to find fingerprints.  Three are
compared here: `digest`, which asks the looks first; `afresh`, which reads every file in full and keeps the looks up to
date; and `lookless`, which keeps no looks at all.

Between the first two nothing differs.  Every look that is held is one of a file that was seen, with its fingerprint
(`Right`); where size, times and first bytes decide the content of a path, a file that looks like the one seen has its
content (`digest_eq_afresh`).  The index is read back from the disk for every run, so `Right` has to hold of what is
stored (`Told`).

The last two differ in the looks that they store.  Of the index only the notes matter: two runs over disks that agree
but for looks give the same results and leave such disks again (`Alike.run`).
-/
import Folio.Proofs.Dedup.Runs
import Folio.Proofs.Disk.Contents
import Folio.Proofs.Disk.Reading

namespace Folio.Dedup

open Action Disk Except Fields List Or Scan Value

variable {fit : Fields → Prop} {h : String}

/-! ## Ways to find fingerprints -/

/-- A way to find the fingerprint of a file, with the looks after that. -/
abbrev Printing := Fields → String → File → String × Fields

/-- Read every file in full, and keep the looks up to date. -/
def afresh : Printing := fun looks key f =>
  (fingerprint f, set looks key ((lookOf f).toValue (fingerprint f)))

/-- Read every file in full, and keep no looks. -/
def lookless : Printing := fun looks _ f => (fingerprint f, looks)

def Scan.visitBy (print : Printing) (remove : Bool) (project : String) (s : Scan) (p : Path) : Scan :=
  match s.disk.file p with
  | .error _ => s
  | .ok f =>
    let found := print s.index.looks (s.disk.resolved p).text f
    (s.withLooks found.2).judge remove project p found.1

def scanBy (print : Printing) (d : Disk) (index : Index) (remove : Bool) (root : Path) : Scan :=
  (d.below root).foldl (visitBy print remove root.name) ⟨d, index, 0, []⟩

def opening (file : Path) : Action Index := do
  makeDirs (lockOf file).parent
  writeText (lockOf file) ""
  ask fun d => load d file

def closing (file : Path) (s : Scan) : Action Outcome := do
  modify fun w => { w with disk := s.disk }
  store file layout s.index.toValue
  return ⟨s.unique, s.duplicates, s.index.notes.length⟩

def runBy (print : Printing) (root file : Path) (remove locked : Bool) : Action Outcome :=
  if locked then return .none
  else do
    let index ← opening file
    let d ← disk
    closing file (scanBy print d index remove root)

theorem scan_eq_scanBy : scan = scanBy digest := rfl

theorem run_eq_runBy (root file : Path) (remove locked : Bool) :
    run root file remove locked = runBy digest root file remove locked := by
  cases locked with
  | true => rfl
  | false => simp [run, runBy, opening, closing, scan_eq_scanBy]

/-! ## What was seen -/

/-- A file that a scan looked at, under the text of its real path. -/
structure Sight where
  key : String
  file : File

def Scan.sight? (s : Scan) (p : Path) : Option Sight :=
  match s.disk.file p with
  | .ok f => some ⟨(s.disk.resolved p).text, f⟩
  | .error _ => none

/-- The files that are looked at on the way through a list of paths. -/
def sightsBy (print : Printing) (remove : Bool) (project : String) : Scan → List Path → List Sight
  | _, [] => []
  | s, p :: ps => (s.sight? p).toList ++ sightsBy print remove project (s.visitBy print remove project p) ps

/-- Under each path, size, times and first bytes decide the content. -/
def Determined (all : List Sight) : Prop :=
  ∀ a ∈ all, ∀ b ∈ all, a.key = b.key → a.file.content.size = b.file.content.size →
    a.file.modified.sinceEpoch = b.file.modified.sinceEpoch → a.file.changed = b.file.changed →
    a.file.content.toBytes.take headSize = b.file.content.toBytes.take headSize →
    a.file.content.toBytes = b.file.content.toBytes

def heads (all : List Sight) : Set Bytes := { bs | ∃ a ∈ all, a.file.content.toBytes.take headSize = bs }

/-- Every look that is held is one of a file that was seen, with the fingerprint of that file. -/
def Right (past : List Sight) (looks : Fields) : Prop :=
  ∀ key v, get? looks key = some v →
    ∃ a ∈ past, a.key = key ∧ v = (lookOf a.file).toValue (fingerprint a.file)

section Looks

variable {past all : List Sight} {looks : Fields} {key : String} {f : File}

theorem right_nil (past : List Sight) : Right past [] := fun key v found => by simp [Fields.get?] at found

theorem Right.mono {more : List Sight} (right : Right past looks) (subset : past ⊆ more) : Right more looks := by
  intro key v found
  obtain ⟨a, member, same, eq⟩ := right key v found
  exact ⟨a, subset member, same, eq⟩

theorem Right.afresh (right : Right past looks) (key : String) (f : File) :
    Right (past ++ [⟨key, f⟩]) (afresh looks key f).2 := by
  intro other v found
  rw [Dedup.afresh, get?_set] at found
  split at found
  · rename_i same
    exact ⟨⟨key, f⟩, by simp, same.symm, (Option.some.inj found).symm⟩
  · exact right.mono (subset_append_left _ _) other v found

theorem Right.erase (right : Right past looks) (key : String) : Right past (erase looks key) := by
  intro other v found
  rw [Fields.get?_erase] at found
  split at found
  · cases found
  · exact right other v found

theorem known?_toValue {l l' : Look} {h' : String} (held : get? looks key = some (l.toValue h))
    (known : known? looks key l' = some h') :
    h' = h ∧ l.size = l'.size ∧ l.modified = l'.modified ∧ l.changed = l'.changed ∧ l.head = l'.head := by
  simp only [known?, held, Look.toValue] at known
  split at known
  · rename_i same
    have told : h' = h := (Option.some.inj known).symm
    have agree : ((int l.size == int l'.size && int l.modified == int l'.modified) &&
        int l.changed == int l'.changed && text l.head == text l'.head) := same
    simp only [int_beq, text_beq, Bool.and_eq_true, beq_iff_eq, Int.natCast_inj] at agree
    obtain ⟨⟨⟨size, modified⟩, changed⟩, head⟩ := agree
    exact ⟨told, size, modified, changed, head⟩
  · cases known

theorem digest_eq_afresh (right : Right past looks) (subset : past ⊆ all) (member : ⟨key, f⟩ ∈ all)
    (determined : Determined all) (injective : Set.InjOn Bytes.sha256 (heads all)) :
    digest looks key f = afresh looks key f := by
  unfold digest
  cases known : known? looks key (lookOf f) with
  | none => simp [known, afresh]
  | some h =>
    obtain ⟨v, held⟩ := held_of_known known
    obtain ⟨a, seen, sameKey, rfl⟩ := right key v held
    obtain ⟨rfl, size, modified, changed, head⟩ := known?_toValue held known
    have sameHead : a.file.content.toBytes.take headSize = f.content.toBytes.take headSize :=
      injective ⟨a, subset seen, rfl⟩ ⟨⟨key, f⟩, member, rfl⟩ head
    have sameTime : a.file.modified.sinceEpoch = f.modified.sinceEpoch := by
      simp only [lookOf] at modified
      omega
    have same : a.file.content.toBytes = f.content.toBytes :=
      determined a (subset seen) ⟨key, f⟩ member sameKey size sameTime changed sameHead
    have print : fingerprint a.file = fingerprint f := by rw [fingerprint, same, fingerprint]
    have look : lookOf a.file = lookOf f := by
      have parts : ∀ l l' : Look, l.size = l'.size → l.modified = l'.modified → l.changed = l'.changed →
          l.head = l'.head → l = l' := by
        rintro ⟨_, _, _, _⟩ ⟨_, _, _, _⟩ rfl rfl rfl rfl
        rfl
      exact parts _ _ size modified changed head
    rw [look, print] at held
    simp [known, afresh, print, set_of_get? held]

/-! ## One scan -/

variable {remove : Bool} {project : String} {s : Scan} {p : Path}

theorem looks_judge {fit : Fields → Prop} (forget : ∀ looks key, fit looks → fit (erase looks key))
    (held : fit s.index.looks) : fit (s.judge remove project p h).index.looks := by
  rcases judge_cases s remove project p h with ⟨same, -⟩ | ⟨note, -, -, same⟩ <;> rw [same]
  · exact held
  · rcases report_cases s remove _ p with same | ⟨d, -, -, same⟩ <;> rw [same]
    · exact held
    · exact forget _ _ held

theorem sight?_of_file (found : s.disk.file p = .ok f) : s.sight? p = some ⟨(s.disk.resolved p).text, f⟩ := by
  simp [sight?, found]

theorem scan_eq_afresh (determined : Determined all) (injective : Set.InjOn Bytes.sha256 (heads all))
    (ps : List Path) (s : Scan) (past : List Sight) (right : Right past s.index.looks) (subset : past ⊆ all)
    (seen : sightsBy digest remove project s ps ⊆ all) :
    ps.foldl (visitBy digest remove project) s = ps.foldl (visitBy afresh remove project) s ∧
      sightsBy digest remove project s ps = sightsBy afresh remove project s ps ∧
      Right (past ++ sightsBy digest remove project s ps) (ps.foldl (visitBy digest remove project) s).index.looks := by
  induction ps generalizing s past with
  | nil =>
    rw [foldl_nil, sightsBy, append_nil]
    exact ⟨rfl, rfl, right⟩
  | cons p ps ih =>
    rw [sightsBy] at seen
    cases found : s.disk.file p with
    | error e =>
      have skip : ∀ print, s.visitBy print remove project p = s := by
        intro print
        simp [visitBy, found]
      have none_ : s.sight? p = none := by simp [sight?, found]
      rw [skip, none_] at seen
      rw [foldl_cons, foldl_cons, sightsBy, sightsBy, none_, skip, skip]
      exact ih s past right subset (by simpa using seen)
    | ok f =>
      have sight := sight?_of_file found
      rw [sight] at seen
      have member : ⟨(s.disk.resolved p).text, f⟩ ∈ all := seen (by simp)
      have same : s.visitBy digest remove project p = s.visitBy afresh remove project p := by
        simp [visitBy, found, digest_eq_afresh right subset member determined injective]
      have rightNow : Right (past ++ [⟨(s.disk.resolved p).text, f⟩])
          (s.visitBy digest remove project p).index.looks := by
        rw [same]
        simp only [visitBy, found]
        exact looks_judge (fun _ key right => right.erase key) (right.afresh _ f)
      obtain ⟨rest, restSeen, rightThen⟩ := ih _ _ rightNow (append_subset.2 ⟨subset, by simpa using member⟩)
        (fun a later => seen (mem_append_right _ later))
      rw [foldl_cons, foldl_cons, sightsBy, sightsBy, sight, ← same, ← restSeen]
      exact ⟨rest, rfl, by simpa using rightThen⟩

end Looks

/-! ## The stored index -/

/-- What is read under a path after a step was read before, or its content is new. -/
def Stems (file : Path) (new : Content → Prop) (d d' : Disk) : Prop :=
  ∀ f, d'.file file = .ok f → d.file file = .ok f ∨ new f.content

/-- The looks that are read under a path are fit. -/
def Told (fit : Fields → Prop) (file : Path) (d : Disk) : Prop :=
  ∀ f, d.file file = .ok f → fit (Index.read f.content).looks

section Stored

variable {d d' d'' : Disk} {file root p : Path} {i : Index} {new : Content → Prop}

theorem Stems.refl (d : Disk) : Stems file new d d := fun _ => inl

theorem Stems.trans (first : Stems file new d d') (second : Stems file new d' d'') : Stems file new d d'' :=
  fun f found => (second f found).elim (first f) inr

theorem Told.stems (told : Told fit file d) (stems : Stems file new d d')
    (fits : ∀ c, new c → fit (Index.read c).looks) : Told fit file d' := by
  intro f found
  rcases stems f found with before | fresh
  · exact told f before
  · exact fits _ fresh

theorem stems_makeDirs (rooted : file.isAbsolute) (plain : ".." ∉ file.parts)
    (made : d.makeDirs file.parent = .ok d') : Stems file new d d' := by
  intro f found
  refine inl ?_
  have rootedParent : file.parent.isAbsolute := rooted
  by_cases none_ : file.parts = []
  · have parts : (d.absolute file.parent).parts = [] := by
      rw [absolute_of_isAbsolute rootedParent]
      simp [Path.parent, none_]
    obtain rfl : d = d' := by simpa [Disk.makeDirs, parts, Disk.makeDirs.go] using made
    exact found
  · have split : file = file.parent.entry file.name := by
      have parts := concat_name none_
      rw [Path.entry, Path.parent, parts]
    rw [split] at found ⊢
    refine file_of_makeDirs ?_ ?_ made found
    · rw [absolute_of_isAbsolute rootedParent]
      exact fun up => plain (dropLast_subset _ up)
    · rintro up
      exact plain (by rw [← concat_name none_, up]; simp)

theorem stems_write {c : Content} {t : Moment} (written : d.write p c t = .ok d') : Stems file (· = c) d d' := by
  intro f found
  exact (file_of_write written found).imp_right fun same => by rw [same]

theorem read_lock : Index.read (.text "") = .empty := rfl

/-! ### The steps of a run -/

variable {w w' : Workspace} {s : Scan} {remove locked : Bool}

theorem stems_opening (rooted : file.isAbsolute) (plain : ".." ∉ file.parts) (w : Workspace) :
    Stems file (· = .text "") w.disk ((opening file).outcome w).2.disk := by
  simp only [opening, parent_lockOf, writeText]
  rw [outcome_bind, outcome_makeDirs]
  cases made : w.disk.makeDirs file.parent with
  | error e => exact .refl _
  | ok d =>
    have first : Stems file (· = .text "") w.disk d := stems_makeDirs rooted plain made
    simp only
    rw [outcome_bind, outcome_write]
    cases taken : d.write (lockOf file) (.text "") w.now with
    | error e => exact first
    | ok d' => exact first.trans (stems_write taken)

theorem loaded_of_opening (opened : (opening file).outcome w = (.ok i, w')) : load w'.disk file = .ok i := by
  simp only [opening] at opened
  rw [outcome_bind] at opened
  split at opened
  · rw [outcome_bind] at opened
    split at opened
    · obtain ⟨loaded, rfl⟩ := Prod.mk.inj opened
      exact loaded
    · simp at opened
  · simp at opened

variable (print : Printing)

theorem stems_visitBy (remove : Bool) (project : String) (s : Scan) (p : Path) :
    Stems file new s.disk (s.visitBy print remove project p).disk := by
  intro f found
  refine inl ?_
  have judged (s : Scan) (h : String) (found : (s.judge remove project p h).disk.file file = .ok f) :
      s.disk.file file = .ok f := by
    rcases judge_cases s remove project p h with ⟨same, -⟩ | ⟨note, -, -, same⟩ <;> rw [same] at found
    · exact found
    · rcases report_cases s remove _ p with same | ⟨d, -, unlinked, same⟩ <;> rw [same] at found
      · exact found
      · exact file_of_unlink unlinked found
  unfold visitBy at found
  split at found
  · exact found
  · exact (judged _ _ found :)

theorem stems_scanBy (d : Disk) (i : Index) (remove : Bool) (root : Path) :
    Stems file new d (scanBy print d i remove root).disk :=
  foldlRecOn (motive := fun s : Scan => Stems file new d s.disk) _ _ (.refl d) fun s before p _ =>
    before.trans (stems_visitBy print remove root.name s p)

theorem stems_closing (rooted : file.isAbsolute) (plain : ".." ∉ file.parts) (s : Scan) (w : Workspace) :
    Stems file (· = .document layout s.index.toValue) s.disk ((closing file s).outcome w).2.disk := by
  simp only [closing]
  rw [bind_of_ok (outcome_modify _ _), outcome_bind, outcome_store]
  cases made : s.disk.makeDirs file.parent with
  | error e => exact .refl _
  | ok d =>
    have first : Stems file (· = .document layout s.index.toValue) s.disk d := stems_makeDirs rooted plain made
    cases Json.isPlain s.index.toValue with
    | false => exact first
    | true =>
      simp only [outcome_write]
      cases written : d.write file (.document layout s.index.toValue) w.now with
      | error e => exact first
      | ok d' => exact first.trans (stems_write written)

theorem Told.opening (rooted : file.isAbsolute) (plain : ".." ∉ file.parts)
    (empty : fit []) (told : Told fit file w.disk) (opened : (opening file).outcome w = (.ok i, w')) :
    Told fit file w'.disk ∧ fit i.looks := by
  have stems := stems_opening rooted plain w
  rw [opened] at stems
  have now : Told fit file w'.disk := told.stems stems fun c lock => by rw [lock, read_lock]; exact empty
  rcases load_eq_ok (loaded_of_opening opened) with rfl | ⟨f, found, rfl⟩
  · exact ⟨now, empty⟩
  · exact ⟨now, now f found⟩

theorem Told.run {fit' : Fields → Prop} (root : Path) (remove locked : Bool)
    (rooted : file.isAbsolute) (plain : ".." ∉ file.parts) (empty : fit []) (weaker : ∀ looks, fit looks → fit' looks)
    (told : Told fit file w.disk)
    (scans : locked = false → ∀ i w', (Dedup.opening file).outcome w = (.ok i, w') → fit i.looks →
      fit' (scanBy print w'.disk i remove root).index.looks) :
    Told fit' file ((runBy print root file remove locked).outcome w).2.disk := by
  cases locked with
  | true => exact fun f found => weaker _ (told f found)
  | false =>
    simp only [runBy, Bool.false_eq_true, if_false]
    rw [outcome_bind]
    cases opened : (Dedup.opening file).outcome w with
    | mk r w' =>
      cases r with
      | error e =>
        have stems := stems_opening rooted plain w
        rw [opened] at stems
        exact fun f found => weaker _ (told.stems stems (fun c lock => by rw [lock, read_lock]; exact empty) f found)
      | ok i =>
        obtain ⟨now, fits⟩ := told.opening rooted plain empty opened
        have scanned : Told fit' file (scanBy print w'.disk i remove root).disk :=
          Told.stems (fun f found => weaker _ (now f found)) (stems_scanBy print _ i remove root)
            fun _ (impossible : False) => impossible.elim
        refine scanned.stems (stems_closing rooted plain _ w') fun c same => ?_
        rw [same, show (Index.read (.document _ _)).looks = _ from looks_stored _]
        exact scans rfl i w' opened fits

end Stored

/-! ## Whole runs -/

/-- A step of a history: a run of a scan, or a change that others make to the disk. -/
inductive Step where
  | call (pass : Pass)
  | change (become : Disk → Disk)

def Pass.runBy (print : Printing) (file : Path) (pass : Pass) (w : Workspace) : Except Fault Outcome × Workspace :=
  (Dedup.runBy print pass.root file pass.remove pass.locked).outcome { w with now := pass.now }

def Step.run (call : Pass → Workspace → Except Fault Outcome × Workspace) :
    Step → Workspace → Option (Except Fault Outcome) × Workspace
  | .call pass, w => (some (call pass w).1, (call pass w).2)
  | .change become, w => (none, { w with disk := become w.disk })

/-- What the steps of a history give, each with the workspace after it. -/
def trace (call : Pass → Workspace → Except Fault Outcome × Workspace) :
    List Step → Workspace → List (Option (Except Fault Outcome) × Workspace)
  | [], _ => []
  | step :: steps, w => step.run call w :: trace call steps (step.run call w).2

def Pass.sights (print : Printing) (file : Path) (pass : Pass) (w : Workspace) : List Sight :=
  if pass.locked then []
  else
    match (opening file).outcome { w with now := pass.now } with
    | (.ok i, w') => sightsBy print pass.remove pass.root.name ⟨w'.disk, i, 0, []⟩ (w'.disk.below pass.root)
    | (.error _, _) => []

def sights (print : Printing) (file : Path) : List Step → Workspace → List Sight
  | [], _ => []
  | .call pass :: steps, w => pass.sights print file w ++ sights print file steps (pass.runBy print file w).2
  | .change become :: steps, w => sights print file steps { w with disk := become w.disk }

/-- No change of a history brings anything under the path of the index. -/
def Apart (print : Printing) (file : Path) : List Step → Workspace → Prop
  | [], _ => True
  | .call pass :: steps, w => Apart print file steps (pass.runBy print file w).2
  | .change become :: steps, w =>
    (∀ f, (become w.disk).file file = .ok f → w.disk.file file = .ok f) ∧
      Apart print file steps { w with disk := become w.disk }

section Histories

variable {file : Path} {w w' : Workspace} {past all : List Sight} {pass : Pass} {i : Index}

theorem Pass.run_eq_runBy (file : Path) (pass : Pass) (w : Workspace) : pass.run file w = pass.runBy digest file w := by
  rw [Pass.run, Pass.runBy, Dedup.run_eq_runBy]

theorem Pass.of_opened (print : Printing) (free : pass.locked = false)
    (opened : (opening file).outcome { w with now := pass.now } = (.ok i, w')) :
    pass.runBy print file w = (closing file (scanBy print w'.disk i pass.remove pass.root)).outcome w' ∧
      pass.sights print file w =
        sightsBy print pass.remove pass.root.name ⟨w'.disk, i, 0, []⟩ (w'.disk.below pass.root) := by
  simp only [Pass.runBy, Dedup.runBy, Pass.sights, free, opened, Bool.false_eq_true, if_false, and_true]
  rw [bind_of_ok opened, bind_of_ok (outcome_disk _)]

section

variable (determined : Determined all) (injective : Set.InjOn Bytes.sha256 (heads all))
  (rooted : file.isAbsolute) (plain : ".." ∉ file.parts)

include determined injective rooted plain

/-- One run: asking the looks and reading every file come to the same, and what is stored is right. -/
theorem Pass.run_eq_afresh (pass : Pass) (told : Told (Right past) file w.disk)
    (subset : past ⊆ all) (seen : pass.sights digest file w ⊆ all) :
    pass.runBy digest file w = pass.runBy afresh file w ∧ pass.sights digest file w = pass.sights afresh file w ∧
      Told (Right (past ++ pass.sights digest file w)) file (pass.runBy digest file w).2.disk := by
  -- Whatever the run loads, its scan is the same both ways.
  have scans : pass.locked = false → ∀ i w', (opening file).outcome { w with now := pass.now } = (.ok i, w') →
      Right past i.looks →
      scanBy digest w'.disk i pass.remove pass.root = scanBy afresh w'.disk i pass.remove pass.root ∧
        pass.sights digest file w = pass.sights afresh file w ∧
        Right (past ++ pass.sights digest file w) (scanBy digest w'.disk i pass.remove pass.root).index.looks := by
    intro free i w' opened right
    rw [(Pass.of_opened digest free opened).2] at seen ⊢
    rw [(Pass.of_opened afresh free opened).2]
    exact scan_eq_afresh determined injective (w'.disk.below pass.root) ⟨w'.disk, i, 0, []⟩ past right subset seen
  have stored : Told (Right (past ++ pass.sights digest file w)) file (pass.runBy digest file w).2.disk :=
    Told.run digest pass.root pass.remove pass.locked rooted plain (right_nil past)
      (fun looks right => right.mono (subset_append_left _ _)) told
      fun free i w' opened right => (scans free i w' opened right).2.2
  refine and_assoc.1 ⟨?_, stored⟩
  cases locked : pass.locked with
  | true => simp [Pass.runBy, Dedup.runBy, Pass.sights, locked]
  | false =>
    cases opened : (opening file).outcome { w with now := pass.now } with
    | mk r w' =>
      cases r with
      | error e =>
        simp [Pass.runBy, Dedup.runBy, Pass.sights, locked, opened, outcome_bind]
      | ok i =>
        obtain ⟨-, right⟩ := Told.opening rooted plain (right_nil past) (w := { w with now := pass.now }) told opened
        obtain ⟨same, seenSame, -⟩ := scans locked i w' opened right
        refine ⟨?_, seenSame⟩
        rw [(Pass.of_opened digest locked opened).1, (Pass.of_opened afresh locked opened).1, same]

theorem trace_eq_afresh (steps : List Step) (w : Workspace)
    (past : List Sight) (told : Told (Right past) file w.disk) (subset : past ⊆ all)
    (seen : sights digest file steps w ⊆ all) (apart : Apart digest file steps w) :
    trace (Pass.run file) steps w = trace (Pass.runBy afresh file) steps w ∧
      sights digest file steps w = sights afresh file steps w ∧ Apart afresh file steps w := by
  induction steps generalizing w past with
  | nil =>
    rw [sights]
    exact ⟨rfl, rfl, trivial⟩
  | cons step steps ih =>
    cases step with
    | call pass =>
      have now : pass.sights digest file w ⊆ all := fun a member => seen (mem_append_left _ member)
      obtain ⟨same, sameSights, toldThen⟩ :=
        pass.run_eq_afresh determined injective rooted plain told subset now
      obtain ⟨rest, restSights, restApart⟩ := ih _ _ toldThen (append_subset.2 ⟨subset, now⟩)
        (fun a member => seen (mem_append_right _ member)) apart
      rw [same] at rest restSights restApart
      refine ⟨?_, by rw [sights, sights, same, restSights, sameSights], restApart⟩
      simp only [trace, Step.run]
      rw [Pass.run_eq_runBy, same, rest]
    | change become =>
      obtain ⟨keeps, apartThen⟩ := apart
      obtain ⟨rest, restSights, restApart⟩ := ih { w with disk := become w.disk } past
        (fun f found => told f (keeps f found)) subset seen apartThen
      refine ⟨?_, by rw [sights, sights, restSights], keeps, restApart⟩
      simp only [trace, Step.run]
      rw [rest]

end

end Histories

end Folio.Dedup

/-
# Proofs.Dedup.Scan -- what one scan does to the disk and to the index

An index is sound on a disk when each of its notes names a root and a file below it that still has the noted
fingerprint, and when its looks are right (`Sound`).  One visit keeps the index sound (`Scanning.visit`): a duplicate is
deleted only on the word of a note of another name, whose file is another one.

The stored index has to stay sound as well, since a scan may fail before it is saved.  Whatever was noted when the scan
began is still noted under the same name (`Covers`), so the files behind the old notes are as safe as those behind the
new ones.
-/
import Folio.Proofs.Dedup.Roots

namespace Folio.Dedup

open Disk Fields List Node Or Path

open Disk (Frame Walk)

variable {name : String} {o q : Path}

/-- No file lies below two roots of different names. -/
def Unshared (d : Disk) (roots : List Path) : Prop :=
  ∀ first ∈ roots, ∀ second ∈ roots, first.name ≠ second.name → ∀ way f,
    d.root.at? way = some (.file f) → Below d first way → ¬ Below d second way

/-- A path that continues the path of a root by names of entries. -/
def Continues (root p : Path) (rel : List String) : Prop :=
  p = ⟨root.root, root.parts ++ rel⟩ ∧ rel ≠ [] ∧ ∀ x ∈ rel, IsEntry x

/-- A note of a file below a root that still stands there with the fingerprint. -/
def Vouched (start : Disk) (roots : List Path) (d : Disk) (h : String) (note : Value) : Prop :=
  ∃ root ∈ roots, ∃ p rel way f, Continues root p rel ∧ note = noteOf root.name p ∧
    d.locate p = .ok way ∧ Below start root way ∧ d.root.at? way = some (.file f) ∧ fingerprint f = h

/-- An index that says the truth about the files below the roots. -/
structure Sound (start : Disk) (roots : List Path) (d : Disk) (i : Index) : Prop where
  plain : i.Plain
  objects : ∀ e ∈ i.notes, e.2.isObject
  notes : ∀ h note, get? i.notes h = some note → Vouched start roots d h note
  looks : ∀ way f h, InRoots start roots way → d.root.at? way = some (.file f) →
    known? i.looks (mk "/" way).text (lookOf f) = some h → h = fingerprint f

section

variable {start d d' : Disk} {roots : List Path} {file root p : Path} {rel way : List String} {f : File}
  {i : Index}

/-! ## Listed paths -/

theorem continues_of_mem_below (kept : Kept start roots file d) (listed : p ∈ d.below root) :
    ∃ rel, Continues root p rel := by
  unfold below at listed
  split at listed
  · rename_i n found
    obtain ⟨e, member, rfl⟩ := mem_map.1 listed
    obtain ⟨place, -, there⟩ := node_eq_ok.1 found
    obtain ⟨rel, some_, entries, path⟩ := of_mem_inside root n (named_at? kept.named there).2 e member
    exact ⟨rel, path, some_, entries⟩
  · simp at listed

theorem Continues.walk (continues : Continues root p rel) (setting : Setting start roots file)
    (kept : Kept start roots file d) (member : root ∈ roots) {last : Bool}
    (walk : Walk d.root last stepLimit [] (d.absolute p).parts way) :
    Below start root way ∧ ∃ place, start.locate root = .ok place ∧ way = place ++ rel := by
  obtain ⟨rfl, some_, entries⟩ := continues
  obtain ⟨place, located, dir⟩ := setting.dirs root member
  have toRoot := locate_eq_ok.1 (kept.locate setting dir located)
  rw [absolute_append] at walk
  have along : way = place ++ rel := by
    refine toRoot.append walk Walk.trodden_nil (inl some_) (fun up => (entries _ up).notUp rfl) fun more _ target => ?_
    exact kept.linkless setting ⟨root, member, place, located, prefix_append _ _⟩ target
  exact ⟨⟨place, located, by rw [along]; exact prefix_append _ _⟩, place, located, along⟩

/-! ## Sound indexes -/

theorem sound_empty (start : Disk) (roots : List Path) (d : Disk) : Sound start roots d .empty where
  plain := ⟨nofun, nofun⟩
  objects := nofun
  notes := nofun
  looks := nofun

theorem Sound.stored (sound : Sound start roots d i) : Sound start roots d (.ofValue i.toValue) where
  plain := plain_stored sound.plain
  objects e member := isObject_of_stored member
  notes h note found := by
    rw [get?_stored sound.objects] at found
    split at found
    · cases found
    · exact sound.notes h note found
  looks := by
    rw [looks_stored]
    exact sound.looks

theorem parts_of_text {a b : List String} (names : ∀ x ∈ a, IsName x) (names' : ∀ x ∈ b, IsName x)
    (same : (mk "/" a).text = (mk "/" b).text) : a = b := by
  have read {parts : List String} (names : ∀ x ∈ parts, IsName x) :
      ofString (mk "/" parts).text = ⟨"/", parts⟩ := ofString_text ⟨inr (inl rfl), names⟩
  have back := congrArg ofString same
  rw [read names, read names'] at back
  exact (mk.inj back).2

theorem text_inj (kept : Kept start roots file d) {other : List String} {g : File}
    (there : d.root.at? way = some (.file f)) (there' : d.root.at? other = some (.file g))
    (same : (mk "/" other).text = (mk "/" way).text) : other = way := by
  have names {way : List String} {f : File} (there : d.root.at? way = some (.file f)) :
      ∀ x ∈ way, IsName x := fun x member => ((named_at? kept.named there).1 x member).toIsName
  exact parts_of_text (names there') (names there) same

section

variable (sound : Sound start roots d i)

include sound

theorem Sound.look (kept : Kept start roots file d) (there : d.root.at? way = some (.file f)) :
    Sound start roots d { i with looks := (digest i.looks (Path.mk "/" way).text f).2 } where
  plain := ⟨sound.plain.notes, plain_digest sound.plain.looks⟩
  objects := sound.objects
  notes := sound.notes
  looks other g h below there' known := by
    rcases known?_digest known with before | ⟨same, rfl⟩
    · exact sound.looks other g h below there' before
    · obtain rfl := text_inj kept there there' same
      obtain rfl : f = g := by simpa [there] using there'
      rfl

theorem Sound.note {h : String} {note : Value}
    (vouched : Vouched start roots d h note) : Sound start roots d { i with notes := set i.notes h note } where
  plain := by
    obtain ⟨root, -, p, -, -, -, -, rfl, -⟩ := vouched
    exact ⟨plain_set sound.plain.notes (plain_noteOf root.name p), sound.plain.looks⟩
  objects e member := by
    rcases mem_set member with rfl | old
    · obtain ⟨root, -, p, -, -, -, -, rfl, -⟩ := vouched
      rfl
    · exact sound.objects e old
  notes h' note' found := by
    rw [get?_set] at found
    split at found
    · rename_i same
      obtain rfl : note = note' := by simpa using found
      exact same ▸ vouched
    · exact sound.notes h' note' found
  looks := sound.looks

theorem Sound.forget (key : String) : Sound start roots d { i with looks := erase i.looks key } where
  plain := ⟨sound.plain.notes, fun e member => sound.plain.looks e (mem_filter.1 member).1⟩
  objects := sound.objects
  notes := sound.notes
  looks way f h below there known := sound.looks way f h below there (known?_erase known)

end

theorem Vouched.drop {h : String} {note : Value} (vouched : Vouched start roots d h note)
    (frame : Frame (· = way) d d') (there : d.root.at? way = some (.file f))
    (other : ∀ root ∈ roots, ∀ p, note = noteOf root.name p → h = fingerprint f → ¬ Below start root way) :
    Vouched start roots d' h note := by
  obtain ⟨root, member, p, rel, place, g, continues, rfl, located, below, atPlace, rfl⟩ := vouched
  have apart : place ≠ way := by
    rintro rfl
    obtain rfl : f = g := by simpa [there] using atPlace
    exact other root member p rfl rfl below
  have links : ∀ along target, d.root.at? along = some (.link target) → along ≠ way := by
    rintro along target link rfl
    simp [there] at link
  exact ⟨root, member, p, rel, place, g, continues, rfl, frame.locate links (inr apart) located, below,
    (frame.file apart g).2 atPlace, rfl⟩

theorem Sound.drop (sound : Sound start roots d i) (frame : Frame (· = way) d d')
    (there : d.root.at? way = some (.file f)) (gone : d'.root.leaf? way = none)
    (other : ∀ note, get? i.notes (fingerprint f) = some note →
      ∀ root ∈ roots, ∀ p, note = noteOf root.name p → ¬ Below start root way) : Sound start roots d' i where
  plain := sound.plain
  objects := sound.objects
  notes h note found := by
    refine (sound.notes h note found).drop frame there fun root member p same eq => ?_
    subst eq
    exact other note found root member p same
  looks place g h below there' known := by
    have apart : place ≠ way := by
      rintro rfl
      rw [← leaf?_eq_file, gone] at there'
      cases there'
    exact sound.looks place g h below ((frame.file apart g).1 there') known

/-! ## One visit -/

/-- A note that the files of a project replace by their own. -/
def isOwn (project : String) (note : Value) : Bool := !note.truthy || note.getOrNull "project" == .text project

theorem isOwn_noteOf (project name : String) (p : Path) : isOwn project (noteOf name p) = (name == project) := by
  simp [isOwn]

def Scan.judge (remove : Bool) (project : String) (s : Scan) (p : Path) (h : String) : Scan :=
  match get? s.index.notes h with
  | some note =>
    if !note.truthy || note.getOrNull "project" == .text project then s.note project h p
    else s.report remove ⟨note.getOrNull "path", note.getOrNull "project"⟩ p
  | none => s.note project h p

def Scan.withLooks (s : Scan) (looks : Fields) : Scan := { s with index := { s.index with looks } }

def Scan.looked (s : Scan) (key : String) (f : File) : Scan :=
  { s with index := { s.index with looks := (digest s.index.looks key f).2 } }

variable {s : Scan} {remove : Bool} {project key h : String}

theorem judge_cases (s : Scan) (remove : Bool) (project : String) (p : Path) (h : String) :
    (s.judge remove project p h = s.note project h p ∧ ∀ note, get? s.index.notes h = some note → isOwn project note) ∨
    ∃ note, get? s.index.notes h = some note ∧ isOwn project note = false ∧
      s.judge remove project p h = s.report remove ⟨note.getOrNull "path", note.getOrNull "project"⟩ p := by
  unfold Scan.judge
  cases get? s.index.notes h with
  | none => exact inl ⟨rfl, nofun⟩
  | some note =>
    cases own : isOwn project note with
    | true => exact inl ⟨if_pos own, fun _ same => Option.some.inj same ▸ own⟩
    | false => exact inr ⟨note, rfl, own, if_neg (ne_true_of_eq_false own)⟩

theorem report_cases (s : Scan) (remove : Bool) (first : Note) (p : Path) :
    s.report remove first p = { s with duplicates := s.duplicates ++ [⟨p, first, false⟩] } ∨
    ∃ d, remove ∧ s.disk.unlink p = .ok d ∧ s.report remove first p = { s with
        disk := d
        index := { s.index with looks := erase s.index.looks (d.resolved p).text }
        duplicates := s.duplicates ++ [⟨p, first, true⟩] } := by
  unfold Scan.report
  cases remove with
  | false => exact inl rfl
  | true =>
    cases s.disk.unlink p with
    | error e => exact inl rfl
    | ok d => exact inr ⟨d, rfl, rfl, rfl⟩

theorem visit_skip {e : Fault} (missing : s.disk.file p = .error e) : s.visit remove project p = s := by
  simp [Scan.visit, missing]

theorem visit_found (found : s.disk.file p = .ok f) (place : (s.disk.resolved p).text = key)
    (print : (digest s.index.looks key f).1 = h) :
    s.visit remove project p = (s.looked key f).judge remove project p h := by
  subst place print
  simp only [Scan.visit, found]
  rfl

theorem duplicates_report (s : Scan) (remove : Bool) (first : Note) (p : Path) :
    ∃ removed, (s.report remove first p).duplicates = s.duplicates ++ [⟨p, first, removed⟩] := by
  rcases report_cases s remove first p with same | ⟨d, -, -, same⟩ <;> exact ⟨_, by rw [same]⟩

theorem notes_report (s : Scan) (remove : Bool) (first : Note) (p : Path) :
    (s.report remove first p).index.notes = s.index.notes := by
  rcases report_cases s remove first p with same | ⟨d, -, -, same⟩ <;> rw [same]

/-- What a visit of a path makes of a scan of `root`: nothing when no file is there, a note of a file
that is new or noted under the root's own name, a report of one that is noted under another. -/
inductive Visits (start : Disk) (root : Path) (remove : Bool) (s : Scan) (p : Path) : Scan → Prop where
  | skipped (e : Fault) (missing : s.disk.file p = .error e) : Visits start root remove s p s
  | noted {way : List String} {f : File} (located : s.disk.locate p = .ok way)
      (below : Below start root way) (there : s.disk.root.at? way = some (.file f))
      (own : ∀ note, get? s.index.notes (fingerprint f) = some note → ∃ o, note = noteOf root.name o) :
      Visits start root remove s p
        ((s.looked (mk "/" way).text f).note root.name (fingerprint f) p)
  | reported {way : List String} {f : File} {name : String} {o : Path}
      (located : s.disk.locate p = .ok way) (below : Below start root way)
      (there : s.disk.root.at? way = some (.file f))
      (noted : get? s.index.notes (fingerprint f) = some (noteOf name o)) (ne : name ≠ root.name) :
      Visits start root remove s p
        ((s.looked (mk "/" way).text f).report remove ⟨.text o.text, .text name⟩ p)

theorem visits_visit (setting : Setting start roots file) (member : root ∈ roots)
    (continues : Continues root p rel) (kept : Kept start roots file s.disk)
    (sound : Sound start roots s.disk s.index) : Visits start root remove s p (s.visit remove root.name p) := by
  cases found : s.disk.file p with
  | error e =>
    rw [visit_skip found]
    exact .skipped e found
  | ok f =>
    obtain ⟨way, located, there⟩ := file_eq_ok.1 found
    obtain ⟨below, -⟩ := continues.walk setting kept member (locate_eq_ok.1 located)
    have place : (s.disk.resolved p).text = (mk "/" way).text := by
      rw [resolved_of_locate located]
    have print : (digest s.index.looks (mk "/" way).text f).1 = fingerprint f :=
      digest_eq fun h => sound.looks way f h ⟨root, member, below⟩ there
    rw [visit_found found place print]
    rcases judge_cases (s.looked _ f) remove root.name p _ with ⟨same, own⟩ | ⟨note, noted, other, same⟩ <;> rw [same]
    · refine .noted located below there fun note noted => ?_
      obtain ⟨_, -, o, -, -, -, -, rfl, -⟩ := sound.notes _ note noted
      have named := own _ noted
      rw [isOwn_noteOf, beq_iff_eq] at named
      exact ⟨o, by rw [named]⟩
    · obtain ⟨_, -, o, -, -, -, -, rfl, -⟩ := sound.notes _ note noted
      exact .reported located below there noted (by simpa [isOwn_noteOf] using other)

/-- What was noted before is noted still under the same name; or all that is noted is noted under the
name of this scan, and then nothing is a duplicate. -/
def Covers (name : String) (old i : Index) : Prop :=
  (∀ h note, get? old.notes h = some note →
    ∃ n o o', note = noteOf n o ∧ get? i.notes h = some (noteOf n o')) ∨
  ∀ h note, get? i.notes h = some note → ∃ o, note = noteOf name o

/-- The fingerprint of every file below the roots is still that of a file there. -/
def Survives (start : Disk) (roots : List Path) (d : Disk) : Prop :=
  ∀ way f, InRoots start roots way → start.root.at? way = some (.file f) →
    ∃ way' f', InRoots start roots way' ∧ d.root.at? way' = some (.file f') ∧
      fingerprint f' = fingerprint f

/-- What holds during a scan of `root` that began on the disk `begun`, where the index `old` is
stored. -/
structure Scanning (start : Disk) (roots : List Path) (file root : Path) (old : Index) (begun : Disk)
    (s : Scan) : Prop where
  kept : Kept start roots file s.disk
  sound : Sound start roots s.disk s.index
  stored : Sound start roots s.disk old
  covers : Covers root.name old s.index
  survives : Survives start roots s.disk
  index : s.disk.root.leaf? (indexPlace start file) = begun.root.leaf? (indexPlace start file)

theorem noteOf_inj {a b : String} {p : Path} (same : noteOf a p = noteOf b q) : a = b := by
  have names := congrArg (Value.getOrNull · "project") same
  simpa using names

variable {old : Index} {begun : Disk}

theorem Covers.note (covers : Covers name old i)
    (own : ∀ note, get? i.notes h = some note → ∃ o, note = noteOf name o) :
    Covers name old { i with notes := set i.notes h (noteOf name o) } := by
  rcases covers with same | all
  · refine inl fun h' note noted => ?_
    obtain ⟨n, o₁, o₂, rfl, found⟩ := same h' note noted
    by_cases here : h' = h
    · subst here
      obtain ⟨o₃, eq⟩ := own _ found
      obtain rfl := noteOf_inj eq
      exact ⟨n, o₁, o, rfl, by simp [get?_set]⟩
    · exact ⟨n, o₁, o₂, rfl, by rwa [get?_set, if_neg here]⟩
  · refine inr fun h' note noted => ?_
    rw [get?_set] at noted
    split at noted
    · exact ⟨o, by simpa using noted.symm⟩
    · exact all h' note noted

theorem Scanning.look (scanning : Scanning start roots file root old begun s)
    (there : s.disk.root.at? way = some (.file f)) :
    Scanning start roots file root old begun (s.looked (Path.mk "/" way).text f) :=
  { scanning with sound := scanning.sound.look scanning.kept there }

theorem Scanning.note (scanning : Scanning start roots file root old begun s)
    (vouched : Vouched start roots s.disk h (noteOf root.name p))
    (own : ∀ note, get? s.index.notes h = some note → ∃ o, note = noteOf root.name o) :
    Scanning start roots file root old begun (s.note root.name h p) :=
  { scanning with
    sound := scanning.sound.note vouched
    covers := scanning.covers.note own }

theorem Scanning.drop (setting : Setting start roots file) (unshared : Unshared start roots) (member : root ∈ roots)
    (scanning : Scanning start roots file root old begun s)
    (there : s.disk.root.at? way = some (.file f)) (below : Below start root way)
    (noted : get? s.index.notes (fingerprint f) = some (noteOf name o)) (ne : name ≠ root.name)
    (frame : Frame (· = way) s.disk d') (named : d'.root.Named IsEntry) (gone : d'.root.leaf? way = none) :
    Scanning start roots file root old begun { s with disk := d' } := by
  have inRoots : InRoots start roots way := ⟨root, member, below⟩
  have atStart := scanning.kept.fileOfStart setting inRoots there
  have away : ∀ other ∈ roots, other.name ≠ root.name → ¬ Below start other way :=
    fun other others differ shared => unshared other others root member differ way f atStart shared below
  refine ⟨?_, ?_, ?_, scanning.covers, ?_, ?_⟩
  · refine scanning.kept.step frame named ?_
    rintro _ rfl
    exact inr ⟨inRoots, gone⟩
  · refine scanning.sound.drop frame there gone fun note found other others q eq => ?_
    obtain rfl : noteOf name o = note := by simpa [noted] using found
    exact away other others (by rw [← noteOf_inj eq]; exact ne)
  · refine scanning.stored.drop frame there gone fun note found other others q eq => ?_
    rcases scanning.covers with same | all
    · obtain ⟨n, o₁, o₂, rfl, now⟩ := same _ note found
      have first : n = name := noteOf_inj (by simpa [noted] using now.symm)
      exact away other others (by rw [← noteOf_inj eq, first]; exact ne)
    · obtain ⟨o', eq'⟩ := all _ _ noted
      exact absurd (noteOf_inj eq') ne
  · intro place g inside atPlace
    obtain ⟨place', g', inside', atPlace', print⟩ := scanning.survives place g inside atPlace
    by_cases deleted : place' = way
    · -- The file behind the note has the same fingerprint, and it is not the deleted one.
      subst deleted
      obtain rfl : f = g' := by simpa [there] using atPlace'
      obtain ⟨other, others, q, rel, way', f', -, eq, -, below', stands, print'⟩ :=
        scanning.sound.notes _ _ noted
      have apart : way' ≠ place' := by
        rintro rfl
        exact away other others (by rw [← noteOf_inj eq]; exact ne) below'
      exact ⟨way', f', ⟨other, others, below'⟩, (frame.file apart f').2 stands, print'.trans print⟩
    · exact ⟨place', g', inside', (frame.file deleted g').2 atPlace', print⟩
  · have apart : indexPlace start file ≠ way := by
      rintro eq
      exact setting.outside (eq ▸ inRoots)
    exact (frame.leaves _ apart).trans scanning.index

section

variable (setting : Setting start roots file) (safe : remove → Unshared start roots) (member : root ∈ roots)
  (continues : Continues root p rel) (scanning : Scanning start roots file root old begun s)

include setting safe member continues scanning

theorem Scanning.report {first : Note} (located : s.disk.locate p = .ok way)
    (there : s.disk.root.at? way = some (.file f))
    (noted : get? s.index.notes (fingerprint f) = some (noteOf name o)) (ne : name ≠ root.name) :
    Scanning start roots file root old begun (s.report remove first p) := by
  rcases report_cases s remove first p with same | ⟨d', asked, unlinked, same⟩ <;> rw [same]
  · exact { scanning with }
  · obtain ⟨below, place, atRoot, along⟩ :=
      continues.walk setting scanning.kept member (locate_eq_ok.1 located)
    obtain ⟨way', walk, frame, gone⟩ := frame_unlink unlinked
    obtain ⟨-, place', atRoot', along'⟩ := continues.walk setting scanning.kept member walk
    obtain rfl : place = place' := by simpa [atRoot] using atRoot'
    obtain rfl : way' = way := along'.trans along.symm
    have dropped := scanning.drop setting (safe asked) member there below noted ne frame
      (named_unlink scanning.kept.named unlinked) gone
    exact { dropped with sound := dropped.sound.forget _ }

theorem Scanning.visit : Scanning start roots file root old begun (s.visit remove root.name p) := by
  have visits : Visits start root remove s p (s.visit remove root.name p) :=
    visits_visit setting member continues scanning.kept scanning.sound
  generalize s.visit remove root.name p = s' at visits ⊢
  cases visits with
  | skipped e missing => exact scanning
  | noted located below there own =>
    exact (scanning.look there).note ⟨root, member, p, rel, _, _, continues, rfl, located, below, there, rfl⟩ own
  | reported located below there noted ne =>
    exact (scanning.look there).report setting safe member continues located there noted ne

end

/-! ## Many visits -/

section

variable {paths : List Path} (setting : Setting start roots file) (safe : remove → Unshared start roots)
  (member : root ∈ roots) (listed : ∀ p ∈ paths, ∃ rel, Continues root p rel)
  (begins : Scanning start roots file root old begun s)

include setting safe member listed begins

/-- What holds at first and is kept by every visit holds after all of them. -/
theorem Scanning.visits (holds : Scan → Prop) (first : holds s)
    (step : ∀ s s' p rel, Continues root p rel → Scanning start roots file root old begun s →
      Visits start root remove s p s' → holds s → holds s') :
    Scanning start roots file root old begun (paths.foldl (Scan.visit remove root.name) s) ∧
      holds (paths.foldl (Scan.visit remove root.name) s) := by
  refine foldlRecOn (motive := fun s : Scan => Scanning start roots file root old begun s ∧ holds s)
    paths _ ⟨begins, first⟩ ?_
  rintro s ⟨scanning, held⟩ p inPaths
  obtain ⟨rel, continues⟩ := listed p inPaths
  exact ⟨scanning.visit setting safe member continues, step s _ p rel continues scanning
      (visits_visit setting member continues scanning.kept scanning.sound) held⟩

/-- What a visit of `q` brings about and every visit keeps holds at the end, when `q` is visited. -/
theorem Scanning.reaches (keeps holds : Scan → Prop) (first : keeps s)
    (step : ∀ s s' p rel, Continues root p rel → Scanning start roots file root old begun s →
      Visits start root remove s p s' → keeps s → keeps s') (among : q ∈ paths)
    (reached : ∀ s s', Scanning start roots file root old begun s → keeps s →
      Visits start root remove s q s' → holds s')
    (stays : ∀ s s' p, Visits start root remove s p s' → holds s → holds s') :
    holds (paths.foldl (Scan.visit remove root.name) s) := by
  obtain ⟨before, after, rfl⟩ := append_of_mem among
  rw [foldl_append]
  obtain ⟨scanning, kept⟩ := begins.visits setting safe member
    (fun p inBefore => listed p (mem_append_left _ inBefore)) keeps first step
  obtain ⟨rel, continues⟩ := listed q (by simp)
  have here := reached _ _ scanning kept (visits_visit setting member continues scanning.kept scanning.sound)
  refine ((scanning.visit setting safe member continues).visits setting safe member
    (fun p inAfter => listed p (by simp [inAfter])) holds here ?_).2
  exact fun s s' p _ _ _ visits held => stays s s' p visits held

end

end

end Folio.Dedup

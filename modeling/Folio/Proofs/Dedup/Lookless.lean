/-
# Proofs.Dedup.Lookless -- the looks change no result

A printing is full when it reads every file (`Full`).  Runs with two full printings work on disks that differ in the
looks of stored indexes.  `Alike` says that they differ in nothing else: both become the same when these looks are
blanked.

No look-up reads a content, so steps of the disk lead from alike disks to alike ones; a scan reads no stored index as
long as it meets none (`Same.visit`); and of the index that a run loads only the notes decide what happens
(`Alike.run`).  So every result and every index of notes is that of a program without looks (`looks_change_no_result`).
-/
import Folio.Proofs.Dedup.Hashing

namespace Folio.Dedup

open Action Disk Index Json List Scan

/-! ## Blanking looks -/

def blankField (e : String × Value) : String × Value := if e.1 = looksKey then (e.1, .null) else e

/-- A content with the looks blanked, when it is a stored index. -/
def blank : Content → Content
  | .document form (.object fs) => .document form (.object (fs.map blankField))
  | c => c

def HoldsLooks (c : Content) : Prop := ∃ form fs v, c = .document form (.object fs) ∧ (looksKey, v) ∈ fs

section Blank

variable {c c' : Content}

theorem name_blankField (e : String × Value) : (blankField e).1 = e.1 := by
  unfold blankField
  split <;> rfl

theorem blank_of_bare (bare : ¬ HoldsLooks c) : blank c = c := by
  unfold blank
  split
  · rename_i form fs
    have kept : fs.map blankField = fs.map id := by
      refine map_congr_left fun e member => if_neg fun looks => bare ⟨form, fs, e.2, rfl, ?_⟩
      rwa [← looks]
    rw [kept, map_id]
  · rfl

theorem holdsLooks_blank : HoldsLooks (blank c) ↔ HoldsLooks c := by
  unfold blank
  split
  · rename_i form fs
    constructor
    · rintro ⟨_, _, v, same, member⟩
      cases same
      obtain ⟨e, inside, blanked⟩ := mem_map.1 member
      have looks : e.1 = looksKey := by rw [← name_blankField, blanked]
      exact ⟨form, fs, e.2, rfl, by rwa [← looks]⟩
    · rintro ⟨_, _, v, same, member⟩
      cases same
      exact ⟨form, _, .null, rfl, mem_map.2 ⟨_, member, if_pos rfl⟩⟩
  · rfl

theorem eq_of_blank (bare : ¬ HoldsLooks c) (same : blank c = blank c') : c = c' := by
  have bare' : ¬ HoldsLooks c' := by rwa [← holdsLooks_blank, ← same, holdsLooks_blank]
  rw [← blank_of_bare bare, same, blank_of_bare bare']

theorem notes_read_blank (c : Content) : (read (blank c)).notes = (read c).notes := by
  unfold blank
  split
  · rename_i form fs
    change (fs.map blankField).filter (fun f => f.1 != looksKey && f.2.isObject) =
      fs.filter fun f => f.1 != looksKey && f.2.isObject
    induction fs with
    | nil => rfl
    | cons e fs ih =>
      by_cases looks : e.1 = looksKey
      · simpa [blankField, looks] using ih
      · simp only [map_cons, blankField, if_neg looks, filter_cons] at ih ⊢
        rw [ih]
  · rfl

theorem blank_stored (form : Layout) (notes looks looks' : Fields) :
    blank (.document form (toValue ⟨notes, looks⟩)) = blank (.document form (toValue ⟨notes, looks'⟩)) := by
  simp only [toValue, blank, Content.document.injEq, Value.object.injEq]
  induction notes with
  | nil => simp [Fields.set, blankField]
  | cons e notes ih =>
    obtain ⟨k, v⟩ := e
    by_cases here : k = looksKey
    · simp [Fields.set, here, blankField]
    · simp [Fields.set, beq_eq_false_iff_ne.2 here, ih]

end Blank

/-! ## Alike disks -/

/-- The disks differ at most in looks that are stored. -/
def Alike (d d' : Disk) : Prop := d.mapContents blank = d'.mapContents blank

/-- A change that treats alike disks alike: it does not depend on looks that are stored. -/
def Blind (become : Disk → Disk) : Prop := ∀ d d', Alike d d' → Alike (become d) (become d')

section Alike

variable {d d' : Disk}

/-- Two outcomes that fail alike, or end in related values. -/
def Agree {α : Type} (related : α → α → Prop) (r r' : Except Fault α) : Prop :=
  (∃ e, r = .error e ∧ r' = .error e) ∨ ∃ x x', r = .ok x ∧ r' = .ok x' ∧ related x x'

theorem agree_of_map {α β : Type} (view : α → β) {r r' : Except Fault α} (same : r.map view = r'.map view) :
    Agree (fun x x' => view x = view x') r r' := by
  cases r with
  | error e =>
    cases r' with
    | error e' => exact Or.inl ⟨e, rfl, by simpa [Except.map] using same.symm⟩
    | ok x' => simp [Except.map] at same
  | ok x =>
    cases r' with
    | error e' => simp [Except.map] at same
    | ok x' => exact Or.inr ⟨x, x', rfl, rfl, Except.ok.inj same⟩

section

variable (alike : Alike d d') (p : Path)

include alike p

theorem Alike.makeDirs : Agree Alike (d.makeDirs p) (d'.makeDirs p) := by
  refine agree_of_map (mapContents blank) ?_
  rw [makeDirs_mapContents, makeDirs_mapContents, alike]

theorem Alike.write {c c' : Content} (same : blank c = blank c') (t : Moment) :
    Agree Alike (d.write p c t) (d'.write p c' t) := by
  refine agree_of_map (mapContents blank) ?_
  rw [write_mapContents, write_mapContents, alike, same]

theorem Alike.unlink : Agree Alike (d.unlink p) (d'.unlink p) := by
  refine agree_of_map (mapContents blank) ?_
  rw [unlink_mapContents, unlink_mapContents, alike]

theorem Alike.below : d.below p = d'.below p := by
  rw [← below_mapContents blank d, alike, below_mapContents]

theorem Alike.file : Agree (fun f f' => f.mapContent blank = f'.mapContent blank) (d.file p) (d'.file p) := by
  refine agree_of_map (File.mapContent blank) ?_
  rw [← file_mapContents, ← file_mapContents, alike]

end

theorem file_eq_of_bare {f f' : File} (bare : ¬ HoldsLooks f.content)
    (same : f.mapContent blank = f'.mapContent blank) : f = f' := by
  obtain ⟨c', t', n'⟩ := f'
  simp only [File.mapContent, File.mk.injEq] at same
  obtain ⟨contents, rfl, rfl⟩ := same
  obtain rfl := eq_of_blank bare contents
  rfl

theorem Alike.load (alike : Alike d d') (file : Path) :
    Agree (fun i i' => i.notes = i'.notes) (Dedup.load d file) (Dedup.load d' file) := by
  refine agree_of_map notes ?_
  have there : d.exists? file = d'.exists? file := by
    rw [← exists?_mapContents blank d, alike, exists?_mapContents]
  rw [load_eq, load_eq, there]
  cases d'.exists? file with
  | error e => rfl
  | ok found =>
    cases found with
    | false => rfl
    | true =>
      rcases alike.file file with ⟨e, missing, missing'⟩ | ⟨f, f', read, read', same⟩
      · simp [missing, missing']
      · have contents : blank f.content = blank f'.content := congrArg File.content same
        simp only [read, read', Except.map, if_true]
        rw [← notes_read_blank f.content, contents, notes_read_blank]

end Alike

/-! ## Full printings -/

def PlainLooks (looks : Fields) : Prop := ∀ e ∈ looks, isPlain e.2

/-- A printing that reads every file, and keeps looks that can be written. -/
structure Full (print : Printing) : Prop where
  reads : ∀ looks key f, (print looks key f).1 = fingerprint f
  plain : ∀ looks key f, PlainLooks looks → PlainLooks (print looks key f).2

theorem full_afresh : Full afresh where
  reads _ _ _ := rfl
  plain looks key f plain :=
    plain_set plain (by simp [Look.toValue, Value.nat, isPlain, isPlainFields])

theorem full_lookless : Full lookless where
  reads _ _ _ := rfl
  plain _ _ _ plain := plain

section Scans

variable {print print' : Printing} {s s' : Scan} {remove : Bool} {project : String} {p : Path}

theorem Full.scan (full : Full print) (d : Disk) {i : Index} (remove : Bool) (root : Path)
    (plain : PlainLooks i.looks) : PlainLooks (scanBy print d i remove root).index.looks := by
  refine foldlRecOn (motive := fun s : Scan => PlainLooks s.index.looks) _ _ plain fun s before p _ => ?_
  unfold visitBy
  split
  · exact before
  · refine looks_judge (fun looks key plain e member => ?_) (full.plain _ _ _ before)
    exact plain e (mem_filter.1 member).1

/-- Two scans that agree but for looks. -/
structure Same (s s' : Scan) : Prop where
  disk : Alike s.disk s'.disk
  notes : s.index.notes = s'.index.notes
  unique : s.unique = s'.unique
  duplicates : s.duplicates = s'.duplicates

section

variable (same : Same s s')

include same

theorem Same.withLooks (looks looks' : Fields) : Same (s.withLooks looks) (s'.withLooks looks') :=
  ⟨same.disk, same.notes, same.unique, same.duplicates⟩

theorem Same.note (project h : String) (p : Path) : Same (s.note project h p) (s'.note project h p) :=
  ⟨same.disk, by simp [Scan.note, same.notes], by simp [Scan.note, same.unique], same.duplicates⟩

theorem Same.report (remove : Bool) (first : Note) (p : Path) :
    Same (s.report remove first p) (s'.report remove first p) := by
  have kept : Same { s with duplicates := s.duplicates ++ [⟨p, first, false⟩] }
      { s' with duplicates := s'.duplicates ++ [⟨p, first, false⟩] } :=
    ⟨same.disk, same.notes, same.unique, by simp [same.duplicates]⟩
  unfold Scan.report
  cases remove with
  | false => exact kept
  | true =>
    rcases same.disk.unlink p with ⟨e, fails, fails'⟩ | ⟨d, d', gone, gone', alike⟩
    · simpa [fails, fails', Except.toOption] using kept
    · simp only [if_true, gone, gone', Except.toOption]
      exact ⟨alike, same.notes, same.unique, by simp [same.duplicates]⟩

theorem Same.judge (remove : Bool) (project : String) (p : Path) (h : String) :
    Same (s.judge remove project p h) (s'.judge remove project p h) := by
  unfold Scan.judge
  rw [same.notes]
  split
  · split
    · exact same.note project h p
    · exact same.report remove _ p
  · exact same.note project h p

end

theorem Same.visit (full : Full print) (full' : Full print') (same : Same s s')
    (bare : ∀ a, s.sight? p = some a → ¬ HoldsLooks a.file.content) :
    Same (s.visitBy print remove project p) (s'.visitBy print' remove project p) := by
  unfold visitBy
  rcases same.disk.file p with ⟨e, missing, missing'⟩ | ⟨f, f', found, found', files⟩
  · simpa [missing, missing'] using same
  · obtain rfl := file_eq_of_bare (bare _ (sight?_of_file found)) files
    simp only [found, found', full.reads, full'.reads]
    exact (same.withLooks _ _).judge remove project p _

theorem Same.visits (full : Full print) (full' : Full print') (ps : List Path) (s s' : Scan) (same : Same s s')
    (bare : ∀ a ∈ sightsBy print remove project s ps, ¬ HoldsLooks a.file.content) :
    Same (ps.foldl (visitBy print remove project) s) (ps.foldl (visitBy print' remove project) s') := by
  induction ps generalizing s s' with
  | nil => exact same
  | cons p ps ih =>
    refine ih _ _ (same.visit full full' fun a sight => bare a ?_) fun a later =>
      bare a (mem_append_right _ later)
    exact mem_append_left _ (by simp [sight])

end Scans

/-! ## Runs with full printings -/

section Runs

variable {print print' : Printing} {w w' : Workspace} {file : Path}

theorem Alike.opening (alike : Alike w.disk w'.disk) (now : w.now = w'.now) (file : Path) :
    (∃ e, ((opening file).outcome w).1 = .error e ∧ ((opening file).outcome w').1 = .error e ∧
      Alike ((opening file).outcome w).2.disk ((opening file).outcome w').2.disk) ∨
    ∃ i i' v v', (opening file).outcome w = (.ok i, v) ∧ (opening file).outcome w' = (.ok i', v') ∧
      i.notes = i'.notes ∧ Alike v.disk v'.disk ∧ v.now = v'.now := by
  simp only [Dedup.opening, writeText]
  rw [outcome_bind, outcome_bind, outcome_makeDirs, outcome_makeDirs]
  rcases alike.makeDirs (lockOf file).parent with ⟨e, fails, fails'⟩ | ⟨d, d', made, made', alike₁⟩
  · simp only [fails, fails']
    exact Or.inl ⟨e, rfl, rfl, alike⟩
  simp only [made, made']
  rw [outcome_bind, outcome_bind, outcome_write, outcome_write]
  simp only [now]
  have lock : blank (.text "") = blank (.text "") := rfl
  rcases alike₁.write (lockOf file) lock w'.now with ⟨e, fails, fails'⟩ | ⟨d₂, d₂', taken, taken', alike₂⟩
  · simp only [fails, fails']
    exact Or.inl ⟨e, rfl, rfl, alike₁⟩
  simp only [taken, taken', outcome_ask]
  rcases alike₂.load file with ⟨e, fails, fails'⟩ | ⟨i, i', loaded, loaded', notes⟩
  · rw [fails, fails']
    exact Or.inl ⟨e, rfl, rfl, alike₂⟩
  · rw [loaded, loaded']
    exact Or.inr ⟨i, i', _, _, rfl, rfl, notes, alike₂, rfl⟩

theorem isPlain_toValue {i i' : Index} (notes : i.notes = i'.notes) (plain : PlainLooks i.looks)
    (plain' : PlainLooks i'.looks) : isPlain i.toValue = isPlain i'.toValue := by
  have object : ∀ {looks : Fields}, PlainLooks looks → isPlain (.object looks) := by
    intro looks plain
    rw [isPlain, isPlainFields_iff]
    exact plain
  rw [toValue, toValue, notes, isPlain, isPlain]
  induction i'.notes with
  | nil => simp [Fields.set, isPlainFields, object plain, object plain']
  | cons e rest ih =>
    obtain ⟨k, v⟩ := e
    by_cases here : k = looksKey
    · simp [Fields.set, here, isPlainFields, object plain, object plain']
    · simp [Fields.set, beq_eq_false_iff_ne.2 here, isPlainFields, ih]

theorem Same.closing {s s' : Scan} (same : Same s s') (plain : PlainLooks s.index.looks)
    (plain' : PlainLooks s'.index.looks) (now : w.now = w'.now) (file : Path) :
    ((closing file s).outcome w).1 = ((closing file s').outcome w').1 ∧
      Alike ((closing file s).outcome w).2.disk ((closing file s').outcome w').2.disk := by
  simp only [Dedup.closing]
  rw [bind_of_ok (outcome_modify _ _), bind_of_ok (outcome_modify _ _),
    outcome_bind, outcome_bind, outcome_store, outcome_store]
  rcases same.disk.makeDirs file.parent with ⟨e, fails, fails'⟩ | ⟨d, d', made, made', alike⟩
  · simp only [fails, fails']
    exact ⟨trivial, same.disk⟩
  simp only [made, made', isPlain_toValue same.notes plain plain']
  cases isPlain s'.index.toValue with
  | false => exact ⟨rfl, alike⟩
  | true =>
    have stored : blank (.document layout s.index.toValue) = blank (.document layout s'.index.toValue) := by
      have own : s.index = ⟨s'.index.notes, s.index.looks⟩ := by rw [← same.notes]
      rw [own]
      exact blank_stored layout s'.index.notes s.index.looks s'.index.looks
    simp only [if_true, outcome_write, ← now]
    rcases alike.write file stored w.now with ⟨e, fails, fails'⟩ | ⟨d₂, d₂', written, written', alike₂⟩
    · simp only [fails, fails']
      exact ⟨trivial, alike⟩
    · simp only [written, written', outcome_pure, same.unique, same.duplicates, same.notes]
      exact ⟨trivial, alike₂⟩

theorem plainLooks_nil : PlainLooks [] := fun e member => by simp at member

theorem Alike.run (full : Full print) (full' : Full print') (rooted : file.isAbsolute)
    (plain : ".." ∉ file.parts) (pass : Pass) (alike : Alike w.disk w'.disk)
    (told : Told PlainLooks file w.disk) (told' : Told PlainLooks file w'.disk)
    (bare : ∀ a ∈ pass.sights print file w, ¬ HoldsLooks a.file.content) :
    (pass.runBy print file w).1 = (pass.runBy print' file w').1 ∧
      Alike (pass.runBy print file w).2.disk (pass.runBy print' file w').2.disk := by
  cases locked : pass.locked with
  | true =>
    simp only [Pass.runBy, runBy, locked, if_true, outcome_pure]
    exact ⟨trivial, alike⟩
  | false =>
    have start : Alike ({ w with now := pass.now } : Workspace).disk ({ w' with now := pass.now } : Workspace).disk :=
      alike
    rcases start.opening rfl file with ⟨e, fails, fails', left⟩ | ⟨i, i', v, v', opened, opened', notes, found, now⟩
    · simp only [Pass.runBy, runBy, locked, Bool.false_eq_true, if_false, outcome_bind]
      revert fails fails' left
      rcases (Dedup.opening file).outcome { w with now := pass.now } with ⟨r, v⟩
      rcases (Dedup.opening file).outcome { w' with now := pass.now } with ⟨r', v'⟩
      rintro rfl rfl left
      exact ⟨rfl, left⟩
    · have looks := (Told.opening rooted plain plainLooks_nil (w := { w with now := pass.now }) told opened).2
      have looks' := (Told.opening rooted plain plainLooks_nil (w := { w' with now := pass.now }) told' opened').2
      rw [(Pass.of_opened print locked opened).2] at bare
      rw [(Pass.of_opened print locked opened).1, (Pass.of_opened print' locked opened').1]
      have scanned : Same (scanBy print v.disk i pass.remove pass.root)
          (scanBy print' v'.disk i' pass.remove pass.root) := by
        rw [scanBy, scanBy, ← found.below]
        exact Same.visits full full' _ _ _ ⟨found, notes, rfl, rfl⟩ bare
      exact scanned.closing (full.scan _ _ _ looks) (full'.scan _ _ _ looks') now file

theorem told_runBy (full : Full print) (rooted : file.isAbsolute) (plain : ".." ∉ file.parts) (pass : Pass)
    (told : Told PlainLooks file w.disk) : Told PlainLooks file (pass.runBy print file w).2.disk :=
  Told.run print pass.root pass.remove pass.locked rooted plain plainLooks_nil (fun _ => id) told
    fun _ _ w' _ looks => full.scan w'.disk _ _ looks

end Runs

/-! ## Histories with full printings -/

/-- What shows of a step: its result, the notes that are stored after it, and the disk but for looks. -/
def view (file : Path) (step : Option (Except Fault Outcome) × Workspace) :
    Option (Except Fault Outcome) × Option Fields × Disk :=
  (step.1, (load step.2.disk file).toOption.map notes, step.2.disk.mapContents blank)

section Histories

variable {print print' : Printing} {w w' : Workspace} {file : Path}

theorem Alike.view (alike : Alike w.disk w'.disk) (r : Option (Except Fault Outcome)) :
    view file (r, w) = view file (r, w') := by
  have stored : (Dedup.load w.disk file).toOption.map notes =
      (Dedup.load w'.disk file).toOption.map notes := by
    rcases alike.load file with ⟨e, fails, fails'⟩ | ⟨i, i', loaded, loaded', notes⟩
    · rw [fails, fails']
    · simp [loaded, loaded', Except.toOption, notes]
  simp only [Dedup.view, stored]
  rw [alike]

theorem trace_view (full : Full print) (full' : Full print') (rooted : file.isAbsolute)
    (plain : ".." ∉ file.parts) (steps : List Step) (w w' : Workspace) (alike : Alike w.disk w'.disk)
    (told : Told PlainLooks file w.disk) (told' : Told PlainLooks file w'.disk)
    (apart : Apart print file steps w) (apart' : Apart print' file steps w')
    (blind : ∀ become, .change become ∈ steps → Blind become)
    (bare : ∀ a ∈ sights print file steps w, ¬ HoldsLooks a.file.content) :
    (trace (Pass.runBy print file) steps w).map (view file) =
      (trace (Pass.runBy print' file) steps w').map (view file) := by
  induction steps generalizing w w' with
  | nil => rw [trace, trace]
  | cons step steps ih =>
    have blindThen : ∀ become, .change become ∈ steps → Blind become :=
      fun become member => blind become (mem_cons_of_mem _ member)
    cases step with
    | call pass =>
      obtain ⟨result, left⟩ := alike.run full full' rooted plain pass told told'
        fun a member => bare a (mem_append_left _ member)
      have rest := ih _ _ left (told_runBy full rooted plain pass told) (told_runBy full' rooted plain pass told')
        apart apart' blindThen fun a member => bare a (mem_append_right _ member)
      simp [trace, Step.run, rest, result, left.view]
    | change become =>
      obtain ⟨keeps, apartThen⟩ := apart
      obtain ⟨keeps', apartThen'⟩ := apart'
      have left : Alike (become w.disk) (become w'.disk) := blind become mem_cons_self _ _ alike
      have rest := ih { w with disk := become w.disk } { w' with disk := become w'.disk } left
        (fun f found => told f (keeps f found)) (fun f found => told' f (keeps' f found)) apartThen apartThen'
        blindThen bare
      have shown : view file (none, { w with disk := become w.disk }) =
          view file (none, { w' with disk := become w'.disk }) := Alike.view left none
      simp [trace, Step.run, rest, shown]

end Histories

/-- The looks change no result.  Over every history of runs and of changes that others make beside the
index, from an index that is absent, and as long as under each path size, times and first bytes decide
the content: the runs give what they give when every file is read in full and the looks are kept up to
date, down to the last workspace; and where no scan meets a stored index, every result, the stored notes and
the disk but for looks are those of any program that reads every file in full, whatever looks it keeps. -/
theorem looks_change_no_result {w : Workspace} {file : Path} {steps : List Step}
    (rooted : file.isAbsolute) (plain : ".." ∉ file.parts) (absent : ∀ f, w.disk.file file ≠ .ok f)
    (apart : Apart digest file steps w) (determined : Determined (sights digest file steps w))
    (injective : Set.InjOn Bytes.sha256 (heads (sights digest file steps w))) :
    trace (Pass.run file) steps w = trace (Pass.runBy afresh file) steps w ∧
      ∀ print, Full print → Apart print file steps w → (∀ become, .change become ∈ steps → Blind become) →
        (∀ a ∈ sights digest file steps w, ¬ HoldsLooks a.file.content) →
        (trace (Pass.run file) steps w).map (view file) =
          (trace (Pass.runBy print file) steps w).map (view file) := by
  have nothing : ∀ fit, Told fit file w.disk := fun fit f found => absurd found (absent f)
  obtain ⟨same, sameSights, apartAfresh⟩ := trace_eq_afresh determined injective rooted plain steps w []
    (nothing _) (List.nil_subset _) (List.Subset.refl _) apart
  refine ⟨same, fun print full apartPrint blind bare => ?_⟩
  rw [same]
  rw [sameSights] at bare
  exact trace_view full_afresh full rooted plain steps w w rfl (nothing _) (nothing _) apartAfresh apartPrint
    blind bare

/-! ### A file is deleted between the scans -/

/-- Scan a project, lose a file of another one, scan a third with deletion and the first again. -/
def loss : List Step := [
  .call ⟨⟨"/", ["c"]⟩, false, false, default⟩,
  .change fun d => (d.unlink ⟨"/", ["b", "app", "g"]⟩).toOption.getD d,
  .call ⟨⟨"/", ["a", "app"]⟩, true, false, default⟩,
  .call ⟨⟨"/", ["c"]⟩, false, false, default⟩]

theorem loss_apart (print : Printing) : Apart print copiesIndex loss copies := by
  simp only [loss, Apart, and_true]
  intro f found
  generalize ((Pass.runBy print copiesIndex ⟨⟨"/", ["c"]⟩, false, false, default⟩ copies).2).disk = d at found ⊢
  cases gone : d.unlink ⟨"/", ["b", "app", "g"]⟩ with
  | error e => simpa [gone, Except.toOption] using found
  | ok d' => exact file_of_unlink gone (by simpa [gone, Except.toOption] using found)

theorem loss_blind : ∀ become, .change become ∈ loss → Blind become := by
  simp only [loss, mem_cons, reduceCtorEq, Step.change.injEq, not_mem_nil, or_false, false_or]
  rintro become rfl d d' alike
  rcases alike.unlink ⟨"/", ["b", "app", "g"]⟩ with ⟨e, fails, fails'⟩ | ⟨e, e', gone, gone', left⟩
  · simpa [fails, fails', Except.toOption] using alike
  · simpa [gone, gone', Except.toOption] using left

theorem loss_sights : ∀ a ∈ sights digest copiesIndex loss copies, a.file.content = .text "x" := by
  have all : (sights digest copiesIndex loss copies).all (fun a =>
      match a.file.content with
      | .text s => s == "x"
      | _ => false) := by decide +kernel
  intro a member
  have own := all_eq_true.1 all a member
  split at own
  · rename_i s text
    rw [text, eq_of_beq own]
  · cases own

/-- The deletion and the three scans show the same without looks, though the last scan knows its file. -/
theorem loss_without_looks :
    Determined (sights digest copiesIndex loss copies) ∧
      Set.InjOn Bytes.sha256 (heads (sights digest copiesIndex loss copies)) ∧
      (trace (Pass.run copiesIndex) loss copies).map (view copiesIndex) =
        (trace (Pass.runBy lookless copiesIndex) loss copies).map (view copiesIndex) := by
  have determined : Determined (sights digest copiesIndex loss copies) := by
    intro a seen b seen' _ _ _ _ _
    rw [loss_sights a seen, loss_sights b seen']
  have injective : Set.InjOn Bytes.sha256 (heads (sights digest copiesIndex loss copies)) := by
    rintro _ ⟨a, seen, rfl⟩ _ ⟨b, seen', rfl⟩ -
    rw [loss_sights a seen, loss_sights b seen']
  have absent : ∀ f, copies.disk.file copiesIndex ≠ .ok f := by
    intro f found
    obtain ⟨real, located, there⟩ := Disk.file_eq_ok.1 found
    cases located
  refine ⟨determined, injective, (looks_change_no_result rfl (by decide) absent (loss_apart digest) determined
    injective).2 lookless full_lookless (loss_apart lookless) loss_blind fun a seen => ?_⟩
  rw [loss_sights a seen]
  rintro ⟨form, fs, v, same, -⟩
  cases same

end Folio.Dedup

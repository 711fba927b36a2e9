/-
# Proofs.Dedup.Itself -- when a file is reported as a duplicate of itself

A run compares the names of roots and not the paths of files.  So a file is told from itself exactly as long as no file
lies below two roots of different names (`never_itself_iff_unshared`).  One half is an invariant of all scans
(`Foreign`). For the other half two runs are enough: the inner root is scanned first, and the scan of the outer one
meets the noted file again (`itself_of_nested`).
-/
import Folio.Proofs.Dedup.Saving

namespace Folio.Dedup

open Disk Fields List Path Scan

open Disk (Walk)

variable {dup : Duplicate} {h name : String} {now : Moment} {o : Path} {s s' : Scan}
  {rel place : List String} {f : File}

/-- The reported file is the one that it is said to be a duplicate of. -/
def Duplicate.Itself (d : Disk) (dup : Duplicate) : Prop :=
  ∃ o, dup.first.path = .text o ∧ d.resolved dup.path = d.resolved (ofString o)

/-- No series of runs over the roots reports a file as a duplicate of itself. -/
def NeverItself (file : Path) (roots : List Path) (w : Workspace) : Prop :=
  ∀ series : List Pass, (∀ pass ∈ series, pass.root ∈ roots) → ∀ pass : Pass, pass.root ∈ roots →
    ∀ outcome, (pass.run file (passes file series w)).1 = .ok outcome →
      ∀ dup ∈ outcome.duplicates, ¬ dup.Itself (pass.run file (passes file series w)).2.disk

variable {start d d' : Disk} {roots : List Path} {file root p : Path} {way : List String} {i : Index}
  {remove : Bool}

/-! ## Paths of files below a root -/

/-- A path below a root and the place where a file stood under it at the start. -/
def FileOf (start : Disk) (root p : Path) (way : List String) : Prop :=
  ∃ place rel f, start.locate root = .ok place ∧ Continues root p rel ∧ way = place ++ rel ∧
    start.root.at? way = some (.file f)

theorem FileOf.below (of : FileOf start root p way) : Below start root way := by
  obtain ⟨place, rel, f, located, -, rfl, -⟩ := of
  exact ⟨place, located, prefix_append _ _⟩

theorem fileOf_of_located (setting : Setting start roots file)
    (kept : Kept start roots file d) (member : root ∈ roots) (continues : Continues root p rel)
    (located : d.locate p = .ok way) (there : d.root.at? way = some (.file f)) : FileOf start root p way := by
  obtain ⟨below, place, atRoot, rfl⟩ := continues.walk setting kept member (locate_eq_ok.1 located)
  exact ⟨place, rel, f, atRoot, continues, rfl, kept.fileOfStart setting ⟨root, member, below⟩ there⟩

theorem FileOf.readable (workable : Workable start roots file) (member : root ∈ roots)
    (of : FileOf start root p way) : p.Readable := by
  obtain ⟨place, rel, f, -, ⟨rfl, -, entries⟩, -, -⟩ := of
  have readable := workable.readable root member
  refine ⟨readable.root, fun x inParts => ?_⟩
  rcases mem_append.1 inParts with inRoot | inRel
  · exact readable.names x inRoot
  · exact (entries x inRel).toIsName

/-- Whether or not its file is still there, a path below a root has the place of the file for its real
path: the directories that lead to it are never taken away. -/
theorem FileOf.resolved (workable : Workable start roots file) (kept : Kept start roots file d)
    (member : root ∈ roots) (of : FileOf start root p way) : d.resolved p = ⟨"/", way⟩ := by
  have setting := workable.toSetting
  obtain ⟨place, rel, f, located, ⟨rfl, some_, entries⟩, rfl, there⟩ := of
  obtain ⟨front, name, rfl⟩ := (eq_nil_or_concat rel).resolve_left some_
  rw [concat_eq_append] at entries there ⊢
  have below : ∀ more, InRoots start roots (place ++ more) :=
    fun more => ⟨root, member, place, located, prefix_append _ _⟩
  have dir : start.root.IsDirAt (place ++ front) :=
    Node.isDirAt_of_longer (b := [name]) (by simp [there]) (by simp)
  have toFront : start.locate ⟨root.root, root.parts ++ front⟩ = .ok (place ++ front) := by
    have toFile := locate_eq_ok.1 (workable.found root member place _ f located there)
    rw [absolute_append, ← append_assoc] at toFile
    obtain ⟨mid, walk, -⟩ := toFile.split Walk.trodden_nil
    have plain : ".." ∉ front := fun up => (entries _ (mem_append_left _ up)).notUp rfl
    have along : mid = place ++ front := (locate_eq_ok.1 located).append walk Walk.trodden_nil (Or.inr rfl) plain
      fun more _ => setting.linkless _ (below more)
    rw [locate_eq_ok, absolute_append, ← along]
    exact walk
  have resolved := resolved_entry kept.named (kept.locate setting dir toFront) (kept.dirs _ dir)
    (entries name (by simp)).notUp (by simpa using kept.linkless setting (below (front ++ [name])))
  simpa [entry] using resolved

/-! ## Duplicates of files below roots of other names -/

/-- A duplicate of a file that lies below a root of another name. -/
def Foreign (start : Disk) (roots : List Path) (root : Path) (dup : Duplicate) : Prop :=
  ∃ way, FileOf start root dup.path way ∧ ∃ other ∈ roots, other.name ≠ root.name ∧
    ∃ o way', FileOf start other o way' ∧ dup.first.path = .text o.text

theorem text_of_noteOf {a b : String} {p q : Path} (same : noteOf a p = noteOf b q) : p.text = q.text := by
  have paths := congrArg (Value.getOrNull · "path") same
  simpa using paths

theorem Visits.foreign {old : Index} {begun : Disk}
    (setting : Setting start roots file) (member : root ∈ roots) (continues : Continues root p rel)
    (scanning : Scanning start roots file root old begun s) (visits : Visits start root remove s p s')
    (before : ∀ dup ∈ s.duplicates, Foreign start roots root dup) :
    ∀ dup ∈ s'.duplicates, Foreign start roots root dup := by
  cases visits with
  | skipped e missing | noted located below there own => exact before
  | @reported way f name o located below there noted ne =>
    obtain ⟨removed, duplicates⟩ := duplicates_report (s.looked (Path.mk "/" way).text f) remove
      ⟨.text o.text, .text name⟩ p
    intro dup reported
    rw [duplicates, mem_append, mem_singleton] at reported
    rcases reported with old | rfl
    · exact before dup old
    · obtain ⟨other, others, q, rel', way', g, continues', same, located', -, there', -⟩ :=
        scanning.sound.notes _ _ noted
      exact ⟨way, fileOf_of_located setting scanning.kept member continues located there, other, others,
        by rw [← noteOf_inj same]; exact ne, q, way',
        fileOf_of_located setting scanning.kept others continues' located' there',
        by rw [text_of_noteOf same]⟩

theorem Ran.foreign {locked : Bool} {outcome : Outcome} (setting : Setting start roots file)
    (safe : remove → Unshared start roots) (member : root ∈ roots) (tidy : Tidy start roots file d)
    (ran : Ran root file remove locked now d (.ok outcome) d') :
    ∀ dup ∈ outcome.duplicates, Foreign start roots root dup := by
  cases ran with
  | idle held => simp [Outcome.none]
  | saved free took loaded again plain written =>
    have tidy₂ := tidy.take setting took
    obtain ⟨old, begins, -⟩ := tidy₂.begins setting root loaded
    exact (begins.visits setting safe member (fun p listed => continues_of_mem_below tidy₂.kept listed)
      (fun s => ∀ dup ∈ s.duplicates, Foreign start roots root dup) (by simp)
      fun s s' p rel continues scanning visits before =>
        visits.foreign setting member continues scanning before).2

theorem Foreign.not_itself (workable : Workable start roots file)
    (unshared : Unshared start roots) (kept : Kept start roots file d) (member : root ∈ roots)
    (foreign : Foreign start roots root dup) : ¬ dup.Itself d := by
  obtain ⟨way, of, other, others, ne, o, way', of', first⟩ := foreign
  rintro ⟨text, named, same⟩
  obtain rfl : o.text = text := by simpa [first] using named
  rw [ofString_text (of'.readable workable others), of.resolved workable kept member,
    of'.resolved workable kept others] at same
  obtain rfl : way = way' := congrArg parts same
  have below := of.below
  obtain ⟨-, -, f, -, -, -, there⟩ := of
  exact unshared root member other others ne.symm way f there below of'.below

/-! ## A file below two roots -/

theorem Visits.disk_eq (visits : Visits start root false s p s') : s'.disk = s.disk := by
  cases visits <;> rfl

section

variable (visits : Visits start root remove s p s')

include visits

theorem Visits.reported_still (reported : dup ∈ s.duplicates) : dup ∈ s'.duplicates := by
  cases visits with
  | skipped e missing | noted located below there own => exact reported
  | @reported way f name o located below there noted ne =>
    obtain ⟨removed, duplicates⟩ := duplicates_report (s.looked (Path.mk "/" way).text f) remove
      ⟨.text o.text, .text name⟩ p
    rw [duplicates]
    exact mem_append_left _ reported

theorem Visits.noted_still (noted : (get? s.index.notes h).isSome) : (get? s'.index.notes h).isSome := by
  cases visits with
  | skipped e missing => exact noted
  | noted located below there own =>
    simp only [note, get?_set]
    split
    · rfl
    · exact noted
  | reported located below there found ne =>
    rw [notes_report]
    exact noted

theorem Visits.foreign_note (ne : name ≠ root.name)
    (noted : get? s.index.notes h = some (noteOf name o)) : get? s'.index.notes h = some (noteOf name o) := by
  cases visits with
  | skipped e missing => exact noted
  | @noted way f located below there own =>
    have apart : h ≠ fingerprint f := by
      rintro rfl
      obtain ⟨o', same⟩ := own _ noted
      exact ne (noteOf_inj same)
    simpa [note, looked, get?_set, if_neg apart] using noted
  | reported located below there found ne =>
    rw [notes_report]
    exact noted

end

section Reach

variable {place rel : List String} {f : File}

theorem Whole.visits (workable : Workable start roots file)
    (whole : Whole start roots file s.disk) (member : root ∈ roots)
    (located : start.locate root = .ok place) (there : start.root.at? (place ++ rel) = some (.file f))
    (visits : Visits start root remove s ⟨root.root, root.parts ++ rel⟩ s') :
    (s' = (s.looked (Path.mk "/" (place ++ rel)).text f).note root.name (fingerprint f) ⟨root.root, root.parts ++ rel⟩ ∧
      ∀ note, get? s.index.notes (fingerprint f) = some note → ∃ o, note = noteOf root.name o) ∨
    ∃ name o, s' = (s.looked (Path.mk "/" (place ++ rel)).text f).report remove ⟨.text o.text, .text name⟩
        ⟨root.root, root.parts ++ rel⟩ ∧ get? s.index.notes (fingerprint f) = some (noteOf name o) := by
  have found := whole.locate workable member located there
  have now := whole.files _ f ⟨root, member, place, located, prefix_append _ _⟩ there
  have only : ∀ {way g}, s.disk.locate ⟨root.root, root.parts ++ rel⟩ = .ok way →
      s.disk.root.at? way = some (.file g) → way = place ++ rel ∧ g = f := by
    intro way g located' there'
    obtain rfl : place ++ rel = way := by simpa [found] using located'
    exact ⟨rfl, by simpa [now] using there'.symm⟩
  cases visits with
  | skipped e missing => simp [file_eq_ok.2 ⟨_, found, now⟩] at missing
  | noted located' below there' own =>
    obtain ⟨rfl, rfl⟩ := only located' there'
    exact Or.inl ⟨rfl, own⟩
  | reported located' below there' noted ne =>
    obtain ⟨rfl, rfl⟩ := only located' there'
    exact Or.inr ⟨_, _, rfl, noted⟩

section

variable (workable : Workable start roots file) (whole : Whole start roots file d) (member : root ∈ roots)
  (loaded : Dedup.load d file = .ok i) (located : start.locate root = .ok place)
  (there : start.root.at? (place ++ rel) = some (.file f))

include workable whole member loaded located there

theorem Whole.noted : (get? (scan d i false root).index.notes (fingerprint f)).isSome := by
  obtain ⟨old, begins, -⟩ := whole.toTidy.begins workable.toSetting root loaded
  refine begins.reaches workable.toSetting (by simp) member (fun p listed => continues_of_mem_below whole.kept listed)
    (fun s => s.disk = d) (fun s => (get? s.index.notes (fingerprint f)).isSome) rfl
    (fun s s' p _ _ _ visits same => visits.disk_eq.trans same)
    (whole.listed workable member located there) ?_
    (fun s s' p visits noted => visits.noted_still noted)
  rintro s s' - rfl visits
  rcases whole.visits workable member located there visits with ⟨rfl, -⟩ | ⟨name, o, rfl, noted⟩
  · simp [note, get?_set]
  · rw [notes_report]
    simp [looked, noted]

theorem Whole.reports (noted : get? i.notes (fingerprint f) = some (noteOf name o)) (ne : name ≠ root.name) :
    ∃ dup ∈ (scan d i false root).duplicates,
      dup.path = ⟨root.root, root.parts ++ rel⟩ ∧ dup.first.path = .text o.text := by
  obtain ⟨old, begins, -⟩ := whole.toTidy.begins workable.toSetting root loaded
  refine begins.reaches workable.toSetting (by simp) member (fun p listed => continues_of_mem_below whole.kept listed)
    (fun s => s.disk = d ∧ get? s.index.notes (fingerprint f) = some (noteOf name o))
    (fun s => ∃ dup ∈ s.duplicates, dup.path = ⟨root.root, root.parts ++ rel⟩ ∧ dup.first.path = .text o.text)
    ⟨rfl, noted⟩ ?_ (whole.listed workable member located there) ?_ ?_
  · rintro s s' p - - - visits ⟨same, noted⟩
    exact ⟨visits.disk_eq.trans same, visits.foreign_note ne noted⟩
  · rintro s s' - ⟨rfl, noted⟩ visits
    rcases whole.visits workable member located there visits with ⟨rfl, own⟩ | ⟨name', o', rfl, noted'⟩
    · obtain ⟨o', same⟩ := own _ noted
      exact absurd (noteOf_inj same) ne
    · have text : o'.text = o.text := text_of_noteOf (by simpa [noted] using noted'.symm)
      exact ⟨⟨_, ⟨.text o'.text, .text name'⟩, false⟩, mem_append_right _ (mem_singleton.2 rfl), rfl, by rw [text]⟩
  · rintro s s' p visits ⟨dup, reported, facts⟩
    exact ⟨dup, visits.reported_still reported, facts⟩

end

end Reach

theorem Ran.stores_note {r : Except Fault Outcome} (workable : Workable start roots file) (member : root ∈ roots)
    (ran : Ran root file false false now start r d') (located : start.locate root = .ok place)
    (there : start.root.at? (place ++ rel) = some (.file f)) :
    ∃ doc v o way g, d'.root.at? (indexPlace start file) = some (.file doc) ∧ doc.content = .document layout v ∧
      get? (Index.ofValue v).notes (fingerprint f) = some (noteOf root.name o) ∧
      FileOf start root o way ∧ start.root.at? way = some (.file g) ∧ fingerprint g = fingerprint f := by
  -- Seen from this root alone, every note is of a file below it.
  have alone : Workable start [root] file := workable.restrict member
  have own : root ∈ [root] := mem_singleton.2 rfl
  obtain ⟨d₂, i, whole₂, -, loaded, -, whole', doc, atIndex, content⟩ :=
    ran.saves alone own (whole_start alone)
  have safe : false → Unshared start [root] := by simp
  obtain ⟨-, sound⟩ := whole₂.toTidy.scan alone.toSetting safe own loaded
  obtain ⟨note, noted⟩ := Option.isSome_iff_exists.1 (whole₂.noted alone own loaded located there)
  have stored : get? (Index.ofValue (scan d₂ i false root).index.toValue).notes (fingerprint f) = some note := by
    rw [get?_stored sound.objects, if_neg (fingerprint_ne_looksKey f), noted]
  obtain ⟨other, others, o, rel', way, g, continues, rfl, located', below, there', print⟩ :=
    sound.notes _ _ noted
  obtain rfl := mem_singleton.1 others
  rw [disk_scan] at located' there'
  exact ⟨doc, _, o, way, g, atIndex, content, stored,
    fileOf_of_located alone.toSetting whole₂.kept own continues located' there',
    whole₂.kept.fileOfStart alone.toSetting ⟨other, own, below⟩ there', print⟩

/-- When a file lies below two roots of different names, a run over the inner one and a run over the
outer one report a file as a duplicate of itself. -/
theorem Ran.itself {inner outer : Path} {more : List String} {d₁ d₂ : Disk}
    {later : Moment} {r₁ r₂ : Except Fault Outcome} (workable : Workable start roots file)
    (innerIn : inner ∈ roots) (outerIn : outer ∈ roots) (ne : inner.name ≠ outer.name)
    (atOuter : start.locate outer = .ok place) (atInner : start.locate inner = .ok (place ++ more))
    (there : start.root.at? (place ++ more ++ rel) = some (.file f))
    (first : Ran inner file false false now start r₁ d₁) (second : Ran outer file false false later d₁ r₂ d₂) :
    ∃ outcome, r₂ = .ok outcome ∧ ∃ dup ∈ outcome.duplicates, dup.Itself d₂ := by
  obtain ⟨doc, v, o, way, g, atIndex, content, noted, of, stands, print⟩ :=
    first.stores_note workable innerIn atInner there
  obtain ⟨-, -, -, -, -, -, whole₁, -⟩ := first.saves workable innerIn (whole_start workable)
  obtain ⟨d, i, whole, index, loaded, ⟨unique, size, rfl⟩, whole₂, -⟩ :=
    second.saves workable outerIn whole₁
  obtain rfl : Index.ofValue v = i := by
    have read := load_document (whole.directIndex workable)
      (by rw [whole.kept.absolute]; exact index.trans atIndex) content
    exact Except.ok.inj (read.symm.trans loaded)
  -- The noted file lies below the inner root, and so below the outer one.
  obtain ⟨place', rel', -, located, continues, rfl, -⟩ := of
  obtain rfl : place ++ more = place' := by simpa [atInner] using located
  rw [append_assoc] at stands
  obtain ⟨dup, reported, path, original⟩ :=
    whole.reports workable outerIn loaded atOuter stands (by rw [print]; exact noted) ne
  have again : FileOf start outer dup.path (place ++ (more ++ rel')) := by
    refine ⟨place, more ++ rel', g, atOuter, ⟨path, by simp [continues.2.1], ?_⟩, rfl, stands⟩
    exact fun x member => (Node.named_at? workable.named stands).1 x (mem_append_right _ member)
  have of : FileOf start inner o (place ++ (more ++ rel')) :=
    ⟨place ++ more, rel', g, atInner, continues, (append_assoc _ _ _).symm, stands⟩
  refine ⟨_, rfl, dup, reported, o.text, original, ?_⟩
  rw [ofString_text (of.readable workable innerIn), again.resolved workable whole₂.kept outerIn,
    of.resolved workable whole₂.kept innerIn]

/-! ## All series of runs -/

theorem itself_of_nested {w : Workspace} {inner outer : Path} {more : List String}
    (workable : Workable w.disk roots file) (innerIn : inner ∈ roots) (outerIn : outer ∈ roots)
    (ne : inner.name ≠ outer.name) (atOuter : w.disk.locate outer = .ok place)
    (atInner : w.disk.locate inner = .ok (place ++ more))
    (there : w.disk.root.at? (place ++ more ++ rel) = some (.file f)) : ¬ NeverItself file roots w := by
  intro never
  let first : Pass := ⟨inner, false, false, w.now⟩
  let second : Pass := ⟨outer, false, false, w.now⟩
  obtain ⟨outcome, ends, dup, reported, itself⟩ := Ran.itself workable innerIn outerIn ne atOuter atInner there
    (first.ran file w) (second.ran file (passes file [first] w))
  exact never [first] (by simpa using innerIn) second outerIn outcome ends dup reported itself

/-- No run of any series reports a file as a duplicate of itself exactly when no file lies below two
roots of different names. -/
theorem never_itself_iff_unshared {w : Workspace} (workable : Workable w.disk roots file) :
    NeverItself file roots w ↔ Unshared w.disk roots := by
  constructor
  · intro never first firstIn second secondIn differ way f there ⟨place, located, along⟩
      ⟨place', located', along'⟩
    obtain ⟨rel, rfl⟩ := along
    obtain ⟨rel', same⟩ := along'
    rcases List.prefix_or_prefix_of_prefix (List.prefix_append place rel) ⟨rel', same⟩ with
      ⟨more, rfl⟩ | ⟨more, rfl⟩
    · exact itself_of_nested workable secondIn firstIn differ.symm located located' (same ▸ there) never
    · exact itself_of_nested workable firstIn secondIn differ located' located there never
  · intro unshared series members pass member outcome ends dup reported
    have tidy := passes_tidy workable.toSetting (fun _ => unshared) members (tidy_start workable.toSetting)
    have ran := pass.ran file (passes file series w)
    have kept := (ran.tidy workable.toSetting (fun _ => unshared) member tidy).kept
    rw [ends] at ran
    exact (ran.foreign workable.toSetting (fun _ => unshared) member tidy dup reported).not_itself workable
      unshared kept member

/-! ### Copies beside and inside each other -/

theorem workable_copies {roots : List Path}
    (dirs : ∀ root ∈ roots, root.root = "/" ∧ copies.disk.locate root = .ok root.parts ∧
      copies.disk.root.IsDirAt root.parts ∧ root.parts ≠ []) : Workable copies.disk roots copiesIndex := by
  have setting : Setting copies.disk roots copiesIndex := setting_copies fun root member =>
    ⟨root.parts, (dirs root member).2.1, (dirs root member).2.2.1, (dirs root member).2.2.2⟩
  refine ⟨setting, ?_, ?_, ⟨_, rfl⟩, ?_, ?_, ?_, ?_⟩
  · intro root member
    obtain ⟨mark, -, ⟨es, dir⟩, -⟩ := dirs root member
    exact ⟨Or.inr (Or.inl mark), fun x inParts => ((Node.named_at? setting.named dir).1 x inParts).toIsName⟩
  · intro root member place rel f located there
    obtain ⟨mark, own, -, -⟩ := dirs root member
    obtain rfl : root.parts = place := by simpa [own] using located
    rw [mark]
    generalize root.parts ++ rel = way at there
    obtain ⟨-, rfl | rfl | rfl⟩ := (copies_nodes there).resolve_left nofun <;> rfl
  · decide
  · decide
  · decide
  · rintro ⟨es, dir⟩
    cases dir

theorem workable_copiesRoots : Workable copies.disk copiesRoots copiesIndex := by
  refine workable_copies ?_
  simp only [copiesRoots, forall_mem_cons, not_mem_nil, false_implies, implies_true, and_true, true_and]
  exact ⟨⟨rfl, ⟨_, rfl⟩, by simp⟩, ⟨rfl, ⟨_, rfl⟩, by simp⟩, ⟨rfl, ⟨_, rfl⟩, by simp⟩⟩

/-- Copies beside each other are never taken for themselves. -/
theorem copies_never_itself :
    Workable copies.disk copiesRoots copiesIndex ∧ Unshared copies.disk copiesRoots ∧
      NeverItself copiesIndex copiesRoots copies :=
  ⟨workable_copiesRoots, unshared_copies, (never_itself_iff_unshared workable_copiesRoots).2 unshared_copies⟩

/-- A project and the directory that it lies in. -/
def nestedRoots : List Path := [⟨"/", ["a"]⟩, ⟨"/", ["a", "app"]⟩]

theorem workable_nestedRoots : Workable copies.disk nestedRoots copiesIndex := by
  refine workable_copies ?_
  simp only [nestedRoots, forall_mem_cons, not_mem_nil, false_implies, implies_true, and_true, true_and]
  exact ⟨⟨rfl, ⟨_, rfl⟩, by simp⟩, ⟨rfl, ⟨_, rfl⟩, by simp⟩⟩

/-- The file of a project is taken for a duplicate of itself when the directory around it is scanned. -/
theorem nested_itself : ¬ NeverItself copiesIndex nestedRoots copies := by
  have inner : copies.disk.locate ⟨"/", ["a", "app"]⟩ = .ok (["a"] ++ ["app"]) := rfl
  have outer : copies.disk.locate ⟨"/", ["a"]⟩ = .ok ["a"] := rfl
  have there : copies.disk.root.at? (["a"] ++ ["app"] ++ ["f"]) = some (.file ⟨.text "x", default, 1⟩) := rfl
  exact itself_of_nested workable_nestedRoots (by simp [nestedRoots]) (by simp [nestedRoots]) (by decide)
    outer inner there

end Folio.Dedup

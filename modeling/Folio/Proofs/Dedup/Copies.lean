/-
# Proofs.Dedup.Copies -- what a scan says of a copy

A scan goes by what the index says at its start: a file is new, or a copy of what another project has (`original?`), and
that decides what is noted, reported, looked at and deleted (`Visited`, `Rooted.scan`).

A scan with an index that knows nothing notes every file that it can read (`noted_scan`).  When the same tree is scanned
once more, somewhere else and under another name, every file that can be read is reported (`copy_reported`); the two
trees only have to agree in names and contents.
-/
import Folio.Proofs.Dedup.Runs
import Folio.Proofs.Disk.Ready

namespace Folio.Dedup

open Action Dedup Disk Fields List Node Option Or Path Scan

open Disk (Linkless Reaches)

variable {e : Fault} {m : Node} {q : Path} {way : List String}
  {d : Disk} {s s' s'' : Scan} {project : String} {p root : Path} {ps : List Path} {fs gs : List File}
  {f : File} {n : Node} {looks : Fields} {key : String}

/-- The key under which a file is looked up when no links are in the way. -/
def keyOf (p : Path) : String := (Path.mk "/" p.parts).text

theorem keyOf_inj (names : ∀ x ∈ p.parts, IsName x) (names' : ∀ x ∈ q.parts, IsName x)
    (same : keyOf p = keyOf q) : p.parts = q.parts :=
  parts_of_text names names' same

/-! ## What an index says of a file -/

/-- What another project has noted under a fingerprint. -/
def other? (project : String) (notes : Fields) (h : String) : Option Note :=
  match get? notes h with
  | some note => if isOwn project note then none else some ⟨note.getOrNull "path", note.getOrNull "project"⟩
  | none => none

theorem other?_set {notes : Fields} {h : String} (none_ : other? project notes h = none) (p : Path) (h' : String) :
    other? project (set notes h (noteOf project p)) h' = other? project notes h' := by
  by_cases same : h' = h
  · subst same
    rw [none_, other?, get?_set]
    simp [isOwn_noteOf]
  · simp [other?, get?_set, if_neg same]

def printOf (i : Index) (v : Path × File) : String := (digest i.looks (keyOf v.1) v.2).1

/-- Where another project has the content of a file, by an index. -/
def original? (i : Index) (project : String) (v : Path × File) : Option Note := other? project i.notes (printOf i v)

theorem digest_congr {looks' : Fields} (same : get? looks key = get? looks' key) (f : File) :
    (digest looks key f).1 = (digest looks' key f).1 := by
  simp only [digest, known?, same]
  split <;> rfl

theorem digest_unseen (unseen : get? looks key = none) (f : File) :
    digest looks key f = (fingerprint f, set looks key ((lookOf f).toValue (fingerprint f))) := by
  have unknown : known? looks key (lookOf f) = none := by simp [known?, unseen]
  simp [digest, unknown]

theorem get?_digest_ne {key' : String} (ne : key' ≠ key) (f : File) :
    get? (digest looks key f).2 key' = get? looks key' := by
  simp only [digest]
  split
  · rfl
  · rw [get?_set, if_neg ne]

/-! ## What lies ahead of a scan -/

/-- The paths that a scan is still to visit: each is as it was on the disk `d`, and what the index says of the files
there is what `i` says. -/
structure Ahead (d : Disk) (i : Index) (project : String) (s : Scan) (ps : List Path) : Prop where
  linkless : s.disk.Linkless
  straight : ∀ p ∈ ps, p.Straight
  names : ∀ p ∈ ps, ∀ x ∈ p.parts, IsName x
  distinct : (ps.map (·.parts)).Nodup
  files : ∀ p ∈ ps, ∀ f, s.disk.file p = .ok f ↔ d.file p = .ok f
  looks : ∀ p ∈ ps, get? s.index.looks (keyOf p) = get? i.looks (keyOf p)
  others : ∀ h, other? project s.index.notes h = other? project i.notes h

def visited (d : Disk) (ps : List Path) : List (Path × File) :=
  ps.filterMap fun p => (d.file p).toOption.map (p, ·)

theorem visited_cons_ok (found : d.file p = .ok f) : visited d (p :: ps) = (p, f) :: visited d ps := by
  simp [visited, found, Except.toOption]

theorem visited_cons_error (missing : d.file p = .error e) : visited d (p :: ps) = visited d ps := by
  simp [visited, missing, Except.toOption]

theorem mem_visited {v : Path × File} : v ∈ visited d ps ↔ v.1 ∈ ps ∧ d.file v.1 = .ok v.2 := by
  obtain ⟨p, f⟩ := v
  simp only [visited, mem_filterMap, map_eq_some_iff, Prod.mk.injEq]
  constructor
  · rintro ⟨q, member, g, found, rfl, rfl⟩
    cases read : d.file q <;> simp_all [Except.toOption]
  · rintro ⟨member, found⟩
    exact ⟨p, member, f, by simp [found, Except.toOption], rfl, rfl⟩

theorem report_eq (linkless : s.disk.Linkless) (straight : p.Straight) (found : s.disk.file p = .ok f)
    (remove : Bool) (first : Note) : ∃ d, s.report remove first p = { s with
          disk := d
          index := { s.index with looks := if remove then erase s.index.looks (keyOf p) else s.index.looks }
          duplicates := s.duplicates ++ [⟨p, first, remove⟩] } ∧
      s.disk.Reaches (· = p.parts) d ∧ (∀ way, d.root.IsDirAt way → s.disk.root.IsDirAt way) ∧
      (remove = false → d = s.disk) ∧ (remove → d.root.at? p.parts = none) := by
  cases remove with
  | false => exact ⟨s.disk, rfl, Reaches.refl linkless, fun _ => id, fun _ => rfl, by simp⟩
  | true =>
    obtain ⟨d', unlinked, reaches, gone⟩ := unlink_linkless linkless straight found
    refine ⟨d', ?_, reaches, fun way dir => ?_, by simp, fun _ => gone⟩
    · simp [report, unlinked, Except.toOption, resolved_linkless reaches.linkless straight, keyOf]
    · rcases reaches.fresh way dir with before | ⟨_, rfl, b, along⟩
      · exact before
      · -- Above a file there are directories, and where it was there is nothing now.
        obtain ⟨there, -⟩ := (file_linkless linkless straight).1 found
        rw [← along] at there gone
        refine isDirAt_of_longer (b := b) (by simp [there]) ?_
        rintro rfl
        obtain ⟨es, dir⟩ := dir
        simp [dir] at gone

namespace Ahead

variable {i : Index} {remove : Bool}

section

variable (ahead : Ahead d i project s (p :: ps))

include ahead

theorem tail : Ahead d i project s ps where
  linkless := ahead.linkless
  straight q member := ahead.straight q (mem_cons_of_mem p member)
  names q member := ahead.names q (mem_cons_of_mem p member)
  distinct := (nodup_cons.1 ahead.distinct).2
  files q member := ahead.files q (mem_cons_of_mem p member)
  looks q member := ahead.looks q (mem_cons_of_mem p member)
  others := ahead.others

theorem ne (member : q ∈ ps) : q.parts ≠ p.parts := fun same =>
  (nodup_cons.1 ahead.distinct).1 (mem_map.2 ⟨q, member, same⟩)

theorem key_ne (member : q ∈ ps) : keyOf q ≠ keyOf p := fun same =>
  ahead.ne member (keyOf_inj (ahead.tail.names q member) (ahead.names p mem_cons_self) same)

theorem missing (missing : d.file p = .error e) : ∃ e, s.disk.file p = .error e := by
  cases found : s.disk.file p with
  | error e => exact ⟨e, rfl⟩
  | ok f =>
    rw [(ahead.files p mem_cons_self f).1 found] at missing
    cases missing

/-- The visit of a file goes by what the index said at the start. -/
theorem visit_eq (found : d.file p = .ok f) (remove : Bool) :
    s.visit remove project p = match original? i project (p, f) with
      | none => (s.looked (keyOf p) f).note project (printOf i (p, f)) p
      | some first => (s.looked (keyOf p) f).report remove first p := by
  have here := (ahead.files p mem_cons_self f).2 found
  have key : (s.disk.resolved p).text = keyOf p := by
    rw [resolved_linkless ahead.linkless (ahead.straight p mem_cons_self), keyOf]
  have print : (digest s.index.looks (keyOf p) f).1 = printOf i (p, f) :=
    digest_congr (ahead.looks p mem_cons_self) f
  rw [original?, ← ahead.others, other?]
  simp only [visit, here, key, print, isOwn]
  cases get? s.index.notes (printOf i (p, f)) with
  | none => rfl
  | some note =>
    cases own : !note.truthy || note.getOrNull "project" == .text project <;> simp [own, looked]

theorem looked (f : File) : Ahead d i project (s.looked (keyOf p) f) ps where
  linkless := ahead.linkless
  straight := ahead.tail.straight
  names := ahead.tail.names
  distinct := ahead.tail.distinct
  files := ahead.tail.files
  looks q member := (get?_digest_ne (ahead.key_ne member) f).trans (ahead.tail.looks q member)
  others := ahead.others

end

theorem note {h : String} (ahead : Ahead d i project s ps) (none_ : other? project i.notes h = none) (q : Path) :
    Ahead d i project (s.note project h q) ps :=
  ⟨ahead.linkless, ahead.straight, ahead.names, ahead.distinct, ahead.files, ahead.looks,
    fun h' => (other?_set ((ahead.others h).trans none_) q h').trans (ahead.others h')⟩

theorem report (ahead : Ahead d i project s ps) (straight : p.Straight) (off : ∀ q ∈ ps, q.parts ≠ p.parts)
    (apart : ∀ q ∈ ps, keyOf q ≠ keyOf p) (found : s.disk.file p = .ok f) (remove : Bool) (first : Note) :
    Ahead d i project (s.report remove first p) ps := by
  obtain ⟨d', same, reaches, -⟩ := report_eq ahead.linkless straight found remove first
  rw [same]
  refine ⟨reaches.linkless, ahead.straight, ahead.names, ahead.distinct, fun q member g => ?_,
    fun q member => ?_, ahead.others⟩
  · rw [← ahead.files q member g]
    exact file_of_leaf ahead.linkless reaches.linkless (ahead.straight q member) (reaches.leaves _ (off q member))
  · rw [← ahead.looks q member]
    cases remove with
    | false => rfl
    | true => exact (get?_erase _ _ _).trans (if_neg (apart q member))

theorem visit (ahead : Ahead d i project s (p :: ps)) (remove : Bool) :
    Ahead d i project (s.visit remove project p) ps := by
  cases found : d.file p with
  | error e =>
    obtain ⟨e, missing⟩ := ahead.missing found
    rw [visit_skip missing]
    exact ahead.tail
  | ok f =>
    rw [ahead.visit_eq found]
    cases original : original? i project (p, f) with
    | none => exact (ahead.looked f).note original p
    | some first =>
      exact (ahead.looked f).report (ahead.straight p mem_cons_self) (fun q => ahead.ne) (fun q => ahead.key_ne)
        ((ahead.files p mem_cons_self f).2 found) remove first

theorem visits (ahead : Ahead d i project s ps) (remove : Bool) :
    Ahead d i project (ps.foldl (Scan.visit remove project) s) [] := by
  induction ps generalizing s with
  | nil => exact ahead
  | cons p ps ih => exact ih (ahead.visit remove)

end Ahead

/-! ## What a scan does -/

section

variable (i : Index) (project : String) (remove : Bool)

def fresh (vs : List (Path × File)) : List (Path × File) := vs.filter fun v => (original? i project v).isNone

def reports (vs : List (Path × File)) : List Duplicate :=
  vs.filterMap fun v => (original? i project v).map (⟨v.1, ·, remove⟩)

def lookedAt (looks : Fields) (v : Path × File) : Fields :=
  if remove && (original? i project v).isSome then erase (digest looks (keyOf v.1) v.2).2 (keyOf v.1)
  else (digest looks (keyOf v.1) v.2).2

/-- What lies between a scan and one that has visited the files `vs` since. -/
structure Visited (vs : List (Path × File)) (s s' : Scan) : Prop where
  unique : s'.unique = s.unique + (fresh i project vs).length
  duplicates : s'.duplicates = s.duplicates ++ reports i project remove vs
  notes : s'.index.notes =
    setAll s.index.notes ((fresh i project vs).map fun v => (printOf i v, noteOf project v.1))
  looks : s'.index.looks = vs.foldl (lookedAt i project remove) s.index.looks
  reaches : s.disk.Reaches (fun way => ∃ v ∈ vs, way = v.1.parts) s'.disk
  dirs : ∀ way, s'.disk.root.IsDirAt way → s.disk.root.IsDirAt way
  disk : reports i project remove vs = [] ∨ remove = false → s'.disk = s.disk
  gone : remove → ∀ v ∈ vs, (original? i project v).isSome → ∀ f, s'.disk.file v.1 ≠ .ok f
  kept : ∀ v ∈ vs, (remove → original? i project v = none) → s'.disk.file v.1 = .ok v.2

end

variable {i : Index} {remove : Bool} {vs : List (Path × File)} {v : Path × File}

theorem get?_lookedAt_ne (ne : key ≠ keyOf v.1) : get? (lookedAt i project remove looks v) key = get? looks key := by
  unfold lookedAt
  split
  · rw [get?_erase, if_neg ne, get?_digest_ne ne]
  · exact get?_digest_ne ne v.2

theorem isSome_looked (there : (get? (vs.foldl (lookedAt i project remove) looks) key).isSome) :
    (get? looks key).isSome ∨ ∃ v ∈ vs, key = keyOf v.1 := by
  by_contra none_
  obtain ⟨absent, apart⟩ := not_or.1 none_
  refine absent (foldlRecOn (motive := fun looks' : Fields => (get? looks' key).isSome → (get? looks key).isSome)
    vs _ id (fun looks' held v member there => held ?_) there)
  rwa [get?_lookedAt_ne fun same => apart ⟨v, member, same⟩] at there

theorem fresh_cons (v : Path × File) (vs : List (Path × File)) :
    fresh i project (v :: vs) = fresh i project [v] ++ fresh i project vs := filter_append [v] vs

theorem reports_cons (v : Path × File) (vs : List (Path × File)) :
    reports i project remove (v :: vs) = reports i project remove [v] ++ reports i project remove vs :=
  filterMap_append (l := [v])

theorem length_fresh_add_reports (vs : List (Path × File)) :
    (fresh i project vs).length + (reports i project remove vs).length = vs.length := by
  induction vs with
  | nil => rfl
  | cons v vs ih =>
    cases original : original? i project v <;> simp [fresh, reports, original] at ih ⊢ <;> omega

namespace Visited

theorem refl (linkless : s.disk.Linkless) : Visited i project remove [] s s :=
  ⟨rfl, by simp [reports], rfl, rfl, .refl linkless, fun _ => id, fun _ => rfl, by simp, by simp⟩

theorem trans (first : Visited i project remove [v] s s') (rest : Visited i project remove vs s' s'')
    (straight : v.1.Straight) (off : ∀ u ∈ vs, v.1.parts ≠ u.1.parts) : Visited i project remove (v :: vs) s s'' where
  unique := by
    rw [rest.unique, first.unique, fresh_cons v vs, length_append, Nat.add_assoc]
  duplicates := by
    rw [rest.duplicates, first.duplicates, reports_cons v vs, append_assoc]
  notes := by
    rw [rest.notes, first.notes, fresh_cons v vs, map_append, setAll, setAll, setAll, foldl_append]
  looks := by rw [rest.looks, first.looks, ← foldl_append, singleton_append]
  reaches := by
    refine (first.reaches.mono ?_).trans (rest.reaches.mono ?_)
    · rintro way ⟨u, member, same⟩
      exact ⟨u, mem_cons.2 (inl (mem_singleton.1 member)), same⟩
    · rintro way ⟨u, member, same⟩
      exact ⟨u, mem_cons_of_mem v member, same⟩
  dirs way dir := first.dirs way (rest.dirs way dir)
  disk none_ := by
    rw [reports_cons v vs, append_eq_nil_iff] at none_
    rw [rest.disk (none_.imp_left And.right), first.disk (none_.imp_left And.left)]
  gone asked u member copied f found := by
    rcases mem_cons.1 member with rfl | later
    · refine first.gone asked u (mem_singleton_self u) copied f ?_
      refine (file_of_leaf first.reaches.linkless rest.reaches.linkless straight (rest.reaches.leaves _ ?_)).1 found
      rintro ⟨w, member, same⟩
      exact off w member same
    · exact rest.gone asked u later copied f found
  kept u member safe := by
    rcases mem_cons.1 member with rfl | later
    · refine (file_of_leaf first.reaches.linkless rest.reaches.linkless straight (rest.reaches.leaves _ ?_)).2
        (first.kept u (mem_singleton_self u) safe)
      rintro ⟨w, member, same⟩
      exact off w member same
    · exact rest.kept u later safe

end Visited

theorem visited_visit (ahead : Ahead d i project s (p :: ps)) (found : d.file p = .ok f) :
    Visited i project remove [(p, f)] s (s.visit remove project p) := by
  have here := (ahead.files p mem_cons_self f).2 found
  rw [ahead.visit_eq found]
  cases original : original? i project (p, f) with
  | none =>
    constructor <;> simp [fresh, reports, lookedAt, original, note, looked, setAll, here]
    exact .refl ahead.linkless
  | some first =>
    obtain ⟨d', same, reaches, dirs, untouched, gone⟩ := report_eq (s := s.looked (keyOf p) f) ahead.linkless
      (ahead.straight p mem_cons_self) here remove first
    simp only [same]
    constructor <;> simp [fresh, reports, lookedAt, original, looked, setAll]
    · exact reaches
    · exact dirs
    · exact untouched
    · intro asked g there
      have still := ((file_linkless reaches.linkless (ahead.straight p mem_cons_self)).1 there).1
      rw [gone asked] at still
      cases still
    · intro kept
      rw [untouched kept]
      exact here

theorem visited_visits (ahead : Ahead d i project s ps) (remove : Bool) :
    Visited i project remove (visited d ps) s (ps.foldl (visit remove project) s) := by
  induction ps generalizing s with
  | nil => exact .refl ahead.linkless
  | cons p ps ih =>
    rw [foldl_cons]
    cases found : d.file p with
    | error e =>
      obtain ⟨e, missing⟩ := ahead.missing found
      rw [visited_cons_error found, visit_skip missing]
      exact ih ahead.tail
    | ok f =>
      rw [visited_cons_ok found]
      refine (visited_visit ahead found).trans (ih (ahead.visit remove)) (ahead.straight p mem_cons_self) ?_
      exact fun u member => (ahead.ne (mem_visited.1 member).1).symm

/-! ## Scans of directories -/

/-- The files of a tree that can be read at a depth: look-ups bear so many names only. -/
def readable (depth : Nat) (n : Node) : List File :=
  n.ways.filterMap fun e =>
    match e.2 with
    | .file f => if (∀ x ∈ e.1, Legal x) ∧ depth + e.1.length ≤ stepLimit then some f else none
    | _ => none

theorem readable_bare (depth : Nat) (n : Node) : readable depth n.bare = (readable depth n).map File.bare := by
  rw [readable, readable, bare, ways_mapFiles, filterMap_map, map_filterMap]
  congr 1
  funext ⟨way, m⟩
  cases m with
  | file f =>
    simp only [Function.comp_apply, mapFiles_file]
    split <;> rfl
  | dir es | link t => simp

theorem prints_of_bare (alike : m.bare = n.bare) (depth : Nat) :
    (readable depth m).map fingerprint = (readable depth n).map fingerprint := by
  have print : fingerprint ∘ File.bare = fingerprint := by
    funext f
    simp [fingerprint, File.bare]
  have bared (k : Node) : (readable depth k).map fingerprint = (readable depth k.bare).map fingerprint := by
    rw [readable_bare, List.map_map, print]
  rw [bared m, bared n, alike]

/-- A directory that a scan can start from. -/
structure Rooted (d : Disk) (root : Path) (n : Node) : Prop where
  linkless : d.Linkless
  straight : root.Straight
  names : ∀ x ∈ root.parts, IsName x
  node : d.node root = .ok n
  neat : n.Neat

namespace Rooted

section

variable (rooted : Rooted d root n)

include rooted

theorem below : d.below root = n.ways.map fun e => ⟨root.root, root.parts ++ e.1⟩ := by
  rw [Disk.below, rooted.node]
  simp [inside_eq_ways]

section

variable (member : (way, m) ∈ n.ways)

include member

theorem names_of_mem : ∀ x ∈ way, IsEntry x :=
  (named_at? rooted.neat.named (at?_of_mem_ways rooted.neat.ordered member)).1

theorem straight_of_mem : (Path.mk root.root (root.parts ++ way)).Straight := by
  refine ⟨rooted.straight.rooted, fun up => ?_⟩
  rcases mem_append.1 up with above | inside
  · exact rooted.straight.plain above
  · exact (rooted.names_of_mem member _ inside).notUp rfl

theorem file (f : File) : d.file ⟨root.root, root.parts ++ way⟩ = .ok f ↔
      m = .file f ∧ (∀ x ∈ way, Legal x) ∧ root.parts.length + way.length ≤ stepLimit := by
  have there : d.root.at? (root.parts ++ way) = some m := by
    rw [at?_append, node_linkless rooted.linkless rooted.straight rooted.node]
    exact at?_of_mem_ways rooted.neat.ordered member
  have legal : ∀ x ∈ root.parts, Legal x := by
    obtain ⟨real, located, -⟩ := node_eq_ok.1 rooted.node
    exact ((locate_linkless rooted.linkless rooted.straight).1 located).2.1
  rw [file_linkless rooted.linkless (rooted.straight_of_mem member), there, forall_mem_append, length_append]
  constructor
  · rintro ⟨same, ⟨-, fits⟩, short⟩
    exact ⟨some.inj same, fits, short⟩
  · rintro ⟨rfl, fits, short⟩
    exact ⟨rfl, ⟨legal, fits⟩, short⟩

end

theorem read : (visited d (d.below root)).map (·.2) = readable root.parts.length n := by
  rw [visited, map_filterMap, rooted.below, filterMap_map]
  refine filterMap_congr fun ⟨way, m⟩ member => ?_
  have file := rooted.file member
  simp only [Function.comp_apply]
  cases found : d.file ⟨root.root, root.parts ++ way⟩ with
  | ok f =>
    obtain ⟨rfl, fits⟩ := (file f).1 found
    simp [Except.toOption, if_pos fits]
  | error e =>
    cases m with
    | file f =>
      have unfit : ¬ ((∀ x ∈ way, Legal x) ∧ root.parts.length + way.length ≤ stepLimit) := by
        intro fits
        rw [(file f).2 ⟨rfl, fits⟩] at found
        cases found
      simp [Except.toOption, unfit]
    | dir es | link t => rfl

theorem length_visited : (visited d (d.below root)).length = (readable root.parts.length n).length := by
  rw [← rooted.read, length_map]

theorem ahead (i : Index) (project : String) : Ahead d i project ⟨d, i, 0, []⟩ (d.below root) := by
  rw [rooted.below]
  have listed {P : Path → Prop} (each : ∀ way m, (way, m) ∈ n.ways → P ⟨root.root, root.parts ++ way⟩) :
      ∀ p ∈ n.ways.map fun e => Path.mk root.root (root.parts ++ e.1), P p := by
    intro p member
    obtain ⟨⟨way, m⟩, inside, rfl⟩ := mem_map.1 member
    exact each way m inside
  refine ⟨rooted.linkless, listed fun way m => rooted.straight_of_mem, listed fun way m member x inside => ?_, ?_,
    fun _ _ _ => Iff.rfl, fun _ _ => rfl, fun _ => rfl⟩
  · rcases mem_append.1 inside with above | inside
    · exact rooted.names x above
    · exact (rooted.names_of_mem member x inside).toIsName
  · rw [List.map_map]
    have distinct := nodup_ways n rooted.neat.ordered
    refine pairwise_map.2 ((pairwise_map.1 distinct).imp fun {a b} other same => other ?_)
    exact append_cancel_left same

theorem scan (i : Index) (remove : Bool) :
    Visited i root.name remove (visited d (d.below root)) ⟨d, i, 0, []⟩ (scan d i remove root) :=
  visited_visits (rooted.ahead i root.name) remove

end

end Rooted

/-! ## Copies of a directory -/

/-- A scan that knew nothing: it has noted the files of `vs` for the project itself. -/
structure Noted (project : String) (vs : List (Path × File)) (d : Disk) (s : Scan) : Prop where
  disk : s.disk = d
  unique : s.unique = vs.length
  duplicates : s.duplicates = []
  own : ∀ e ∈ s.index.notes, ∃ o, e.2 = noteOf project o
  noted : ∀ v ∈ vs, (get? s.index.notes (fingerprint v.2)).isSome
  looks : ∀ key, (get? s.index.looks key).isSome → ∃ v ∈ vs, key = keyOf v.1

theorem noted_scan (rooted : Rooted d root n) (remove : Bool) :
    Noted root.name (visited d (d.below root)) d (scan d .empty remove root) := by
  have scanned := rooted.scan .empty remove
  generalize visited d (d.below root) = vs at scanned
  have all : fresh .empty root.name vs = vs := filter_eq_self.2 fun v _ => rfl
  have none_ : reports .empty root.name remove vs = [] := filterMap_eq_nil_iff.2 fun v _ => rfl
  have notes := scanned.notes
  rw [all] at notes
  refine ⟨scanned.disk (inl none_), ?_, ?_, fun e member => ?_, fun v member => ?_, fun key there => ?_⟩
  · rw [scanned.unique, all, Nat.zero_add]
  · rw [scanned.duplicates, none_, nil_append]
  · rw [notes] at member
    rcases mem_setAll member with new | old
    · obtain ⟨v, -, rfl⟩ := mem_map.1 new
      exact ⟨v.1, rfl⟩
    · cases old
  · rw [notes]
    exact isSome_get?_setAll (inr (mem_map.2 ⟨_, mem_map.2 ⟨v, member, rfl⟩, rfl⟩))
  · rw [scanned.looks] at there
    exact (isSome_looked there).resolve_left (by simp [Index.empty, get?])

/-- A scan that noted nothing, and reported so many files. -/
structure Reported (remove : Bool) (count : Nat) (s : Scan) : Prop where
  unique : s.unique = 0
  length : s.duplicates.length = count
  removed : ∀ dup ∈ s.duplicates, dup.removed = remove

theorem copy_reported {d' : Disk} {root' : Path} {n' : Node} (first : Rooted d root n) (second : Rooted d' root' n')
    (alike : n'.bare = n.bare) (level : root'.parts.length = root.parts.length) (other : root.name ≠ root'.name)
    (remove remove' : Bool) : Reported remove' (readable root.parts.length n).length
      (scan d' (.ofValue (scan d .empty remove root).index.toValue) remove' root') := by
  have noted := noted_scan first remove
  have scanned := second.scan (.ofValue (scan d .empty remove root).index.toValue) remove'
  have count : (readable root.parts.length n).length = (visited d' (d'.below root')).length := by
    rw [second.length_visited, level]
    simpa using (congrArg length (prints_of_bare alike root.parts.length)).symm
  have known : ∀ v ∈ visited d' (d'.below root'),
      ∃ o, original? (.ofValue (scan d .empty remove root).index.toValue) root'.name v = some o := by
    intro v member
    -- The looks are those of the first scan, and its files lie elsewhere.
    have unseen : get? (scan d .empty remove root).index.looks (keyOf v.1) = none := by
      by_contra seen
      obtain ⟨u, there, same⟩ := noted.looks _ (isSome_iff_ne_none.2 seen)
      obtain ⟨listed, -⟩ := mem_visited.1 there
      obtain ⟨listed', -⟩ := mem_visited.1 member
      have parts := keyOf_inj ((second.ahead .empty "").names _ listed') ((first.ahead .empty "").names _ listed) same
      rw [second.below] at listed'
      rw [first.below] at listed
      obtain ⟨⟨way, m⟩, -, at_⟩ := mem_map.1 listed
      obtain ⟨⟨way', m'⟩, -, at_'⟩ := mem_map.1 listed'
      rw [← at_, ← at_'] at parts
      exact other (by simp [name, (append_inj parts level).1])
    have print : fingerprint v.2 ∈ (readable root.parts.length n).map fingerprint := by
      rw [← prints_of_bare alike, ← level, ← second.read]
      exact mem_map_of_mem (mem_map_of_mem member)
    rw [← first.read] at print
    obtain ⟨f, inside, same⟩ := mem_map.1 print
    obtain ⟨u, there, rfl⟩ := mem_map.1 inside
    obtain ⟨note, held⟩ := isSome_iff_exists.1 (noted.noted u there)
    obtain ⟨o, rfl⟩ := noted.own _ (mem_of_get? held)
    have objects : ∀ e ∈ (scan d .empty remove root).index.notes, e.2.isObject := by
      intro e member
      obtain ⟨o, note⟩ := noted.own e member
      rw [note]
      rfl
    rw [original?, printOf, looks_stored, digest_unseen unseen, other?, get?_stored objects,
      if_neg (fingerprint_ne_looksKey _), ← same, held]
    simp [isOwn_noteOf, other]
  have none_ : fresh (.ofValue (scan d .empty remove root).index.toValue) root'.name
      (visited d' (d'.below root')) = [] := by
    refine filter_eq_nil_iff.2 fun v member => ?_
    obtain ⟨o, found⟩ := known v member
    simp [found]
  refine ⟨?_, ?_, fun dup member => ?_⟩
  · rw [scanned.unique, none_]
    rfl
  · rw [scanned.duplicates, nil_append, count, ← length_fresh_add_reports, none_, length_nil, Nat.zero_add]
  · rw [scanned.duplicates] at member
    obtain ⟨v, -, made⟩ := mem_filterMap.1 member
    obtain ⟨o, -, rfl⟩ := map_eq_some_iff.1 made
    rfl

theorem removed_eq {o : Outcome} (flagged : ∀ dup ∈ o.duplicates, dup.removed = remove) :
    o.removed = if remove then o.duplicates.length else 0 := by
  cases remove <;> simpa [Outcome.removed] using flagged

/-! ## Runs -/

theorem steps_of_run {file : Path} {remove : Bool} {o : Outcome} {w w' : Workspace}
    (run : (run root file remove false).outcome w = (.ok o, w')) :
    ∃ d₁ d₂ i d₃ d₄, w.disk.makeDirs file.parent = .ok d₁ ∧ d₁.write (lockOf file) (.text "") w.now = .ok d₂ ∧
      load d₂ file = .ok i ∧ (scan d₂ i remove root).disk.makeDirs file.parent = .ok d₃ ∧
      d₃.write file (.document layout (scan d₂ i remove root).index.toValue) w.now = .ok d₄ ∧
      w' = { w with disk := d₄ } ∧ o.unique = (scan d₂ i remove root).unique ∧
      o.duplicates = (scan d₂ i remove root).duplicates ∧ Json.isPlain (scan d₂ i remove root).index.toValue := by
  obtain ⟨d, state, ran⟩ := ran_run root file remove false w
  rw [run] at state ran
  cases ran with
  | idle held => cases held
  | saved free took loaded again plain written =>
    obtain ⟨d₁, made, taken⟩ := took
    exact ⟨d₁, _, _, _, d, made, taken, loaded, again, written, state, rfl, rfl, plain⟩

end Folio.Dedup

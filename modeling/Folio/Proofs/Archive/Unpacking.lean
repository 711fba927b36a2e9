/-
# Proofs.Archive.Unpacking -- what an archive leaves on the disk

An archive that passes its checks is unpacked into a directory that was not there before.  Afterwards that directory
holds `tree a`: what its entries say, one after the other, and nothing else (`unpacked`).
-/
import Folio.Archive.Extraction
import Folio.Proofs.Workspace
import Mathlib.Data.List.Perm.Subperm

namespace Folio

open Action Disk List Node Option Path String Text

variable {d : Disk} {e : ArchiveEntry} {n : Node} {name : String} {p : Path} {way : List String}

namespace Archive

/-! ## Names of entries -/

def wayOf (name : String) : List String :=
  (Text.splitOn name "/").filter fun part => !(part == "" || part == "." || part == "..")

theorem entryPlace_eq (dir : Path) (name : String) : entryPlace dir name = ⟨dir.root, dir.parts ++ wayOf name⟩ := by
  suffices general : ∀ (parts : List String) (p : Path),
      parts.foldl (fun p part => if part == "" || part == "." || part == ".." then p else p.entry part) p =
        ⟨p.root, p.parts ++ parts.filter fun part => !(part == "" || part == "." || part == "..")⟩ from
    general _ dir
  intro parts
  induction parts with
  | nil => intro p; simp
  | cons x rest ih =>
    intro p
    rw [foldl_cons, ih, filter_cons]
    split
    · rename_i dropped
      simp [dropped]
    · rename_i kept
      simp [kept, entry]

theorem wayOf_names {x : String} (member : x ∈ wayOf name) : IsEntry x := by
  obtain ⟨piece, kept⟩ := mem_filter.1 member
  simp only [Bool.not_eq_true', Bool.or_eq_false_iff, beq_eq_false_iff_ne] at kept
  exact ⟨⟨kept.1.1, kept.1.2, noSlash_of_mem_splitOn piece⟩, kept.2⟩

def isSeparator (c : Char) : Bool := c == '/' || c == '\\'

def pieces (name : String) : List String := (name.toList.splitOnP isSeparator).map ofList

/-- A name that leads down from every directory. -/
structure StaysInside (name : String) : Prop where
  noUp : ".." ∉ pieces name
  relative : ∀ c ∈ name.toList.head?, isSeparator c = false
  driveless : name.toList[1]? ≠ some ':'
  below : ∀ dir : Path, (dir.child name).root = dir.root ∧ normalParts dir.parts <+: normalParts (dir.child name).parts

theorem isUnsafeName_eq_false_iff_pieces : isUnsafeName name = false ↔
    (∀ c ∈ name.toList.head?, isSeparator c = false) ∧ name.toList[1]? ≠ some ':' ∧ ".." ∉ pieces name := by
  let slashed (c : Char) : Char := if c == '\\' then '/' else c
  have up : ".." ∈ (ofString (ofList (name.toList.map slashed))).parts ↔ ".." ∈ pieces name := by
    have both : (· == '/') ∘ slashed = isSeparator := by
      funext c
      simp only [isSeparator]
      grind
    have dots (piece : List Char) : ofList (piece.map slashed) = ".." ↔ ofList piece = ".." := by
      rw [ofList_inj, ofList_inj]
      rcases piece with _ | ⟨c, _ | ⟨c', _ | _⟩⟩ <;> grind
    rw [ofString, splitOn_slash, toList_ofList, splitOn_eq_splitOnP, splitOnP_map, both, pieces]
    simp [dots]
  have first (c : Char) : slashed c = '/' ↔ isSeparator c := by
    simp only [isSeparator]
    grind
  have second (c : Char) : slashed c = ':' ↔ c = ':' := by
    grind
  rw [← up, isUnsafeName]
  rcases name.toList with _ | ⟨c, _ | ⟨c', cs⟩⟩
  · simp [show (ofString "").parts = [] from rfl]
  all_goals
    simp [slashed] at *
    split <;> simp_all

theorem parts_of_safe (safe : isUnsafeName name = false) :
    (ofString name).isAbsolute = false ∧ ".." ∉ (ofString name).parts := by
  obtain ⟨relative, -, noUp⟩ := isUnsafeName_eq_false_iff_pieces.1 safe
  constructor
  · cases letters : name.toList with
    | nil => simp [ofString, isAbsolute, letters]
    | cons c cs =>
      have other : c ≠ '/' := by
        rintro rfl
        exact absurd (relative '/' (by simp [letters])) (by decide)
      simp [ofString, isAbsolute, letters, other]
  · intro up
    obtain ⟨piece, -⟩ := mem_filter.1 up
    rw [splitOn_slash] at piece
    obtain ⟨dots, piece, same⟩ := mem_map.1 piece
    refine noUp (mem_map.2 ⟨dots, mem_splitOnP_of_finer (fun c slash => ?_) ?_ piece, same⟩)
    · simp_all [isSeparator]
    · rw [← toList_ofList (l := dots), same]
      simp [isSeparator]

theorem child_of_safe (safe : isUnsafeName name = false) (dir : Path) :
    dir.child name = ⟨dir.root, dir.parts ++ (ofString name).parts⟩ := by
  rw [child, Path.join, (parts_of_safe safe).1]
  rfl

theorem isUnsafeName_eq_false_iff : isUnsafeName name = false ↔ StaysInside name := by
  constructor
  · intro safe
    obtain ⟨relative, driveless, noUp⟩ := isUnsafeName_eq_false_iff_pieces.1 safe
    refine ⟨noUp, relative, driveless, fun dir => ?_⟩
    rw [child_of_safe safe, normalParts_append (parts_of_safe safe).2]
    exact ⟨rfl, prefix_append _ _⟩
  · intro inside
    exact isUnsafeName_eq_false_iff_pieces.2 ⟨inside.relative, inside.driveless, inside.noUp⟩

/-! ## What entries make of a directory -/

def graft (n : Node) (e : ArchiveEntry) : Node :=
  let n := n.withDirs [] (wayOf e.name).dropLast
  if Text.endsWith e.name "/" then n.withDirs [] (wayOf e.name)
  else (alter (fun _ => some (.file ⟨.bytes e.bytes, default, 0⟩)) (wayOf e.name) (some n)).getD n

def retouch (n : Node) (e : ArchiveEntry) : Node :=
  match n.at? (ofString e.name).parts with
  | some (.file f) => (alter (fun _ => some (.file f)) (ofString e.name).parts (some n)).getD n
  | _ => n

def tree (a : Archive) : Node := a.entries.foldl retouch (a.entries.foldl graft .empty)

theorem neat_graft (neat : n.Neat) (e : ArchiveEntry) : (graft n e).Neat := by
  have fits : ∀ x ∈ wayOf e.name, IsEntry x := fun _ => wayOf_names
  have above : (n.withDirs [] (wayOf e.name).dropLast).Neat :=
    neat.withDirs fun x member => fits x (dropLast_subset _ member)
  unfold graft
  split
  · exact above.withDirs fits
  · exact above.put (neat_file _) fits

theorem neat_retouch (neat : n.Neat) (e : ArchiveEntry) : (retouch n e).Neat := by
  unfold retouch
  split
  · rename_i f there
    exact neat.put (neat_file f) (named_at? neat.named there).1
  · exact neat

theorem neat_tree (a : Archive) : (tree a).Neat :=
  foldlRecOn _ retouch (foldlRecOn _ graft neat_empty fun _ neat e _ => neat_graft neat e)
    fun _ neat e _ => neat_retouch neat e

/-- The places that unpacking into a directory reaches. -/
def Unpacking (dir : Path) (aim : List String) : Prop := aim = dir.parent.parts ∨ dir.parts <+: aim

/-- Nothing but a directory was reached since the start, and it holds a tree now. -/
structure Holds (dir : Path) (start : Workspace) (tree : Node) (w : Workspace) : Prop where
  steady : Steady (Unpacking dir) start w
  isDir : w.disk.root.IsDirAt dir.parts
  held : ∃ n, w.disk.root.at? dir.parts = some n ∧ n.bare = tree

namespace Holds

variable {dir : Path} {start w w' : Workspace} {tree : Node} {rel : List String}

theorem step {aims : List String → Prop} {tree' : Node} (holds : Holds dir start tree w)
    (reaches : w.disk.Reaches aims d) (inside : ∀ aim, aims aim → Unpacking dir aim)
    (held : ∃ n, d.root.at? dir.parts = some n ∧ n.bare = tree') : Holds dir start tree' { w with disk := d } where
  steady := holds.steady.trans ⟨reaches.mono inside, rfl, rfl, rfl⟩
  isDir := reaches.dirs _ holds.isDir
  held := held

theorem straight (straight : dir.Straight) (plain : ".." ∉ rel) : (Path.mk dir.root (dir.parts ++ rel)).Straight :=
  ⟨straight.rooted, by simpa using ⟨straight.plain, plain⟩⟩

section

variable (holds : Holds dir start tree w) (straight : dir.Straight) (plain : ".." ∉ rel)

include holds straight plain

theorem present (there : w.disk.present ⟨dir.root, dir.parts ++ rel⟩) : tree.withDirs [] rel = tree := by
  obtain ⟨n, held, rfl⟩ := holds.held
  refine withDirs_present ?_
  unfold Disk.present at there
  cases found : w.disk.node ⟨dir.root, dir.parts ++ rel⟩ with
  | error t => simp [found, Except.toBool] at there
  | ok m =>
    have here := node_linkless holds.steady.linkless (Holds.straight straight plain) found
    rw [at?_append, held] at here
    rw [Node.bare, at?_mapFiles]
    simp [show n.at? rel = some m from here]

theorem makeDirs (run : (makeDirs ⟨dir.root, dir.parts ++ rel⟩).outcome w = (.ok (), w')) :
    Holds dir start (tree.withDirs [] rel) w' := by
  obtain ⟨n, held, rfl⟩ := holds.held
  obtain ⟨d, made, rfl⟩ := changed_of_ok run
  have straight' := Holds.straight straight plain
  have reaches := reaches_makeDirs holds.steady.linkless straight' made
  refine holds.step reaches ?_ ⟨n.withDirs [] rel, ?_, withDirs_mapFiles _ _ _ _⟩
  · rintro aim rfl
    exact Or.inr (prefix_append _ _)
  · rw [(root_makeDirs holds.steady.linkless straight' made).1, withDirs_append (by simp [held])]
    simpa using at?_withDirs held [] rel

end

theorem write (holds : Holds dir start tree w) (named : dir.parts ≠ []) (straight : p.Straight)
    (place : p.parts = dir.parts ++ rel) {c : Content} {t : Moment} (written : w.disk.write p c t = .ok d) :
    Holds dir start
      ((alter (fun _ => some (.file ⟨c, default, 0⟩)) rel (some tree)).getD tree) { w with disk := d } := by
  obtain ⟨n, held, rfl⟩ := holds.held
  obtain ⟨reaches, -, -, altered, -⟩ :=
    root_write holds.steady.linkless straight (by simp [place, named]) written
  rw [place] at reaches altered
  have within_ := seek_alter_within (fun _ => some (.file ⟨c, t, w.disk.writes + 1⟩)) rel held
  rw [altered] at within_
  refine holds.step reaches ?_ ?_
  · rintro aim rfl
    exact Or.inr (prefix_append _ _)
  · have bare := alter_mapFiles File.bare (fun _ => some (.file ⟨c, t, w.disk.writes + 1⟩))
      (fun _ => some (.file ⟨c, default, 0⟩)) (fun _ => by simp [File.bare]) rel (some n)
    rw [← within_] at bare
    obtain ⟨n', there⟩ : ∃ n', d.root.at? dir.parts = some n' := by
      obtain ⟨es, isDir⟩ := reaches.dirs _ holds.isDir
      exact ⟨_, isDir⟩
    refine ⟨n', there, ?_⟩
    rw [map_some] at bare
    rw [Node.bare, Node.bare, ← bare]
    simp [seek, there]

theorem notUp_wayOf (name : String) : ".." ∉ wayOf name := fun up => (wayOf_names up).notUp rfl

section

variable (holds : Holds dir start tree w) (straight : dir.Straight)

include holds straight

theorem makeParent (named : dir.parts ≠ []) (plain : ".." ∉ way)
    (run : (Archive.makeParent ⟨dir.root, dir.parts ++ way⟩).outcome w = (.ok (), w')) :
    Holds dir start (tree.withDirs [] way.dropLast) w' := by
  rw [Archive.makeParent, bind_of_ok (outcome_disk w)] at run
  by_cases ends : way = []
  · subst ends
    have above : (Path.mk dir.root (dir.parts ++ [])).parent = dir.parent := by simp
    rw [above] at run
    cases there : w.disk.present dir.parent with
    | true =>
      rw [there] at run
      obtain ⟨-, rfl⟩ := Prod.mk.inj run
      exact holds
    | false =>
      rw [there] at run
      obtain ⟨d, made, rfl⟩ := changed_of_ok run
      refine holds.step (reaches_makeDirs holds.steady.linkless straight.parent made) (fun _ => Or.inl) ?_
      -- The directory above is there, so nothing was made.
      have above : (w.disk.root.at? dir.parent.parts).isSome := by
        obtain ⟨es, isDir⟩ := holds.isDir
        have whole := concat_name named
        obtain ⟨_, there⟩ := isDirAt_of_longer (b := [dir.name]) (n := w.disk.root)
          (by rw [show dir.parent.parts ++ [dir.name] = dir.parts from whole, isDir]; rfl) (by simp)
        simp [there]
      rw [(root_makeDirs holds.steady.linkless straight.parent made).1, withDirs_present (by simpa using above)]
      exact holds.held
  · have above : (Path.mk dir.root (dir.parts ++ way)).parent = ⟨dir.root, dir.parts ++ way.dropLast⟩ := by
      simp [parent, dropLast_append_of_ne_nil ends]
    have plain' : ".." ∉ way.dropLast := fun up => plain (dropLast_subset _ up)
    rw [above] at run
    cases there : w.disk.present ⟨dir.root, dir.parts ++ way.dropLast⟩ with
    | true =>
      rw [there] at run
      obtain ⟨-, rfl⟩ := Prod.mk.inj run
      rw [holds.present straight plain' there]
      exact holds
    | false =>
      rw [there] at run
      exact holds.makeDirs straight plain' run

theorem unpackDirectory (plain : ".." ∉ way)
    (run : (Archive.unpackDirectory ⟨dir.root, dir.parts ++ way⟩).outcome w = (.ok (), w')) :
    Holds dir start (tree.withDirs [] way) w' := by
  rw [Archive.unpackDirectory, bind_of_ok (outcome_disk w)] at run
  cases isDir : w.disk.isDir ⟨dir.root, dir.parts ++ way⟩ with
  | true =>
    rw [isDir] at run
    obtain ⟨-, rfl⟩ := Prod.mk.inj run
    rw [holds.present straight plain (by
      unfold Disk.isDir at isDir
      unfold Disk.present
      cases found : w.disk.node ⟨dir.root, dir.parts ++ way⟩ with
      | error t => simp [found] at isDir
      | ok n => rfl)]
    exact holds
  | false =>
    rw [isDir] at run
    simp only [Bool.not_false, if_true] at run
    rw [bind_of_ok (outcome_disk w)] at run
    split at run
    · cases run
    · exact holds.makeDirs straight plain run

theorem unpackEntry (named : dir.parts ≠ []) (run : (Archive.unpackEntry dir e).outcome w = (.ok (), w')) :
    Holds dir start (graft tree e) w' := by
  have plain := notUp_wayOf e.name
  rw [Archive.unpackEntry, entryPlace_eq] at run
  obtain ⟨_, w₁, first, run⟩ := steps_of_bind run
  have holds₁ := holds.makeParent straight named plain first
  unfold graft
  split at run
  · rename_i isDir
    rw [if_pos isDir]
    exact holds₁.unpackDirectory straight plain run
  · rename_i isFile
    rw [if_neg isFile]
    obtain ⟨_, w₂, wrote, run⟩ := steps_of_bind run
    obtain ⟨d, written, rfl⟩ := written_of_ok wrote
    have holds₂ := holds₁.write named (Holds.straight straight plain) rfl written
    split at run
    · cases run
    · obtain ⟨-, rfl⟩ := Prod.mk.inj run
      exact holds₂

theorem restoreTime (named : dir.parts ≠ []) (safe : isUnsafeName e.name = false)
    (run : (Archive.restoreTime dir e).outcome w = (.ok (), w')) : Holds dir start (retouch tree e) w' := by
  have plain := (parts_of_safe safe).2
  rw [Archive.restoreTime, bind_of_ok (outcome_disk w), child_of_safe safe,
    resolved_linkless holds.steady.linkless (Holds.straight straight plain)] at run
  rw [bind_of_ok (outcome_disk w)] at run
  unfold retouch
  generalize (ofString e.name).parts = way at *
  have straight' : (Path.mk "/" (dir.parts ++ way)).Straight := ⟨rfl, (Holds.straight straight plain).plain⟩
  obtain ⟨n, held, bare⟩ := holds.held
  have read {m : Node} (found : w.disk.node ⟨"/", dir.parts ++ way⟩ = .ok m) : tree.at? way = some m.bare := by
    have here := node_linkless holds.steady.linkless straight' found
    rw [at?_append, held] at here
    rw [← bare, Node.bare, at?_mapFiles, show n.at? way = some m from here]
    rfl
  split at run
  · rename_i f found
    obtain ⟨d, written, rfl⟩ := changed_of_ok run
    rw [read found]
    exact holds.write named straight' rfl written
  · rename_i m other found
    obtain ⟨-, rfl⟩ := Prod.mk.inj run
    rw [read found]
    cases m with
    | file f => exact absurd rfl (other f)
    | dir es | link t => simpa [Node.bare] using holds
  · cases run

end

end Holds

/-! ## Free names -/

def crossed (name : String) (marks : Nat) : String := name ++ ofList (replicate marks 'X')

theorem crossed_succ (name : String) (marks : Nat) : crossed (name ++ "X") marks = crossed name (marks + 1) := by
  simp only [crossed, replicate_succ, String.append_assoc]
  simp

theorem crossed_inj {a b : Nat} (same : crossed name a = crossed name b) : a = b := by
  have length := congrArg String.length same
  simpa [crossed] using length

theorem freeName_eq (taken : String → Bool) (name : String) (tries : Nat) :
    ∃ k ≤ tries, freeName taken name tries = crossed name (k + 1) ∧
      (∀ j < k, taken (crossed name (j + 1))) ∧ (k < tries → taken (crossed name (k + 1)) = false) := by
  induction tries generalizing name with
  | zero => exact ⟨0, Nat.le_refl 0, rfl, by simp, by simp⟩
  | succ tries ih =>
    have once : crossed name 1 = name ++ "X" := rfl
    rw [freeName]
    cases inUse : taken (name ++ "X") with
    | false => exact ⟨0, Nat.zero_le _, rfl, by simp, fun _ => inUse⟩
    | true =>
      obtain ⟨k, within_, named, before, free⟩ := ih (name ++ "X")
      simp only [crossed_succ] at named before free
      refine ⟨k + 1, Nat.succ_le_succ within_, named, fun j less => ?_, fun less => free (by omega)⟩
      cases j with
      | zero => rwa [once]
      | succ j => exact before j (by omega)

theorem free_of_made {d' : Disk} {base : Path} (linkless : d.Linkless) (straight : base.Straight)
    (dir : d.root.IsDirAt base.parts) (some_ : base.parts ≠ []) (notUp : ∀ k, crossed name k ≠ "..")
    (made : d.makeDirs (base.entry (freeName (fun n => d.present (base.entry n)) name
      ((d.list base).toOption.getD []).length)) = .ok d') :
    d.root.at? (base.entry (freeName (fun n => d.present (base.entry n)) name
      ((d.list base).toOption.getD []).length)).parts = none := by
  obtain ⟨k, within_, named, before, free⟩ :=
    freeName_eq (fun n => d.present (base.entry n)) name ((d.list base).toOption.getD []).length
  rw [named] at made ⊢
  have straight' : ∀ j, (base.entry (crossed name j)).Straight := fun j => straight.entry (notUp j)
  obtain ⟨es, isDir⟩ := dir
  obtain ⟨es', listed⟩ := node_of_makeDirs linkless (straight' _) made rfl some_ (by simp [isDir])
  rw [← node_parts straight] at listed
  obtain rfl : es = es' := by
    have same := node_linkless linkless straight listed
    simpa [isDir] using same
  have length : ((d.list base).toOption.getD []).length = es.length := by
    simp [list, listed, Except.toOption]
  by_contra there
  obtain ⟨es', found⟩ := node_of_makeDirs linkless (straight' _) made (append_nil _).symm
    (by simp [entry]) (isSome_iff_ne_none.2 there)
  rw [← node_parts (straight' _)] at found
  have last : d.present (base.entry (crossed name (k + 1))) := by simp [Disk.present, found, Except.toBool]
  have full : k = es.length := by
    by_contra short
    have unused := free (by omega)
    simp [last] at unused
  -- More names are in use than there are entries.
  have names : (range (k + 1)).map (fun j => crossed name (j + 1)) ⊆ es.map (·.1) := by
    intro x member
    obtain ⟨j, less, rfl⟩ := mem_map.1 member
    have inUse : d.present (base.entry (crossed name (j + 1))) := by
      rcases Nat.lt_succ_iff_lt_or_eq.1 (mem_range.1 less) with earlier | rfl
      · exact before j earlier
      · exact last
    unfold Disk.present at inUse
    cases found : d.node (base.entry (crossed name (j + 1))) with
    | error t => simp [found, Except.toBool] at inUse
    | ok n =>
      have here := node_linkless linkless (straight' _) found
      rw [entry, at?_snoc, isDir] at here
      obtain ⟨l, r, rfl, -⟩ := lookup_eq_some_iff.1 here
      simp
  have distinct : ((range (k + 1)).map fun j => crossed name (j + 1)).Nodup :=
    pairwise_map.2 (nodup_range.imp fun {a b} other same => other (by simpa using crossed_inj same))
  have counted := (subperm_of_subset distinct names).length_le
  simp only [List.length_map, length_range] at counted
  omega

theorem notUp_crossed (stem : String) (marks : Nat) : crossed (directoryName stem) marks ≠ ".." :=
  ne_of_mem '_' (by simp [crossed, directoryName]) (by decide)

theorem isName_crossed (stem : String) (marks : Nat) : IsName (crossed (directoryName stem) marks) := by
  have bar : '_' ∈ (crossed (directoryName stem) marks).toList := by simp [crossed, directoryName]
  refine ⟨ne_of_mem '_' bar (by decide), ne_of_mem '_' bar (by decide), fun slash => ?_⟩
  simp only [crossed, directoryName, toList_append, toList_ofList, mem_append, List.mem_map] at slash
  rcases slash with (⟨c, -, same⟩ | bar) | cross
  · split at same
    · rename_i clean
      subst same
      revert clean
      decide
    · revert same
      decide
  · revert bar
    decide
  · exact absurd (eq_of_mem_replicate cross) (by decide)

/-! ## Unpacking -/

/-- An archive was unpacked: into a directory that was not there, and into nothing else. -/
structure Unpacked (temp : Path) (stem : String) (tree : Node) (w : Workspace) (dir : Path) (w' : Workspace) :
    Prop where
  place : ∃ k, dir = (unpackDir temp).entry (crossed (directoryName stem) (k + 1))
  fresh : w.disk.root.at? dir.parts = none
  holds : Holds dir w tree w'

namespace Source

def content? (d : Disk) : Source → Option Content
  | .file p =>
    match d.node p with
    | .ok (.file f) => some f.content
    | .ok _ => some (.bytes [])
    | .error _ => none
  | .upload _ c => some c

def archive? (d : Disk) (source : Source) : Option Archive := (source.content? d).bind ofContent?

/-- The archive that is unpacked, if any. -/
def checked? (d : Disk) (source : Source) : Option Archive := (source.archive? d).filter fun a => (complaint? a).isNone

def stem : Source → String
  | .file p => p.stem
  | .upload filename _ =>
    let name := match filename with
      | some n => if n == "" then "uploaded_project.zip" else n
      | none => "uploaded_project.zip"
    (ofString name).stem

def onDisk : Source → Bool
  | .file _ => true
  | .upload _ _ => false

end Source

variable {temp dir : Path} {stem : String} {w w' : Workspace} {a : Archive}

theorem Unpacked.straight {tree : Node} (unpacked : Unpacked temp stem tree w dir w') (straight : temp.Straight) :
    dir.Straight ∧ dir.parts ≠ [] := by
  obtain ⟨k, rfl⟩ := unpacked.place
  exact ⟨(straight.entry (by decide)).entry (notUp_crossed stem _), by simp [entry]⟩

theorem unpacked_freshDirectory (linkless : w.disk.Linkless) (straight : temp.Straight)
    (run : (freshDirectory temp stem).outcome w = (.ok dir, w')) : Unpacked temp stem .empty w dir w' := by
  have base : (unpackDir temp).Straight := straight.entry (by decide)
  obtain ⟨_, w₁, first, run⟩ := steps_of_bind run
  obtain ⟨d₁, made₁, rfl⟩ := changed_of_ok first
  obtain ⟨-, linkless₁, isDir⟩ := root_makeDirs linkless base made₁
  rw [bind_of_ok (outcome_disk _)] at run
  obtain ⟨_, w₂, second, run⟩ := steps_of_bind run
  obtain ⟨d₂, made₂, rfl⟩ := changed_of_ok second
  obtain ⟨rfl, rfl⟩ : _ = dir ∧ _ = w' := by simpa using run
  have nothing := free_of_made linkless₁ base isDir (by simp [unpackDir, entry]) (fun k => notUp_crossed stem k) made₂
  obtain ⟨k, -, named, -⟩ := freeName_eq (fun n => d₁.present ((unpackDir temp).entry n)) (directoryName stem)
    ((d₁.list (unpackDir temp)).toOption.getD []).length
  rw [named] at nothing made₂ ⊢
  have straight' := base.entry (notUp_crossed stem (k + 1))
  have reaches₁ := reaches_makeDirs linkless base made₁
  have reaches₂ := reaches_makeDirs linkless₁ straight' made₂
  have empty := at?_made linkless₁ straight' isDir nothing made₂
  refine ⟨⟨k, rfl⟩, (frame_makeDirs made₁).absent (by simp) nothing, ?_, ⟨[], empty⟩, _, empty, by simp [Node.bare]⟩
  refine ⟨(reaches₁.mono ?_).trans (reaches₂.mono ?_), rfl, rfl, rfl⟩
  · rintro aim rfl
    exact Or.inl (by simp [entry, parent])
  · rintro aim rfl
    exact Or.inr (prefix_refl _)

theorem unpacked_unpack {onDisk : Bool} (linkless : w.disk.Linkless) (straight : temp.Straight)
    (safe : ∀ e ∈ a.entries, isUnsafeName e.name = false)
    (run : (unpack temp stem onDisk a).outcome w = (.ok (.unpacked dir), w')) : Unpacked temp stem (tree a) w dir w' := by
  obtain ⟨dir', w₁, first, run⟩ := steps_of_bind run
  have fresh := unpacked_freshDirectory linkless straight first
  obtain ⟨straight', named⟩ := fresh.straight straight
  obtain ⟨_, w₂, entries, run⟩ := steps_of_bind run
  have held := loop_keeps (P := fun n w' => Holds dir' w n w') (g := graft)
    (fun e _ n v v' holds one => holds.unpackEntry straight' named one) fresh.holds entries
  cases onDisk with
  | false => cases run
  | true =>
    obtain ⟨_, w₃, times, run⟩ := steps_of_bind run
    have timed := loop_keeps (P := fun n w' => Holds dir' w n w') (g := retouch)
      (fun e member n v v' holds one => holds.restoreTime straight' named (safe e member) one) held times
    rw [bind_of_ok (outcome_disk _)] at run
    split at run
    · obtain ⟨_, w₄, -, run⟩ := steps_of_bind run
      simp at run
    · obtain ⟨rfl, rfl⟩ : dir' = dir ∧ w₃ = w' := by simpa using run
      exact ⟨fresh.place, fresh.fresh, timed⟩

theorem complaint?_eq_none_iff : complaint? a = none ↔
    a.broken = false ∧ damaged? a = none ∧ ∀ e ∈ a.entries, isUnsafeName e.name = false := by
  unfold complaint?
  cases a.broken with
  | true => simp
  | false => cases damaged? a <;> simp [escaping?]

theorem outcome_extract (temp : Path) (source : Source) (w : Workspace) :
    (source.checked? w.disk = none ∧ ∃ words, (extract temp source).outcome w = (.ok (.refused words), w)) ∨
      ∃ a, source.checked? w.disk = some a ∧
        (extract temp source).outcome w = (unpack temp source.stem source.onDisk a).outcome w := by
  unfold extract Source.checked? Source.archive?
  rw [bind_of_ok (outcome_disk w)]
  cases source with
  | file p =>
    cases found : w.disk.node p with
    | error t =>
      simp only [found, Source.content?]
      exact .inl ⟨rfl, _, rfl⟩
    | ok n =>
      cases n with
      | file f =>
        simp only [found, Source.content?, pure_bind, bind_some]
        cases ofContent? f.content with
        | none => exact .inl ⟨rfl, _, rfl⟩
        | some a => cases fine : complaint? a <;> simp [fine, Source.stem, Source.onDisk]
      | dir es | link t =>
        simp only [found, Source.content?]
        exact .inl ⟨rfl, _, rfl⟩
  | upload filename c =>
    simp only [Source.content?, pure_bind, bind_some]
    cases ofContent? c with
    | none => exact .inl ⟨rfl, _, rfl⟩
    | some a =>
      cases fine : complaint? a <;> simp [fine, Source.stem] <;> rfl

theorem unpacked (linkless : w.disk.Linkless) (straight : temp.Straight)
    (run : (extractOrFail temp (.file p)).outcome w = (.ok dir, w')) :
    ∃ f a, w.disk.file p = .ok f ∧ ofContent? f.content = some a ∧ Unpacked temp p.stem (tree a) w dir w' := by
  obtain ⟨outcome, w₁, extracted, run⟩ := steps_of_bind run
  cases outcome with
  | refused words => cases run
  | unpacked dir' =>
    obtain ⟨rfl, rfl⟩ : dir' = dir ∧ w₁ = w' := by simpa using run
    rcases outcome_extract temp (.file p) w with ⟨-, words, refused⟩ | ⟨a, checked, outcome⟩
    · simp [refused] at extracted
    · obtain ⟨read, fine⟩ := Option.filter_eq_some_iff.1 checked
      obtain ⟨c, found, read⟩ := Option.bind_eq_some_iff.1 read
      have fine : complaint? a = none := by simpa using fine
      rw [outcome] at extracted
      have held := unpacked_unpack linkless straight (complaint?_eq_none_iff.1 fine).2.2 extracted
      rw [Source.content?.eq_def] at found
      dsimp only at found
      split at found
      · rename_i f there
        obtain rfl := Option.some.inj found
        exact ⟨f, a, by simp [Disk.file, there], read, held⟩
      · obtain rfl := Option.some.inj found
        exact absurd read (by simp [show ofContent? (.bytes []) = none by decide])
      · cases found

/-- The names that are accepted are those that stay inside, and nothing is unpacked unless all names do. -/
theorem accepts_iff_staysInside (name : String) (a : Archive) (temp : Path) (source : Source) (w : Workspace) :
    (isUnsafeName name = false ↔ StaysInside name) ∧
      (complaint? a = none ↔ a.broken = false ∧ damaged? a = none ∧ ∀ e ∈ a.entries, StaysInside e.name) ∧
      ((∃ words, (extract temp source).outcome w = (.ok (.refused words), w)) ∨
        ∃ a, source.archive? w.disk = some a ∧ ∀ e ∈ a.entries, StaysInside e.name) := by
  have whole {a : Archive} : complaint? a = none ↔
      a.broken = false ∧ damaged? a = none ∧ ∀ e ∈ a.entries, StaysInside e.name := by
    simp only [complaint?_eq_none_iff, isUnsafeName_eq_false_iff]
  refine ⟨isUnsafeName_eq_false_iff, whole, ?_⟩
  rcases outcome_extract temp source w with ⟨-, refused⟩ | ⟨a, checked, -⟩
  · exact .inl refused
  · obtain ⟨read, fine⟩ := Option.filter_eq_some_iff.1 checked
    exact .inr ⟨a, read, (whole.1 (by simpa using fine)).2.2⟩

end Archive

end Folio

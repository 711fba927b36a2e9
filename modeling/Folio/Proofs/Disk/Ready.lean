/-
# Proofs.Disk.Ready -- the tree below a directory, and places where a file can be written

A change below a directory is a change of the tree that stands there (`seek_alter_within`).  `bare` takes the times off
all files: trees that are built by the same changes at different times are the same without them.

`Ready d base name` says that a directory without links leads to a place and that no directory stands there.  Then a
file can be written to it (`Ready.write`), and changes elsewhere keep the place ready (`Ready.step`).
-/
import Folio.Proofs.Disk.Contents
import Folio.Proofs.Disk.Linkless

namespace Folio

open List Node Option Or Path

variable {above done todo way : List String} {n root : Node}

def File.bare (f : File) : File := ⟨f.content, default, 0⟩

namespace Node

def bare (n : Node) : Node := n.mapFiles File.bare

/-! ## Below a directory -/

theorem seek_alter_within (change : Option Node → Option Node) (rel : List String) (there : root.at? above = some n) :
    seek (alter change (above ++ rel) (some root)) above = alter change rel (some n) := by
  induction above generalizing root with
  | nil =>
    obtain rfl : root = n := by simpa using there
    simp
  | cons x above ih =>
    obtain ⟨es, m, rfl, found, further⟩ := of_at?_cons there
    obtain ⟨es', altered, own, -⟩ := alter_dir change x (above ++ rel) es
    rw [cons_append, altered, seek_cons]
    change seek (es'.lookup x) above = _
    rw [own, found]
    exact ih further

/-! ## Missing directories -/

def withDir (way : List String) (n : Node) : Node :=
  if (n.at? way).isSome then n else (alter (fun _ => some .empty) way (some n)).getD n

/-- The tree with the missing directories on a way that goes on from another one. -/
def withDirs : (done todo : List String) → Node → Node
  | _, [], n => n
  | done, x :: rest, n => withDirs (done ++ [x]) rest (n.withDir (done ++ [x]))

theorem withDir_present (there : (n.at? way).isSome) : n.withDir way = n :=
  if_pos there

theorem alter_withDir (missing : ¬ (n.at? way).isSome) :
    alter (fun _ => some .empty) way (some n) = some (n.withDir way) := by
  obtain ⟨m, made⟩ := ne_none_iff_exists'.1 (Disk.alter_some_ne_none .empty way (some n))
  rw [withDir, if_neg missing, made, getD_some]

theorem withDirs_present (there : (n.at? (done ++ todo)).isSome) : n.withDirs done todo = n := by
  induction todo generalizing done with
  | nil => rfl
  | cons x rest ih =>
    rw [append_cons] at there
    rw [withDirs, withDir_present (isSome_of_longer there), ih there]

theorem withDirs_snoc (done todo : List String) (x : String) (n : Node) :
    n.withDirs done (todo ++ [x]) = (n.withDirs done todo).withDir (done ++ todo ++ [x]) := by
  induction todo generalizing done n with
  | nil => simp [withDirs]
  | cons y rest ih => rw [cons_append, withDirs, withDirs, ih, ← append_cons]

theorem withDirs_append (there : (n.at? above).isSome) (rel : List String) :
    n.withDirs [] (above ++ rel) = n.withDirs above rel := by
  suffices general : ∀ (todo done : List String), (n.at? (done ++ todo)).isSome →
      n.withDirs done (todo ++ rel) = n.withDirs (done ++ todo) rel from general above [] there
  intro todo
  induction todo with
  | nil => intro done _; simp
  | cons x rest ih =>
    intro done there
    rw [append_cons] at there ⊢
    rw [cons_append, withDirs, withDir_present (isSome_of_longer there), ih _ there]

theorem at?_withDir (there : root.at? above = some n) (rel : List String) :
    (root.withDir (above ++ rel)).at? above = some (n.withDir rel) := by
  have same : root.at? (above ++ rel) = n.at? rel := by rw [at?_append, there, seek, bind_some]
  by_cases present : (n.at? rel).isSome
  · rw [withDir_present (same ▸ present), withDir_present present, there]
  · have within_ := seek_alter_within (fun _ => some .empty) rel there
    rwa [alter_withDir (same ▸ present), alter_withDir present] at within_

theorem at?_withDirs (there : root.at? above = some n)
    (done todo : List String) : (root.withDirs (above ++ done) todo).at? above = some (n.withDirs done todo) := by
  induction todo generalizing root n done with
  | nil => exact there
  | cons x rest ih =>
    have here := at?_withDir there (done ++ [x])
    rw [withDirs, append_assoc]
    exact ih here (done ++ [x])

theorem withDir_mapFiles (g : File → File) (way : List String) (n : Node) :
    (n.withDir way).mapFiles g = (n.mapFiles g).withDir way := by
  have altered := alter_mapFiles g (fun _ => some .empty) (fun _ => some .empty) (fun _ => by simp) way (some n)
  simp only [map_some] at altered
  unfold withDir
  rw [at?_mapFiles, isSome_map, ← altered]
  split
  · rfl
  · cases alter (fun _ => some .empty) way (some n) <;> rfl

theorem withDirs_mapFiles (g : File → File) (done todo : List String) (n : Node) :
    (n.withDirs done todo).mapFiles g = (n.mapFiles g).withDirs done todo := by
  induction todo generalizing done n with
  | nil => rfl
  | cons x rest ih => rw [withDirs, withDirs, ih, withDir_mapFiles]

/-! ## Neat trees -/

/-- A tree whose entries are in order, under names that entries can have. -/
structure Neat (n : Node) : Prop where
  ordered : n.Ordered
  named : n.Named IsEntry

theorem neat_empty : empty.Neat := ⟨ordered_empty, by simp [empty, Named, NamedEntries]⟩

theorem neat_file (f : File) : (file f).Neat := ⟨ordered_file f, by simp [Named]⟩

theorem neat_bare : n.bare.Neat ↔ n.Neat :=
  ⟨fun neat => ⟨(ordered_mapFiles _ n).1 neat.ordered, (named_mapFiles _ n).1 neat.named⟩,
    fun neat => ⟨(ordered_mapFiles _ n).2 neat.ordered, (named_mapFiles _ n).2 neat.named⟩⟩

theorem Neat.put {m : Node} (neat : n.Neat) (new : m.Neat)
    (fits : ∀ x ∈ way, IsEntry x) : ((alter (fun _ => some m) way (some n)).getD n).Neat := by
  cases made : alter (fun _ => some m) way (some n) with
  | none => exact neat
  | some k =>
    constructor
    · exact ordered_alter (fun _ => some m) (by simpa using fun _ _ => new.ordered) way (some n)
        (by simpa using neat.ordered) k made
    · exact named_alter (fun _ => some m) (by simpa using fun _ _ => new.named) way fits (some n)
        (by simpa using neat.named) k made

theorem Neat.withDirs (neat : n.Neat) (fits : ∀ x ∈ done ++ todo, IsEntry x) : (n.withDirs done todo).Neat := by
  induction todo generalizing done n with
  | nil => exact neat
  | cons x rest ih =>
    rw [append_cons] at fits
    refine ih ?_ fits
    unfold withDir
    split
    · exact neat
    · exact neat.put neat_empty fun y member => fits y (mem_append_left _ member)

end Node

namespace Disk

variable {d d' : Disk} {p : Path} {name : String}

/-! ## Making directories -/

theorem straight_of_parts {rest : List String} (straight : p.Straight)
    (parts : p.parts = way ++ name :: rest) : (Path.mk "/" (way ++ [name])).Straight := by
  refine ⟨rfl, fun up => straight.plain ?_⟩
  rw [parts, append_cons]
  exact mem_append_left _ up

section

variable (linkless : d.Linkless)

include linkless

theorem made_linkless (straight : (Path.mk "/" (way ++ [name])).Straight) (one : Made d (way ++ [name]) d') :
    (∃ es, d.node ⟨"/", way ++ [name]⟩ = .ok (.dir es) ∧ d.root.at? (way ++ [name]) = some (.dir es) ∧ d' = d) ∨
      d.root.at? (way ++ [name]) = none ∧ d' = d.putAt (way ++ [name]) .empty ∧ Reaches (· = way ++ [name]) d d' := by
  obtain ⟨es, there, rfl⟩ | ⟨place, -, -, placed, nothing, rfl⟩ := one
  · exact inl ⟨es, there, node_linkless linkless straight there, rfl⟩
  · obtain ⟨rfl, -⟩ := placeFor_linkless linkless straight (by simp) placed
    exact inr ⟨nothing, rfl, reaches_alter (alter_putAt d (way ++ [name]) .empty) rfl linkless
      (not_isDirAt (by simp [nothing])) (fun way further => seek_empty further) (by simp [empty])⟩

section

variable (straight : p.Straight) (made : d.makeDirs p = .ok d')

include straight made

theorem filled_makeDirs :
    d'.root = d.root.withDirs [] p.parts ∧ Reaches (· <+: p.parts) d d' ∧ d'.root.IsDirAt p.parts := by
  have own : d.absolute p = p := absolute_straight straight
  rw [← own]
  refine makeDirs_run (I := fun d₁ way => d₁.root = d.root.withDirs [] way ∧
    Reaches (· <+: (d.absolute p).parts) d d₁ ∧ d₁.root.IsDirAt way) made ⟨rfl, .refl linkless, linkless.isDir⟩ ?_
  rintro way name rest d₁ d₂ whole ⟨root, reaches, dir⟩ one
  rw [withDirs_snoc, ← root]
  obtain ⟨es, -, here, rfl⟩ | ⟨nothing, rfl, put⟩ :=
    made_linkless reaches.linkless (straight_of_parts straight (own ▸ whole)) one
  · exact ⟨(withDir_present (isSome_of_eq_some here)).symm, reaches, es, here⟩
  · refine ⟨by simp [withDir, nothing, putAt], reaches.trans (put.mono ?_), [], at?_putAt (inr (by simpa using dir))⟩
    rintro aim rfl
    exact ⟨rest, by simp [whole]⟩

theorem root_makeDirs : d'.root = d.root.withDirs [] p.parts ∧ d'.Linkless ∧ d'.root.IsDirAt p.parts := by
  obtain ⟨root, reaches, dir⟩ := filled_makeDirs linkless straight made
  exact ⟨root, reaches.linkless, dir⟩

theorem reaches_makeDirs : Reaches (· = p.parts) d d' := by
  have frame := frame_makeDirs made
  obtain ⟨-, reaches, -⟩ := filled_makeDirs linkless straight made
  refine ⟨⟨frame.current, fun way _ => frame.leaves way id, frame.dirs⟩, reaches.linkless, fun way dir off => ?_,
    fun way dir => ?_⟩
  · exact reaches.trees way dir fun aim before along => off p.parts rfl (along.trans before)
  · exact (reaches.fresh way dir).imp_right fun ⟨aim, before, along⟩ => ⟨p.parts, rfl, along.trans before⟩

theorem node_of_makeDirs {rest : List String} (parts : p.parts = above ++ rest) (further : above ≠ [])
    (there : (d.root.at? above).isSome) : ∃ es, d.node ⟨"/", above⟩ = .ok (.dir es) := by
  have own : d.absolute p = p := absolute_straight straight
  suffices found : ∀ above rest, p.parts = above ++ rest → above ≠ [] → (d.root.at? above).isSome →
      ∃ es, d.node ⟨"/", above⟩ = .ok (.dir es) from found above rest parts further there
  rw [← own]
  -- As long as something is there, nothing was made.
  refine (makeDirs_run (I := fun d₁ way => (∀ above rest, way = above ++ rest → above ≠ [] →
    (d.root.at? above).isSome → ∃ es, d.node ⟨"/", above⟩ = .ok (.dir es)) ∧ ((d.root.at? way).isSome → d₁ = d))
    made ⟨by simp, fun _ => rfl⟩ ?_).1
  rintro way name rest d₁ d₂ whole ⟨above, same⟩ one
  have here (there : (d.root.at? (way ++ [name])).isSome) :
      d₂ = d ∧ ∃ es, d.node ⟨"/", way ++ [name]⟩ = .ok (.dir es) := by
    obtain rfl := same (isSome_of_longer there)
    obtain ⟨es, found, -, rfl⟩ | ⟨nothing, -⟩ := made_linkless linkless (straight_of_parts straight (own ▸ whole)) one
    · exact ⟨rfl, es, found⟩
    · simp [nothing] at there
  refine ⟨fun front rest split further there => ?_, fun there => (here there).1⟩
  rcases prefix_concat_iff.1 (⟨rest, split.symm⟩) with rfl | ⟨shorter, rfl⟩
  · exact (here there).2
  · exact above front shorter rfl further there

end

theorem at?_made {base : Path} (straight : (base.entry name).Straight)
    (dir : d.root.IsDirAt base.parts) (nothing : d.root.at? (base.entry name).parts = none)
    (made : d.makeDirs (base.entry name) = .ok d') : d'.root.at? (base.entry name).parts = some .empty := by
  obtain ⟨es, there⟩ := dir
  have missing : d.root.at? (base.parts ++ [name]) = none := nothing
  rw [(root_makeDirs linkless straight made).1, entry, withDirs_append (by simp [there])]
  exact at?_self (alter_withDir (by simp [missing])) (inr ⟨es, by simpa using there⟩)

end

variable {aims : List String → Prop} {v : Value} {base : Path} {f : File}

theorem document_of_file {layout : Json.Layout} (found : d.file p = .ok f)
    (held : f.content = .document layout v) : d.document p = .ok v := by
  simp [document, content, found, bind, Except.bind, pure, Except.pure, held]

section

variable (linkless : d.Linkless) (linkless' : d'.Linkless) (straight : p.Straight)
  (same : d'.root.leaf? p.parts = d.root.leaf? p.parts)

include linkless linkless' straight same

theorem document_of_leaf : (d'.document p).toOption = (d.document p).toOption := by
  have alike (f : File) : d'.file p = .ok f ↔ d.file p = .ok f := file_of_leaf linkless linkless' straight same
  simp only [document, content]
  cases found : d.file p with
  | ok f => rw [(alike f).2 found]
  | error t =>
    cases found' : d'.file p with
    | ok f =>
      rw [(alike f).1 found'] at found
      cases found
    | error t' => rfl

theorem document_ok_of_leaf (read : d.document p = .ok v) : d'.document p = .ok v := by
  have alike := document_of_leaf linkless linkless' straight same
  cases read' : d'.document p <;> simp_all [Except.toOption]

end

theorem document_of_none (linkless : d.Linkless) (straight : p.Straight) (nothing : d.root.at? p.parts = none) :
    (d.document p).toOption = none := by
  simp only [document, content]
  cases found : d.file p with
  | ok f =>
    rw [((file_linkless linkless straight).1 found).1] at nothing
    cases nothing
  | error t => rfl

/-- Where no link stands and all names are allowed, a look-up fails only with what counts as absence. -/
theorem meansNo_of_resolve {root : Node} (linkless : ∀ way target, root.at? way ≠ some (.link target)) {last : Bool}
    {todo : List String} (legal : ∀ x ∈ todo, Legal x) {steps : Nat} {done : List String} {t : Trouble}
    (failed : resolve root last steps done todo = .error t) : t.meansNo := by
  induction todo generalizing steps done with
  | nil =>
    cases steps with
    | zero =>
      cases failed
      rfl
    | succ steps => cases failed
  | cons x rest ih =>
    cases steps with
    | zero =>
      cases failed
      rfl
    | succ steps =>
      rw [resolve_legal (legal x mem_cons_self)] at failed
      split at failed
      · cases failed
        rfl
      · rename_i target there
        exact absurd there (linkless _ _)
      · split at failed
        · cases failed
        · cases failed
          rfl
      · exact ih (fun y member => legal y (mem_cons_of_mem _ member)) failed

theorem exists?_linkless (linkless : d.Linkless) (straight : p.Straight) (legal : ∀ x ∈ p.parts, Legal x)
    (short : p.parts.length < stepLimit) : d.exists? p = .ok (d.root.at? p.parts).isSome := by
  unfold exists? ask
  cases found : d.node p with
  | ok n => simp [node_linkless linkless straight found]
  | error t =>
    cases there : d.root.at? p.parts with
    | some n =>
      have kind : Found d.root stepLimit [] p.parts := by
        refine ⟨legal, ?_⟩
        cases n with
        | dir es => exact Or.inl ⟨⟨es, there⟩, short⟩
        | file f =>
          exact Or.inr ⟨further_of_file linkless there, ⟨f, there⟩, Nat.le_of_lt short⟩
        | link target => exact absurd there (linkless.noLink _ _)
      have located := (locate_linkless linkless straight).2 ⟨rfl, kind⟩
      rw [node_eq_ok.2 ⟨_, located, there⟩] at found
      cases found
    | none =>
      have no : t.meansNo := by
        unfold node at found
        cases located : d.locate p with
        | ok real =>
          rw [located] at found
          rw [((locate_linkless linkless straight).1 located).1] at found
          simp only [bind, Except.bind, there] at found
          cases found
          rfl
        | error t' =>
          rw [located] at found
          cases found
          rw [locate, absolute_straight straight] at located
          exact meansNo_of_resolve linkless.noLink legal located
      simp [no]

/-- The place of a file that can be written: a directory without links leads to it. -/
structure Ready (d : Disk) (base : Path) (name : String) : Prop where
  linkless : d.Linkless
  rooted : base.isAbsolute
  isDir : d.root.IsDirAt base.parts
  leaf : ¬ d.root.IsDirAt (base.entry name).parts
  legal : ∀ x ∈ (base.entry name).parts, Legal x
  short : (base.entry name).parts.length < stepLimit

namespace Ready

section

variable (ready : Ready d base name)

include ready

theorem straight : (base.entry name).Straight :=
  ⟨ready.rooted, fun up => (ready.legal ".." up).1 rfl⟩

theorem straight_base : base.Straight :=
  ⟨ready.rooted, fun up => ready.straight.plain (mem_append_left _ up)⟩

theorem direct : Direct d (base.entry name) := by
  have same : d.absolute (base.entry name) = base.entry name := absolute_straight ready.straight
  constructor <;> rw [same]
  · exact ready.rooted
  · exact ready.short
  · exact ready.legal
  · simp [entry]
  · simpa [entry] using ready.isDir
  · exact ready.linkless.noLink _

theorem makeDirs : d.makeDirs base = .ok d := by
  have same : d.absolute base = base := absolute_straight ready.straight_base
  refine makeDirs_direct ?_ ?_ ?_ <;> rw [same]
  · have short := ready.short
    rw [entry, length_append] at short
    exact Nat.lt_of_le_of_lt (Nat.le_add_right _ _) short
  · exact fun x member => ready.legal x (mem_append_left _ member)
  · exact ready.isDir

theorem step (reaches : Reaches aims d d') (off : ∀ aim, aims aim → ¬ (base.entry name).parts <+: aim) :
    Ready d' base name :=
  ⟨reaches.linkless, ready.rooted, reaches.dirs _ ready.isDir, reaches.leaf ready.leaf off, ready.legal, ready.short⟩

theorem of_file {touched : List String → Prop} (frame : Frame touched d d') (linkless : d'.Linkless)
    (found : d'.file (base.entry name) = .ok f) : Ready d' base name := by
  have there := ((file_linkless linkless ready.straight).1 found).1
  exact ⟨linkless, ready.rooted, frame.dirs _ ready.isDir, not_isDirAt (by simp [there]), ready.legal, ready.short⟩

theorem keeps (reaches : Reaches aims d d') (off : ¬ aims (base.entry name).parts)
    (found : d.file (base.entry name) = .ok f) : Ready d' base name ∧ d'.file (base.entry name) = .ok f := by
  have still := (file_of_leaf ready.linkless reaches.linkless ready.straight (reaches.leaves _ off)).2 found
  exact ⟨ready.of_file reaches.toFrame reaches.linkless still, still⟩

theorem write (c : Content) (t : Moment) :
    ∃ d', d.write (base.entry name) c t = .ok d' ∧ Reaches (· = (base.entry name).parts) d d' ∧
      d'.file (base.entry name) = .ok ⟨c, t, d.writes + 1⟩ ∧ Ready d' base name := by
  have named : (base.entry name).parts ≠ [] := by simp [entry]
  have leaf : ¬ d.root.IsDirAt (d.absolute (base.entry name)).parts := by
    rw [absolute_straight ready.straight]
    exact ready.leaf
  obtain ⟨d', written⟩ := write_direct ready.direct leaf c t
  have reaches := reaches_write ready.linkless ready.straight named written
  have found := file_written ready.linkless ready.straight named written
  exact ⟨d', written, reaches, found, ready.of_file reaches.toFrame reaches.linkless found⟩

end

theorem of_makeDirs (linkless : d.Linkless) (rooted : base.isAbsolute) (made : d.makeDirs base = .ok d')
    (leaf : ¬ d.root.IsDirAt (base.entry name).parts) (legal : ∀ x ∈ (base.entry name).parts, Legal x)
    (short : (base.entry name).parts.length < stepLimit) : Ready d' base name := by
  have straight : base.Straight := ⟨rooted, fun up => (legal ".." (mem_append_left _ up)).1 rfl⟩
  obtain ⟨-, linkless', isDir⟩ := root_makeDirs linkless straight made
  refine ⟨linkless', rooted, isDir, (reaches_makeDirs linkless straight made).leaf leaf ?_, legal, short⟩
  rintro way rfl along
  simpa [entry] using along.length_le

end Ready

/-- The place of a file that can be written once its directory is made. -/
structure Room (d : Disk) (base : Path) (name : String) : Prop where
  linkless : d.Linkless
  rooted : base.isAbsolute
  leaf : ¬ d.root.IsDirAt (base.entry name).parts
  legal : ∀ x ∈ (base.entry name).parts, Legal x
  short : (base.entry name).parts.length < stepLimit
  made : ∃ d', d.makeDirs base = .ok d'

theorem Ready.room (ready : Ready d base name) : Room d base name :=
  ⟨ready.linkless, ready.rooted, ready.leaf, ready.legal, ready.short, d, ready.makeDirs⟩

namespace Room

variable (room : Room d base name)

include room

theorem straight : (base.entry name).Straight :=
  ⟨room.rooted, fun up => (room.legal ".." up).1 rfl⟩

theorem exists? : d.exists? (base.entry name) = .ok (d.root.at? (base.entry name).parts).isSome :=
  exists?_linkless room.linkless room.straight room.legal room.short

theorem at?_of_leaf (nothing : d.root.leaf? (base.entry name).parts = none) :
    d.root.at? (base.entry name).parts = none :=
  (Node.leaf?_eq_none nothing).resolve_right room.leaf

theorem ready (made : d.makeDirs base = .ok d') : Ready d' base name ∧ Frame (fun _ => False) d d' :=
  ⟨.of_makeDirs room.linkless room.rooted made room.leaf room.legal room.short, frame_makeDirs made⟩

end Room

end Disk

end Folio

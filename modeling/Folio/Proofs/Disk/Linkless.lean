/-
# Proofs.Disk.Linkless -- disks without links

Where no link stands anywhere, a path without double dots leads to the place of its own names or nowhere.  So a look-up
can be told from the tree alone (`resolve_linkless`, `file_linkless`), and every change happens where its path says.

`Reaches aims d d'` is what a change leaves alone then: leaves that are no aim of it, and whole trees that none of its
aims lies in.
-/
import Folio.Proofs.Disk.Fresh

namespace Folio

open List Node Or

variable {c : Content} {change : Option Node → Option Node} {fit : String → Prop} {n root : Node}
  {name : String} {place real way : List String} {t : Moment}

/-- An absolute path without double dots. -/
structure Path.Straight (p : Path) : Prop where
  rooted : p.isAbsolute
  plain : ".." ∉ p.parts

theorem Path.Straight.entry {p : Path} (straight : p.Straight) (notUp : name ≠ "..") : (p.entry name).Straight :=
  ⟨straight.rooted, by simpa [Path.entry, Ne.symm notUp] using straight.plain⟩

theorem Path.Straight.parent {p : Path} (straight : p.Straight) : p.parent.Straight :=
  ⟨straight.rooted, fun up => straight.plain ((dropLast_subset _) up)⟩

namespace Node

mutual

def isLinkless : Node → Bool
  | .dir es => isLinklessEntries es
  | .file _ => true
  | .link _ => false

def isLinklessEntries : List (String × Node) → Bool
  | [] => true
  | (_, n) :: es => isLinkless n && isLinklessEntries es

end

theorem isLinklessEntries_iff {es : List (String × Node)} : isLinklessEntries es ↔ ∀ e ∈ es, e.2.isLinkless := by
  induction es with
  | nil => simp [isLinklessEntries]
  | cons e es ih => simp [isLinklessEntries, ih]

theorem at?_ne_link (free : n.isLinkless) (way : List String) {target : String} : n.at? way ≠ some (.link target) := by
  intro there
  induction way generalizing n with
  | nil =>
    obtain rfl : n = .link target := by simpa using there
    cases free
  | cons name rest ih =>
    obtain ⟨es, k, rfl, found, further⟩ := of_at?_cons there
    exact ih (isLinklessEntries_iff.1 free _ (mem_of_lookup found)) further

end Node

namespace Disk

/-- A directory tree in which no link stands anywhere. -/
structure Linkless (d : Disk) : Prop where
  isDir : d.root.IsDirAt []
  noLink : ∀ way target, d.root.at? way ≠ some (.link target)

theorem linkless_of_isLinkless {d : Disk} (isDir : d.root.IsDirAt []) (free : d.root.isLinkless) : d.Linkless :=
  ⟨isDir, fun way _ => at?_ne_link free way⟩

theorem Linkless.clear {d : Disk} (linkless : d.Linkless) (way : List String) : Clear d.root way :=
  fun along _ target => linkless.noLink along target

/-! ## Looking up -/

/-- What a look-up finds: a directory, or a file, for which one step less is needed. -/
def Found (root : Node) (steps : Nat) (done todo : List String) : Prop :=
  (∀ x ∈ todo, Legal x) ∧
    ((root.IsDirAt (done ++ todo) ∧ todo.length < steps) ∨
      (todo ≠ [] ∧ (∃ f, root.at? (done ++ todo) = some (.file f)) ∧ todo.length ≤ steps))

theorem resolve_linkless (linkless : ∀ way target, root.at? way ≠ some (.link target))
    (last : Bool) {todo : List String} (plain : ".." ∉ todo) {steps : Nat} {done : List String}
    (dir : root.IsDirAt done) :
    resolve root last steps done todo = .ok real ↔ real = done ++ todo ∧ Found root steps done todo := by
  rw [resolve_eq_ok]
  constructor
  · intro walk
    induction walk with
    | here steps done => simp [Found, dir]
    | up => simp at plain
    | @down steps done rest real name legal below _ ih =>
      obtain ⟨rfl, legals, kind⟩ := ih (fun up => plain (mem_cons_of_mem _ up)) below
      rw [← append_cons] at kind ⊢
      refine ⟨rfl, forall_mem_cons.2 ⟨legal, legals⟩, kind.imp (And.imp_right Nat.succ_lt_succ) ?_⟩
      exact fun ⟨_, file, short⟩ => ⟨cons_ne_nil _ _, file, Nat.succ_le_succ short⟩
    | file legal found => exact ⟨rfl, by simpa using legal, inr ⟨by simp, ⟨_, found⟩, by simp⟩⟩
    | stop _ found | through _ found => exact absurd found (linkless _ _)
  · rintro ⟨rfl, legal, kind⟩
    induction todo generalizing steps done with
    | nil =>
      obtain ⟨-, short⟩ := kind.resolve_right fun file => file.1 rfl
      obtain ⟨fewer, rfl⟩ := Nat.exists_eq_add_of_lt short
      simpa using Walk.here _ done
    | cons x rest ih =>
      obtain ⟨legalX, legal⟩ := forall_mem_cons.1 legal
      cases steps with
      | zero => simp at kind
      | succ steps =>
        rw [append_cons] at kind ⊢
        by_cases ends : rest = [] ∧ ∃ f, root.at? (done ++ [x]) = some (.file f)
        · obtain ⟨rfl, f, there⟩ := ends
          simpa using Walk.file legalX there
        · have below : root.IsDirAt (done ++ [x]) := by
            rcases kind with ⟨dir, -⟩ | ⟨-, ⟨f, there⟩, -⟩
            · exact isDirAt_of_prefix dir
            · exact isDirAt_of_longer (Option.isSome_of_eq_some there) fun none_ => ends ⟨none_, f, by simpa [none_] using there⟩
          refine .down legalX below (ih (fun up => plain (mem_cons_of_mem _ up)) below legal ?_)
          refine kind.imp (And.imp_right Nat.lt_of_succ_lt_succ) fun ⟨_, file, short⟩ => ?_
          exact ⟨fun none_ => ends ⟨none_, by simpa [none_] using file⟩, file, Nat.le_of_succ_le_succ short⟩

variable {d d' : Disk} {p : Path} {f : File}

theorem absolute_straight (straight : p.Straight) : d.absolute p = p := absolute_of_isAbsolute straight.rooted

theorem node_parts (straight : p.Straight) : d.node p = d.node ⟨"/", p.parts⟩ := by
  have rooted : d.absolute ⟨"/", p.parts⟩ = ⟨"/", p.parts⟩ := absolute_of_isAbsolute rfl
  simp [node, locate, absolute_straight straight, rooted]

section

variable (linkless : d.Linkless)

include linkless

theorem locate_linkless (straight : p.Straight) :
    d.locate p = .ok real ↔ real = p.parts ∧ Found d.root stepLimit [] p.parts := by
  rw [locate, absolute_straight straight]
  exact resolve_linkless linkless.noLink true straight.plain linkless.isDir

theorem node_linkless (straight : p.Straight) (there : d.node p = .ok n) : d.root.at? p.parts = some n := by
  obtain ⟨real, located, found⟩ := node_eq_ok.1 there
  rw [((locate_linkless linkless straight).1 located).1] at found
  exact found

theorem node_of_at? (linkless' : d'.Linkless) (straight : p.Straight) (same : d'.root.at? p.parts = d.root.at? p.parts)
    (found : d.node p = .ok n) : d'.node p = .ok n := by
  obtain ⟨real, located, there⟩ := node_eq_ok.1 found
  obtain ⟨rfl, legal, kind⟩ := (locate_linkless linkless straight).1 located
  refine node_eq_ok.2 ⟨p.parts, (locate_linkless linkless' straight).2 ⟨rfl, legal, ?_⟩, same.trans there⟩
  simpa [IsDirAt, same] using kind

theorem further_of_file (there : d.root.at? way = some (.file f)) : way ≠ [] := by
  rintro rfl
  obtain ⟨es, dir⟩ := linkless.isDir
  simp [dir] at there

theorem file_linkless (straight : p.Straight) : d.file p = .ok f ↔
      d.root.at? p.parts = some (.file f) ∧ (∀ x ∈ p.parts, Legal x) ∧ p.parts.length ≤ stepLimit := by
  rw [file_eq_ok]
  constructor
  · rintro ⟨real, located, there⟩
    obtain ⟨rfl, legal, ⟨⟨es, dir⟩, -⟩ | ⟨-, -, short⟩⟩ := (locate_linkless linkless straight).1 located
    · simp [show d.root.at? p.parts = some (.dir es) from dir] at there
    · exact ⟨there, legal, short⟩
  · rintro ⟨there, legal, short⟩
    exact ⟨p.parts, (locate_linkless linkless straight).2
      ⟨rfl, legal, inr ⟨further_of_file linkless there, ⟨f, there⟩, short⟩⟩, there⟩

theorem file_of_leaf (linkless' : d'.Linkless) (straight : p.Straight)
    (same : d'.root.leaf? p.parts = d.root.leaf? p.parts) : d'.file p = .ok f ↔ d.file p = .ok f := by
  rw [file_linkless linkless straight, file_linkless linkless' straight, ← leaf?_eq_file, ← leaf?_eq_file, same]

theorem resolved_linkless (straight : p.Straight) : d.resolved p = ⟨"/", p.parts⟩ := by
  have go : ∀ todo done : List String, ".." ∉ done → ".." ∉ todo → resolved.go d done todo = done ++ todo := by
    intro todo
    induction todo with
    | nil => intro done _ _; simp [resolved.go]
    | cons x rest ih =>
      intro done plain further
      obtain ⟨notUp, further⟩ : x ≠ ".." ∧ ".." ∉ rest := by simpa [eq_comm] using further
      have longer : ".." ∉ done ++ [x] := by simpa [Ne.symm notUp] using plain
      have here : (d.root.at? done).bind (·.child? x) = d.root.at? (done ++ [x]) := (at?_snoc _ _ _).symm
      rw [resolved.go, beq_eq_false_iff_ne.2 notUp, here]
      simp only [Bool.false_eq_true, if_false]
      split
      · rename_i real found
        rw [((resolve_linkless linkless.noLink true longer linkless.isDir).1 found).1, nil_append, ih _ longer further]
        simp
      · split
        · rename_i target there
          exact absurd there (linkless.noLink _ _)
        · rw [ih _ longer further]
          simp
  rw [resolved, absolute_straight straight, go _ _ (by simp) straight.plain]
  rfl

end

/-! ## What a change reaches -/

/-- What a change leaves alone: leaves that are no aim of it, and trees that no aim of it lies in.  New
directories are on the way to an aim. -/
structure Reaches (aims : List String → Prop) (d d' : Disk) : Prop extends Frame aims d d' where
  linkless : d'.Linkless
  trees : ∀ way, d.root.IsDirAt way → (∀ aim, aims aim → ¬ way <+: aim) → d'.root.at? way = d.root.at? way
  fresh : ∀ way, d'.root.IsDirAt way → d.root.IsDirAt way ∨ ∃ aim, aims aim ∧ way <+: aim

namespace Reaches

variable {aims : List String → Prop} {d'' : Disk}

theorem refl (linkless : d.Linkless) : Reaches aims d d :=
  ⟨.refl aims d, linkless, fun _ _ _ => rfl, fun _ => inl⟩

theorem trans (first : Reaches aims d d') (second : Reaches aims d' d'') : Reaches aims d d'' where
  toFrame := first.toFrame.trans second.toFrame
  linkless := second.linkless
  trees way dir off :=
    (second.trees way (first.dirs way dir) off).trans (first.trees way dir off)
  fresh way dir := (second.fresh way dir).elim (first.fresh way) inr

theorem mono {more : List String → Prop} (reaches : Reaches aims d d') (all : ∀ aim, aims aim → more aim) :
    Reaches more d d' where
  current := reaches.current
  leaves way off := reaches.leaves way fun aim => off (all way aim)
  dirs := reaches.dirs
  linkless := reaches.linkless
  trees way dir off := reaches.trees way dir fun aim is => off aim (all aim is)
  fresh way dir := (reaches.fresh way dir).imp_right fun ⟨aim, is, along⟩ => ⟨aim, all aim is, along⟩

theorem leaf (reaches : Reaches aims d d') (leaf : ¬ d.root.IsDirAt way)
    (off : ∀ aim, aims aim → ¬ way <+: aim) : ¬ d'.root.IsDirAt way := fun dir =>
  (reaches.fresh way dir).elim leaf fun ⟨aim, is, along⟩ => off aim is along

end Reaches

theorem linkless_alter (altered : alter change place (some d.root) = some d'.root) (linkless : d.Linkless)
    (further : place ≠ [])
    (none_ : ∀ rest target, seek (change (d.root.at? place)) rest ≠ some (.link target)) : d'.Linkless := by
  refine ⟨isDirAt_off altered (by simpa using further) linkless.isDir, fun way target found => ?_⟩
  by_cases along : place <+: way
  · obtain ⟨rest, rfl⟩ := along
    rcases at?_below altered with made | ⟨kept, -⟩
    · exact none_ rest target ((made rest).symm.trans found)
    · exact linkless.noLink _ _ ((kept rest).symm.trans found)
  · rw [← leaf?_eq_link, leaf?_off altered along, leaf?_eq_link] at found
    exact linkless.noLink way target found

theorem isDirAt_of_altered {root' : Node} (altered : alter change place (some root) = some root')
    (inner : ∀ way, way ≠ [] → seek (change (root.at? place)) way = none) (dir : root'.IsDirAt way) :
    root.IsDirAt way ∨ way <+: place := by
  by_cases before : way <+: place
  · exact inr before
  · by_cases below : place <+: way
    · obtain ⟨rest, rfl⟩ := below
      have further : rest ≠ [] := by
        rintro rfl
        exact before (by simp)
      obtain ⟨es, found⟩ := dir
      rcases at?_below altered with made | ⟨kept, -⟩
      · simp [made, inner rest further] at found
      · exact inl ⟨es, (kept rest).symm.trans found⟩
    · rw [IsDirAt, at?_beside altered below before] at dir
      exact inl dir

theorem reaches_alter (altered : alter change place (some d.root) = some d'.root) (current : d'.current = d.current)
    (linkless : d.Linkless) (leaf : ¬ d.root.IsDirAt place)
    (inner : ∀ way, way ≠ [] → seek (change (d.root.at? place)) way = none)
    (noLink : ∀ target, change (d.root.at? place) ≠ some (.link target)) : Reaches (· = place) d d' where
  toFrame := frame_alter altered current leaf inner
  linkless := by
    refine linkless_alter altered linkless (fun ends => leaf (ends ▸ linkless.isDir)) fun rest target found => ?_
    by_cases further : rest = []
    · exact noLink target (by simpa [further] using found)
    · simp [inner rest further] at found
  trees := by
    intro way dir off
    have beside : ¬ place <+: way := by
      rintro ⟨rest, rfl⟩
      exact leaf ( isDirAt_of_prefix dir)
    exact at?_beside altered beside (off place rfl)
  fresh way dir := (isDirAt_of_altered altered inner dir).imp_right fun along => ⟨place, rfl, along⟩

/-! ## Writing and deleting -/

section

variable (linkless : d.Linkless) (straight : p.Straight) (named : p.parts ≠ [])

include linkless straight named

theorem placeFor_linkless (placed : d.placeFor p = .ok place) : place = p.parts ∧ d.root.IsDirAt p.parts.dropLast := by
  have same : d.absolute p = p := absolute_straight straight
  obtain ⟨own, dir⟩ := placeFor_clear (by rw [same]; exact straight.rooted) (by rwa [same])
    (by rw [same]; exact straight.plain) (linkless.clear _) placed
  rw [same] at own
  exact ⟨own, own ▸ dir⟩

variable (written : d.write p c t = .ok d')

include written

theorem root_write : Reaches (· = p.parts) d d' ∧ d.root.IsDirAt p.parts.dropLast ∧ ¬ d.root.IsDirAt p.parts ∧
      alter (fun _ => some (.file ⟨c, t, d.writes + 1⟩)) p.parts (some d.root) = some d'.root ∧
      d'.file p = .ok ⟨c, t, d.writes + 1⟩ := by
  have found := file_of_written (by rw [absolute_straight straight]; exact straight.rooted) written
  obtain ⟨place, placed, leaf, rfl⟩ := write_eq_ok written
  obtain ⟨rfl, dir⟩ := placeFor_linkless linkless straight named placed
  have altered := alter_putAt d p.parts (.file ⟨c, t, d.writes + 1⟩)
  refine ⟨reaches_alter altered rfl linkless leaf (fun way further => ?_) (by simp), dir, leaf, altered, found⟩
  exact file_inner _ further

theorem reaches_write : Reaches (· = p.parts) d d' :=
  (root_write linkless straight named written).1

theorem file_written : d'.file p = .ok ⟨c, t, d.writes + 1⟩ :=
  (root_write linkless straight named written).2.2.2.2

end

section

variable (linkless : d.Linkless)

include linkless

theorem named_written (straight : p.Straight)
    (further : p.parts ≠ []) (fits : ∀ x ∈ p.parts, fit x) (named : d.root.Named fit)
    (written : d.write p c t = .ok d') : d'.root.Named fit := by
  obtain ⟨place, placed, -, rfl⟩ := write_eq_ok written
  obtain ⟨rfl, -⟩ := placeFor_linkless linkless straight further placed
  exact named_putAt named fits (by simp [Named])

theorem reaches_drop (there : d.root.at? way = some (.file f)) : Reaches (· = way) d (d.dropAt way) :=
  reaches_alter (alter_dropAt (further_of_file linkless there)) rfl linkless (not_isDirAt (by simp [there]))
    (fun _ _ => rfl) (by simp)

theorem unlink_linkless (straight : p.Straight) (found : d.file p = .ok f) :
    ∃ d', d.unlink p = .ok d' ∧ Reaches (· = p.parts) d d' ∧ d'.root.at? p.parts = none := by
  obtain ⟨there, legal, short⟩ := (file_linkless linkless straight).1 found
  have further := further_of_file linkless there
  have located : resolve d.root false stepLimit [] p.parts = .ok ([] ++ p.parts) :=
    (resolve_linkless linkless.noLink false straight.plain linkless.isDir).2
      ⟨rfl, legal, inr ⟨further, ⟨f, there⟩, short⟩⟩
  refine ⟨d.dropAt p.parts, ?_, reaches_drop linkless there, at?_dropAt further (by simp [there])⟩
  simp [unlink, absolute_straight straight, located, there]

theorem file_of_unlinked (straight : p.Straight) (unlinked : d.unlink p = .ok d') : ∃ f, d.file p = .ok f := by
  unfold unlink at unlinked
  rw [absolute_straight straight] at unlinked
  split at unlinked
  · cases unlinked
  · rename_i place located
    obtain ⟨rfl, legal, ⟨⟨es, dir⟩, -⟩ | ⟨-, ⟨f, there⟩, short⟩⟩ :=
      (resolve_linkless linkless.noLink false straight.plain linkless.isDir).1 located
    · rw [nil_append] at dir unlinked
      simp [dir] at unlinked
    · exact ⟨f, (file_linkless linkless straight).2 ⟨there, legal, short⟩⟩

end

section

variable (linkless : d.Linkless) (straight : p.Straight) (notUp : name ≠ "..") (found : d.file p = .ok f)
  (renamed : d.rename p (p.withName name) = .ok d')

include linkless straight notUp found renamed

theorem rename_linkless : d' = (d.dropAt p.parts).putAt (p.parent.parts ++ [name]) (.file f) ∧
      ¬ d.root.IsDirAt (p.parent.parts ++ [name]) := by
  obtain ⟨there, legal, short⟩ := (file_linkless linkless straight).1 found
  have straight' : (p.withName name).Straight := straight.parent.entry notUp
  have above : (p.withName name).parent = p.parent := by simp [Path.withName, Path.parent]
  have last : (p.withName name).name = name := by simp [Path.withName, Path.name]
  unfold rename at renamed
  rw [absolute_straight straight, absolute_straight straight', above, last] at renamed
  split at renamed
  · cases renamed
  · cases renamed
  · rename_i place dir located within_
    obtain ⟨rfl, -⟩ := (resolve_linkless linkless.noLink false straight.plain linkless.isDir).1 located
    obtain ⟨rfl, -⟩ := (locate_linkless linkless straight.parent).1 within_
    rw [nil_append, there] at renamed
    split at renamed
    · cases renamed
    · cases renamed
    · rename_i n target same noDir
      cases same
      cases renamed
      exact ⟨rfl, not_isDirAt noDir⟩

theorem rename_steps :
    Reaches (· = p.parts) d (d.dropAt p.parts) ∧ Reaches (· = (p.withName name).parts) (d.dropAt p.parts) d' := by
  obtain ⟨there, -, -⟩ := (file_linkless linkless straight).1 found
  obtain ⟨rfl, noDir⟩ := rename_linkless linkless straight notUp found renamed
  have further := further_of_file linkless there
  have dropped := reaches_drop linkless there
  have leaf : ¬ (d.dropAt p.parts).root.IsDirAt (p.parent.parts ++ [name]) := fun dir =>
    noDir (isDirAt_of_dropAt further (by simp [there]) dir)
  exact ⟨dropped, reaches_alter (alter_putAt (d.dropAt p.parts) (p.parent.parts ++ [name]) (.file f)) rfl
    dropped.linkless leaf (fun way further => file_inner f further) (by simp)⟩

theorem reaches_rename : Reaches (fun way => way = p.parts ∨ way = (p.withName name).parts) d d' := by
  obtain ⟨dropped, put⟩ := rename_steps linkless straight notUp found renamed
  exact (dropped.mono fun _ => inl).trans (put.mono fun _ => inr)

theorem leaf?_rename (other : p.parts ≠ (p.withName name).parts) : d'.root.leaf? p.parts = none := by
  obtain ⟨there, -, -⟩ := (file_linkless linkless straight).1 found
  obtain ⟨-, put⟩ := rename_steps linkless straight notUp found renamed
  rw [put.leaves _ other]
  exact leaf?_dropAt (by simp [there])

theorem named_rename (fits : fit name) (named : d.root.Named fit) : d'.root.Named fit := by
  obtain ⟨there, -, -⟩ := (file_linkless linkless straight).1 found
  obtain ⟨rfl, -⟩ := rename_linkless linkless straight notUp found renamed
  have names := (named_at? named there).1
  refine named_putAt (named_dropAt named (by simp [there])) (fun x member => ?_) (by simp [Named])
  rcases mem_append.1 member with above | last
  · exact names x (dropLast_subset _ above)
  · exact mem_singleton.1 last ▸ fits

end

theorem removeTree_linkless (linkless : d.Linkless) (straight : p.Straight) :
    (d.removeTree p).Linkless ∧ ∀ way, ¬ p.parts <+: way → (d.removeTree p).root.leaf? way = d.root.leaf? way := by
  unfold removeTree
  rw [absolute_straight straight]
  split
  · rename_i place located
    obtain ⟨rfl, -⟩ := (resolve_linkless linkless.noLink false straight.plain linkless.isDir).1 located
    split
    · by_cases whole : p.parts = []
      · rw [whole]
        refine ⟨⟨⟨[], rfl⟩, fun way target => ?_⟩, fun way off => absurd nil_prefix off⟩
        cases way with
        | nil => simp [dropAt, alter, empty]
        | cons x rest => simp [dropAt, alter, empty, at?, child?, entries]
      · have altered := alter_dropAt (d := d) whole
        refine ⟨linkless_alter altered linkless whole fun rest target => by simp [seek], fun way off => ?_⟩
        exact leaf?_off altered off
    · exact ⟨linkless, fun _ _ => rfl⟩
  · exact ⟨linkless, fun _ _ => rfl⟩

end Disk

end Folio

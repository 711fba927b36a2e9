/-
# Proofs.Disk.Direct -- what writing and deleting leave alone, and paths without detours

`Frame touched d d'` says what a step from `d` to `d'` may do: files and links change only at places in `touched`, and
no directory goes away.  A look-up that ends at an untouched place ends there still (`Frame.locate`).

A path along a way without links and without double dots leads to the place of its own names, whether something stands
there already (`locate_clear`) or is to be written there (`placeFor_clear`).  So writing and making directories at such
paths puts in names of the path only (`named_write`, `named_makeDirs`).
-/
import Folio.Proofs.Disk.Lookup
import Folio.Proofs.Path

namespace Folio.Disk

open List Node

variable {c : Content} {d d' : Disk} {n root : Node} {p : Path} {place real way : List String} {t : Moment}

/-- Only places in `touched` have another file or link, and every directory is still there. -/
structure Frame (touched : List String → Prop) (d d' : Disk) : Prop where
  current : d'.current = d.current
  leaves : ∀ way, ¬ touched way → d'.root.leaf? way = d.root.leaf? way
  dirs : ∀ way, d.root.IsDirAt way → d'.root.IsDirAt way

namespace Frame

variable {touched : List String → Prop} {d'' : Disk}

theorem refl (touched : List String → Prop) (d : Disk) : Frame touched d d :=
  ⟨rfl, fun _ _ => rfl, fun _ => id⟩

theorem trans (first : Frame touched d d') (second : Frame touched d' d'') : Frame touched d d'' :=
  ⟨second.current.trans first.current,
    fun way off => (second.leaves way off).trans (first.leaves way off),
    fun way dir => second.dirs way (first.dirs way dir)⟩

section

variable (frame : Frame touched d d')

include frame

theorem absolute (p : Path) : d'.absolute p = d.absolute p := by
  rw [Disk.absolute, Disk.absolute, frame.current]

theorem file (off : ¬ touched way) (f : File) : d'.root.at? way = some (.file f) ↔ d.root.at? way = some (.file f) := by
  rw [← leaf?_eq_file, ← leaf?_eq_file, frame.leaves way off]

theorem link (off : ¬ touched way) (t : String) :
    d'.root.at? way = some (.link t) ↔ d.root.at? way = some (.link t) := by
  rw [← leaf?_eq_link, ← leaf?_eq_link, frame.leaves way off]

theorem absent (off : ¬ touched way) (nothing : d'.root.at? way = none) : d.root.at? way = none := by
  have same := frame.leaves way off
  rw [leaf?, nothing] at same
  refine (leaf?_eq_none same.symm).resolve_right fun dir => ?_
  obtain ⟨_, still⟩ := frame.dirs way dir
  simp [nothing] at still

theorem locate (links : ∀ way t, d.root.at? way = some (.link t) → ¬ touched way)
    (there : d.root.IsDirAt real ∨ ¬ touched real) (located : d.locate p = .ok real) : d'.locate p = .ok real := by
  rw [locate_eq_ok] at located ⊢
  rw [frame.absolute]
  refine located.keep frame.dirs (fun _ _ t found => (frame.link (links _ t found) t).2 found) ?_
  intro f found
  rcases there with ⟨es, dir⟩ | off
  · simp [dir] at found
  · exact ⟨f, (frame.file off f).2 found⟩

end

end Frame

/-! ## One change of the tree -/

theorem seek_empty (further : way ≠ []) : seek (some .empty) way = none := by
  obtain ⟨x, way, rfl⟩ := exists_cons_of_ne_nil further
  rfl

theorem below_of_not_dir (leaf : ¬ root.IsDirAt place) (further : way ≠ []) : root.at? (place ++ way) = none := by
  by_contra there
  exact leaf (isDirAt_of_longer (Option.isSome_iff_ne_none.2 there) further)

theorem frame_alter {change : Option Node → Option Node}
    (altered : alter change place (some d.root) = some d'.root) (current : d'.current = d.current)
    (leaf : ¬ d.root.IsDirAt place) (inner : ∀ way, way ≠ [] → seek (change (d.root.at? place)) way = none) :
    Frame (· = place) d d' := by
  refine ⟨current, fun way off => ?_, fun way dir => ?_⟩
  · by_cases along : place <+: way
    · obtain ⟨rest, rfl⟩ := along
      have further : rest ≠ [] := by
        rintro rfl
        exact off (by simp)
      have before : d.root.at? (place ++ rest) = none := below_of_not_dir leaf further
      have after : d'.root.at? (place ++ rest) = none := by
        rcases at?_below altered with made | ⟨kept, -⟩
        · exact (made rest).trans (inner rest further)
        · exact (kept rest).trans before
      rw [leaf?, leaf?, before, after]
    · exact leaf?_off altered along
  · refine isDirAt_off altered ?_ dir
    rintro ⟨rest, rfl⟩
    exact leaf ( isDirAt_of_prefix dir)

theorem alter_some_ne_none (n : Node) (place : List String) (m : Option Node) :
    alter (fun _ => some n) place m ≠ none := by
  induction place generalizing m with
  | nil => simp [alter]
  | cons name rest ih =>
    cases m with
    | none =>
      simp only [alter]
      split
      · simp
      · rename_i absent
        exact absurd absent (ih none)
    | some k =>
      cases k with
      | dir es =>
        obtain ⟨es', altered, -⟩ := alter_dir (fun _ => some n) name rest es
        simp [altered]
      | file f | link t => simp [alter]

theorem alter_putAt (d : Disk) (place : List String) (n : Node) :
    alter (fun _ => some n) place (some d.root) = some (d.putAt place n).root := by
  obtain ⟨root', altered⟩ := Option.ne_none_iff_exists'.1 (alter_some_ne_none n place (some d.root))
  simp [putAt, altered]

theorem frame_putAt (leaf : ¬ d.root.IsDirAt place)
    (inner : ∀ way, way ≠ [] → n.at? way = none) : Frame (· = place) d (d.putAt place n) :=
  frame_alter (alter_putAt d place n) rfl leaf inner

theorem alter_dropAt (further : place ≠ []) : alter (fun _ => none) place (some d.root) = some (d.dropAt place).root := by
  obtain ⟨name, rest, rfl⟩ := exists_cons_of_ne_nil further
  cases root : d.root with
  | dir es =>
    obtain ⟨es', altered, -⟩ := alter_dir (fun _ => none) name rest es
    simp [dropAt, root, altered]
  | file f | link t => simp [dropAt, root, alter]

theorem frame_dropAt (leaf : ¬ d.root.IsDirAt place) : Frame (· = place) d (d.dropAt place) := by
  by_cases top : place = []
  · -- The root itself is no directory; an empty one takes its place.
    subst top
    refine ⟨rfl, fun way off => ?_, fun way dir => absurd ( isDirAt_of_prefix (a := []) dir) leaf⟩
    have before : d.root.at? way = none := by simpa using below_of_not_dir leaf off
    have after : (d.dropAt []).root.at? way = none := seek_empty off
    rw [leaf?, leaf?, before, after]
  · exact frame_alter (alter_dropAt top) rfl leaf fun way _ => rfl

/-! ## Writing -/

theorem file_inner (f : File) (further : way ≠ []) : (Node.file f).at? way = none := by
  obtain ⟨x, way, rfl⟩ := exists_cons_of_ne_nil further
  rfl

theorem not_isDirAt (other : ∀ es, root.at? way ≠ some (.dir es)) :
    ¬ root.IsDirAt way := fun ⟨es, there⟩ => other es there

theorem write_eq_ok (written : d.write p c t = .ok d') : ∃ place, d.placeFor p = .ok place ∧ ¬ d.root.IsDirAt place ∧
      d' = { d.putAt place (.file ⟨c, t, d.writes + 1⟩) with writes := d.writes + 1 } := by
  unfold write at written
  split at written
  · simp at written
  · rename_i place placed
    split at written
    · simp at written
    · rename_i other
      refine ⟨place, placed, not_isDirAt other, ?_⟩
      simpa using written.symm

theorem frame_putFile (leaf : ¬ d.root.IsDirAt place) (f : File) (writes : Nat) :
    Frame (· = place) d { d.putAt place (.file f) with writes := writes } := by
  have frame := frame_putAt leaf fun way => file_inner f
  exact ⟨frame.current, frame.leaves, frame.dirs⟩

theorem frame_write (written : d.write p c t = .ok d') : ∃ place, d.placeFor p = .ok place ∧ Frame (· = place) d d' := by
  obtain ⟨place, placed, leaf, rfl⟩ := write_eq_ok written
  exact ⟨place, placed, frame_putFile leaf _ _⟩

theorem at?_putAt (leads : place = [] ∨ d.root.IsDirAt place.dropLast) : (d.putAt place n).root.at? place = some n :=
  at?_self (alter_putAt d place n) leads

theorem at?_putAt_beside (n : Node) (level : way.length = place.length)
    (ne : way ≠ place) : (d.putAt place n).root.at? way = d.root.at? way :=
  at?_beside (alter_putAt d place n) (fun before => ne (before.eq_of_length level.symm).symm)
    fun before => ne (before.eq_of_length level)

theorem leads_of_isSome (there : (root.at? place).isSome) : place = [] ∨ root.IsDirAt place.dropLast := by
  rcases eq_nil_or_concat place with rfl | ⟨front, name, rfl⟩
  · exact Or.inl rfl
  · rw [concat_eq_append] at there ⊢
    rw [dropLast_concat]
    exact Or.inr (isDirAt_of_longer there (by simp))

theorem name_of_located (located : d.locate p = .ok real) :
    (d.absolute p).name.toList.contains '\x00' = false ∧ ¬ (d.absolute p).name.utf8ByteSize > 255 := by
  have names := (locate_eq_ok.1 located).legal_names
  rw [Path.name]
  cases last : (d.absolute p).parts.getLast? with
  | none => decide
  | some name =>
    rcases names name (mem_of_getLast? last) with rfl | legal
    · decide
    · exact legal.guards.2

theorem placeFor_of_locate (rooted : (d.absolute p).isAbsolute) (located : d.locate p = .ok real) : d.placeFor p = .ok real := by
  obtain ⟨noZero, short⟩ := name_of_located located
  have again : d.locate (d.absolute p) = .ok real := by
    rwa [locate, absolute_of_isAbsolute rooted]
  simp only [placeFor, noZero, short, if_false, Bool.false_eq_true, again]

theorem file_of_content (held : d.content p = .ok c) : ∃ f, d.file p = .ok f ∧ f.content = c := by
  unfold content at held
  cases found : d.file p with
  | error f => simp [found] at held
  | ok f => exact ⟨f, rfl, by simpa [found, bind, Except.bind, pure, Except.pure] using held⟩

/-! ## Deleting -/

theorem unlink_eq_ok (unlinked : d.unlink p = .ok d') :
    ∃ place, Walk d.root false stepLimit [] (d.absolute p).parts place ∧ (d.root.at? place).isSome ∧
      ¬ d.root.IsDirAt place ∧ d' = d.dropAt place := by
  unfold unlink at unlinked
  split at unlinked
  · simp at unlinked
  · rename_i place found
    split at unlinked
    · simp at unlinked
    · rename_i n other there
      refine ⟨place, walk_of_resolve found, by simp [there], ?_, by simpa using unlinked.symm⟩
      exact fun ⟨es, isDir⟩ => other es (by simpa [there] using isDir)
    · simp at unlinked

theorem at?_dropAt (further : place ≠ []) (there : (d.root.at? place).isSome) : (d.dropAt place).root.at? place = none :=
  at?_self (alter_dropAt further) (leads_of_isSome there)

theorem leaf?_dropAt (there : (d.root.at? place).isSome) : (d.dropAt place).root.leaf? place = none := by
  cases place with
  | nil => rfl
  | cons name rest =>
    rw [leaf?, at?_dropAt (cons_ne_nil name rest) there]
    rfl

theorem frame_unlink (unlinked : d.unlink p = .ok d') :
    ∃ place, Walk d.root false stepLimit [] (d.absolute p).parts place ∧ Frame (· = place) d d' ∧
      d'.root.leaf? place = none := by
  obtain ⟨place, walk, there, leaf, rfl⟩ := unlink_eq_ok unlinked
  exact ⟨place, walk, frame_dropAt leaf, leaf?_dropAt there⟩

/-! ## Making directories -/

theorem frame_putAt_empty (nothing : d.root.at? place = none) : Frame (fun _ => False) d (d.putAt place .empty) := by
  have leaf : ¬ d.root.IsDirAt place := fun ⟨es, there⟩ => by simp [nothing] at there
  have frame := frame_putAt (n := .empty) leaf fun way => seek_empty
  refine ⟨rfl, fun way _ => ?_, frame.dirs⟩
  by_cases same : way = place
  · subst same
    have before : d.root.leaf? way = none := by simp [leaf?, nothing, leafOf]
    rw [before]
    rcases at?_below (alter_putAt d way .empty) with made | ⟨kept, -⟩
    · exact congrArg leafOf (by simpa using made [])
    · exact congrArg leafOf (by simpa [nothing] using kept [])
  · exact frame.leaves way same

/-- A directory stands at a place, or nothing and a new directory is put there. -/
def Made (d : Disk) (way : List String) (d' : Disk) : Prop :=
  (∃ es, d.node ⟨"/", way⟩ = .ok (.dir es) ∧ d' = d) ∨
  ∃ place, d.node ⟨"/", way⟩ = .error .absent ∧ d.isLink ⟨"/", way⟩ = false ∧
    d.placeFor ⟨"/", way⟩ = .ok place ∧ d.root.at? place = none ∧ d' = d.putAt place .empty

theorem makeDirs_go_cons {whole : Path} {name : String} {rest : List String}
    (made : makeDirs.go whole d ⟨"/", way⟩ (name :: rest) = .ok d') :
    ∃ d₁, Made d (way ++ [name]) d₁ ∧ makeDirs.go whole d₁ ⟨"/", way ++ [name]⟩ rest = .ok d' := by
  rw [makeDirs.go] at made
  split at made
  · rename_i es found
    exact ⟨d, .inl ⟨es, found, rfl⟩, made⟩
  · simp at made
  · rename_i absent
    split at made
    · simp at made
    · rename_i noLink
      split at made
      · rename_i place placed
        split at made
        · simp at made
        · rename_i nothing
          exact ⟨_, .inr ⟨place, absent, eq_false_of_ne_true noLink, placed, by simpa using nothing, rfl⟩, made⟩
      · simp at made
  · simp at made

/-- What holds at the root and is kept with each name that a directory is made under holds in the end. -/
theorem makeDirs_run {I : Disk → List String → Prop} (made : d.makeDirs p = .ok d') (start : I d [])
    (step : ∀ way name rest d₁ d₂, (d.absolute p).parts = way ++ name :: rest → I d₁ way →
      Made d₁ (way ++ [name]) d₂ → I d₂ (way ++ [name])) : I d' (d.absolute p).parts := by
  suffices general : ∀ todo way d₁, (d.absolute p).parts = way ++ todo → I d₁ way →
      makeDirs.go (d.absolute p) d₁ ⟨"/", way⟩ todo = .ok d' → I d' (d.absolute p).parts from
    general _ [] d rfl start made
  intro todo
  induction todo with
  | nil =>
    intro way d₁ whole held made
    obtain rfl : d₁ = d' := by simpa [makeDirs.go] using made
    rwa [whole, append_nil]
  | cons name rest ih =>
    intro way d₁ whole held made
    obtain ⟨d₂, one, further⟩ := makeDirs_go_cons made
    exact ih _ d₂ (whole.trans (append_cons ..)) (step way name rest d₁ d₂ whole held one) further

theorem frame_makeDirs (made : d.makeDirs p = .ok d') : Frame (fun _ => False) d d' := by
  refine makeDirs_run (I := fun d₁ _ => Frame (fun _ => False) d d₁) made (.refl _ d) ?_
  rintro way name rest d₁ d₂ - frame (⟨-, -, rfl⟩ | ⟨place, -, -, -, nothing, rfl⟩)
  · exact frame
  · exact frame.trans (frame_putAt_empty nothing)

theorem makeDirs_there (there : ∀ way rest, (d.absolute p).parts = way ++ rest → way ≠ [] →
    ∃ es, d.node ⟨"/", way⟩ = .ok (.dir es)) : d.makeDirs p = .ok d := by
  suffices general : ∀ todo way, (d.absolute p).parts = way ++ todo →
      makeDirs.go (d.absolute p) d ⟨"/", way⟩ todo = .ok d from general _ [] rfl
  intro todo
  induction todo with
  | nil => intro way _; rw [makeDirs.go]
  | cons name rest ih =>
    intro way whole
    rw [append_cons] at whole
    obtain ⟨es, isDir⟩ := there _ _ whole (by simp)
    simp [makeDirs.go, Path.entry, isDir, ih _ whole]

open Path

def Clear (root : Node) (way : List String) : Prop :=
  ∀ along, along <+: way → ∀ target, root.at? along ≠ some (.link target)

theorem Clear.shorten {root : Node} {along : List String} (clear : Clear root way)
    (shorter : along <+: way) : Clear root along :=
  fun pre before => clear pre (before.trans shorter)

/-! ## Absolute forms -/

theorem absolute_append (d : Disk) (p : Path) (rel : List String) :
    d.absolute ⟨p.root, p.parts ++ rel⟩ = ⟨(d.absolute p).root, (d.absolute p).parts ++ rel⟩ := by
  unfold absolute join isAbsolute
  split <;> simp

theorem absolute_parent (d : Disk) {p : Path} (named : p.parts ≠ []) : d.absolute p.parent = (d.absolute p).parent := by
  unfold absolute join isAbsolute parent
  split
  · rfl
  · simp [dropLast_append_of_ne_nil named]

theorem absolute_withName (d : Disk) {p : Path} (named : p.parts ≠ []) (name : String) :
    d.absolute (p.withName name) = (d.absolute p).withName name := by
  unfold absolute join isAbsolute withName
  split
  · rfl
  · simp [dropLast_append_of_ne_nil named]

theorem concat_name {p : Path} (named : p.parts ≠ []) : p.parts.dropLast ++ [p.name] = p.parts := by
  obtain ⟨front, last, parts⟩ := eq_nil_or_concat p.parts |>.resolve_left named
  simp [name, parts]

/-! ## Where a clear way leads -/

section

variable (plain : ".." ∉ (d.absolute p).parts) (clear : Clear d.root (d.absolute p).parts)

include plain clear

theorem locate_clear {real : List String} (located : d.locate p = .ok real) : real = (d.absolute p).parts := by
  simpa using (locate_eq_ok.1 located).straight plain (by simpa [Clear] using clear)

theorem nodeUnfollowed_clear {target : String} : d.nodeUnfollowed p ≠ .ok (.link target) := by
  intro found
  obtain ⟨real, walk, there⟩ := nodeUnfollowed_eq_ok.1 found
  have along := walk.straight plain (by simpa [Clear] using clear)
  exact clear _ (prefix_refl _) target (by simpa [along] using there)

end

theorem placeFor_cases (placed : d.placeFor p = .ok place) :
    ((d.absolute p).name ≠ ".." → Legal (d.absolute p).name) ∧ (d.locate (d.absolute p) = .ok place ∨
      d.locate (d.absolute p) = .error .absent ∧ ((∃ target dir, d.nodeUnfollowed (d.absolute p) = .ok (.link target) ∧
            d.locate ((d.absolute p).parent.child target).parent = .ok dir ∧
            place = dir ++ [((d.absolute p).parent.child target).name]) ∨
          ∃ dir, d.locate (d.absolute p).parent = .ok dir ∧ d.root.IsDirAt dir ∧
            place = dir ++ [(d.absolute p).name])) := by
  unfold placeFor at placed
  simp only at placed
  split at placed
  · simp at placed
  rename_i noZero
  split at placed
  · simp at placed
  refine ⟨fun notUp => ⟨notUp, by simpa using noZero, by omega⟩, ?_⟩
  split at placed
  · rename_i real located
    obtain rfl : real = place := by simpa using placed
    exact .inl located
  · rename_i absent
    refine .inr ⟨absent, ?_⟩
    split at placed
    · rename_i target linked
      obtain ⟨dir, located, made⟩ := bind_eq_ok.1 placed
      exact .inl ⟨target, dir, linked, located, by simpa using made.symm⟩
    · obtain ⟨dir, located, made⟩ := bind_eq_ok.1 placed
      split at made
      · rename_i es there
        exact .inr ⟨dir, located, ⟨es, there⟩, by simpa using made.symm⟩
      · simp at made
  · simp at placed

section

variable (rooted : (d.absolute p).isAbsolute) (named : (d.absolute p).parts ≠ [])
  (plain : ".." ∉ (d.absolute p).parts) (clear : Clear d.root (d.absolute p).parts)

include rooted named plain clear

theorem placeFor_clear (placed : d.placeFor p = .ok place) :
    place = (d.absolute p).parts ∧ d.root.IsDirAt place.dropLast := by
  have same : d.absolute (d.absolute p) = d.absolute p := absolute_of_isAbsolute rooted
  obtain ⟨-, located | ⟨-, ⟨target, dir, linked, -, -⟩ | ⟨dir, located, isDir, rfl⟩⟩⟩ := placeFor_cases placed
  · have own := (locate_clear (by rwa [same]) (by rwa [same]) located).trans (by rw [same])
    have there := (locate_eq_ok.1 located).isSome_at? Walk.trodden_nil
    exact ⟨own, (leads_of_isSome there).resolve_left (by rwa [own])⟩
  · exact absurd linked (nodeUnfollowed_clear (by rwa [same]) (by rwa [same]))
  · have above : d.absolute (d.absolute p).parent = (d.absolute p).parent :=
      (absolute_parent d named).trans (by rw [same])
    have shorter : (d.absolute p).parent.parts <+: (d.absolute p).parts := dropLast_prefix _
    have there : dir = (d.absolute p).parent.parts :=
      (locate_clear (by rw [above]; exact fun h => plain (shorter.subset h))
        (by rw [above]; exact clear.shorten shorter) located).trans (by rw [above])
    exact ⟨by rw [there]; exact concat_name named, by rwa [dropLast_concat]⟩

theorem write_clear (written : d.write p c t = .ok d') : Frame (· = (d.absolute p).parts) d d' ∧
      d'.root.at? (d.absolute p).parts = some (.file ⟨c, t, d.writes + 1⟩) := by
  obtain ⟨place, placed, leaf, rfl⟩ := write_eq_ok written
  obtain ⟨rfl, dir⟩ := placeFor_clear rooted named plain clear placed
  exact ⟨frame_putFile leaf _ _, at?_putAt (Or.inr dir)⟩

end

/-! ## The real path of a name in a directory -/

theorem resolved_go_append (d : Disk) (done a b : List String) :
    resolved.go d done (a ++ b) = resolved.go d (resolved.go d done a) b := by
  induction a generalizing done with
  | nil => rw [nil_append, resolved.go]
  | cons name rest ih =>
    rw [cons_append, resolved.go, resolved.go]
    split
    · exact ih _
    · split
      · exact ih _
      · split
        · exact ih _
        · exact ih _

theorem resolved_entry {dir : List String} {name : String} (named : d.root.Named IsEntry)
    (located : d.locate p = .ok dir) (isDir : d.root.IsDirAt dir) (notUp : name ≠ "..")
    (noLink : ∀ target, d.root.at? (dir ++ [name]) ≠ some (.link target)) :
    d.resolved (p.entry name) = ⟨"/", dir ++ [name]⟩ := by
  have toDir : resolved.go d [] (d.absolute p).parts = dir :=
    congrArg parts (resolved_of_locate located)
  have parts : (d.absolute (p.entry name)).parts = (d.absolute p).parts ++ [name] := by
    rw [entry, absolute_append]
  change Path.mk "/" (resolved.go d [] (d.absolute (p.entry name)).parts) = _
  rw [parts, resolved_go_append, toDir, resolved.go]
  simp only [beq_eq_false_iff_ne.2 notUp, Bool.false_eq_true, if_false]
  cases found : resolve d.root true stepLimit [] (dir ++ [name]) with
  | ok real =>
    obtain ⟨es, there⟩ := isDir
    have plain : ".." ∉ dir ++ [name] := by
      intro member
      rcases mem_append.1 member with inDir | last
      · exact ((named_at? named there).1 _ inDir).notUp rfl
      · exact notUp (mem_singleton.1 last).symm
    have straight := (walk_of_resolve found).straight plain fun way along target => by
      rcases prefix_concat_iff.1 along with rfl | inDir
      · exact noLink target
      · obtain ⟨rest, rfl⟩ := inDir
        obtain ⟨es', dir'⟩ := isDirAt_of_prefix ⟨es, there⟩
        simp [dir']
    simp [resolved.go, straight]
  | error t =>
    simp only [← at?_snoc]
    rw [resolved.go]

/-! ## Names -/

section Names

variable {fit : String → Prop}

theorem named_putAt {n : Node} (named : d.root.Named fit)
    (fits : ∀ x ∈ place, fit x) (inner : n.Named fit) : (d.putAt place n).root.Named fit := by
  have changed := named_alter (fun _ => some n)
    (fun _ _ m member => by simpa [← (Option.mem_some_iff.1 member)] using inner)
    place fits (some d.root) (by simpa using named)
  exact changed _ (alter_putAt d place n)

theorem named_write (rooted : (d.absolute p).isAbsolute)
    (some_ : (d.absolute p).parts ≠ []) (plain : ".." ∉ (d.absolute p).parts)
    (clear : Clear d.root (d.absolute p).parts) (fits : ∀ x ∈ (d.absolute p).parts, fit x)
    (named : d.root.Named fit) (written : d.write p c t = .ok d') : d'.root.Named fit := by
  obtain ⟨place, placed, -, rfl⟩ := write_eq_ok written
  obtain ⟨rfl, -⟩ := placeFor_clear rooted some_ plain clear placed
  exact named_putAt named fits (by simp [Named])

theorem named_dropAt (named : d.root.Named fit) (there : (d.root.at? place).isSome) :
    (d.dropAt place).root.Named fit := by
  obtain ⟨n, found⟩ := Option.isSome_iff_exists.1 there
  have changed := named_alter (fun _ => none) (fun _ _ m member => by simp at member)
    place (named_at? named found).1 (some d.root) (by simpa using named)
  change ((alter (fun _ => none) place (some d.root)).getD .empty).Named fit
  cases altered : alter (fun _ => none) place (some d.root) with
  | none => simp [empty, Named, NamedEntries]
  | some m => exact changed m altered

theorem named_unlink (named : d.root.Named fit) (unlinked : d.unlink p = .ok d') : d'.root.Named fit := by
  obtain ⟨place, -, there, -, rfl⟩ := unlink_eq_ok unlinked
  exact named_dropAt named there

theorem named_makeDirs (plain : ".." ∉ (d.absolute p).parts)
    (clear : Clear d.root (d.absolute p).parts) (fits : ∀ x ∈ (d.absolute p).parts, fit x)
    (named : d.root.Named fit) (made : d.makeDirs p = .ok d') : d'.root.Named fit := by
  refine (makeDirs_run (I := fun d₁ _ => Clear d₁.root (d.absolute p).parts ∧ d₁.root.Named fit) made
    ⟨clear, named⟩ ?_).2
  rintro way name rest d₁ d₂ whole ⟨clear, named⟩ (⟨-, -, rfl⟩ | ⟨place, -, -, placed, nothing, rfl⟩)
  · exact ⟨clear, named⟩
  · have shorter : way ++ [name] <+: (d.absolute p).parts := ⟨rest, by simp [whole]⟩
    have here : d₁.absolute ⟨"/", way ++ [name]⟩ = ⟨"/", way ++ [name]⟩ := absolute_of_isAbsolute rfl
    have own := (placeFor_clear (by rw [here]; rfl) (by simp [here])
      (by rw [here]; exact fun up => plain (shorter.subset up))
      (by rw [here]; exact clear.shorten shorter) placed).1
    obtain rfl : place = way ++ [name] := by rwa [here] at own
    refine ⟨fun along before target link =>
      clear along before target (((frame_putAt_empty nothing).link id target).1 link), ?_⟩
    exact named_putAt named (fun x member => fits x (shorter.subset member))
      (by simp [empty, Named, NamedEntries])

end Names

/-! ## Look-ups that get through

Where directories lead to the last name, only that name decides what a look-up finds. -/

/-- The place of a path that is reached through directories and is no link. -/
structure Direct (d : Disk) (p : Path) : Prop where
  rooted : (d.absolute p).isAbsolute
  short : (d.absolute p).parts.length < stepLimit
  legal : ∀ x ∈ (d.absolute p).parts, Legal x
  some_ : (d.absolute p).parts ≠ []
  leads : d.root.IsDirAt (d.absolute p).parts.dropLast
  noLink : ∀ target, d.root.at? (d.absolute p).parts ≠ some (.link target)

theorem resolve_along (root : Node) (last : Bool) {steps : Nat} (done : List String) {todo : List String}
    (short : todo.length < steps) (legal : ∀ x ∈ todo, Legal x) (there : (root.at? done).isSome)
    (leads : todo ≠ [] → root.IsDirAt (done ++ todo.dropLast))
    (noLink : ∀ target, root.at? (done ++ todo) ≠ some (.link target)) : resolve root last steps done todo =
      if (root.at? (done ++ todo)).isSome then .ok (done ++ todo) else .error .absent := by
  induction todo generalizing done steps with
  | nil =>
    obtain ⟨fewer, rfl⟩ : ∃ fewer, steps = fewer + 1 := ⟨steps - 1, by simp at short; omega⟩
    simp [resolve, there]
  | cons name rest ih =>
    obtain ⟨fewer, rfl⟩ : ∃ fewer, steps = fewer + 1 := ⟨steps - 1, by simp at short; omega⟩
    have shorter : rest.length < fewer := by simpa using short
    rw [append_cons] at noLink ⊢
    rw [resolve_legal (legal name (by simp))]
    by_cases ends : rest = []
    · subst ends
      obtain ⟨evenFewer, rfl⟩ : ∃ n, fewer = n + 1 := ⟨fewer - 1, by simp at shorter; omega⟩
      rw [append_nil] at noLink ⊢
      rcases found : root.at? (done ++ [name]) with _ | (es | f | t)
      · simp
      · simp [resolve]
      · simp
      · exact absurd found (noLink t)
    · have further := leads (cons_ne_nil name rest)
      rw [dropLast_cons_of_ne_nil ends, append_cons] at further
      obtain ⟨es, dir⟩ := isDirAt_of_prefix further
      rw [dir]
      exact ih _ shorter (fun x member => legal x (mem_cons_of_mem _ member)) (by simp [dir]) (fun _ => further) noLink

theorem resolve_direct (direct : Direct d p) (last : Bool) : resolve d.root last stepLimit [] (d.absolute p).parts =
      if (d.root.at? (d.absolute p).parts).isSome then .ok (d.absolute p).parts else .error .absent := by
  simpa using resolve_along d.root last [] direct.short direct.legal (by simp)
    (fun _ => by simpa using direct.leads) (by simpa using direct.noLink)

theorem locate_dir (parts : (d.absolute p).parts = way)
    (short : way.length < stepLimit) (legal : ∀ x ∈ way, Legal x) (dir : d.root.IsDirAt way) : d.locate p = .ok way := by
  obtain ⟨es, there⟩ := dir
  have found := resolve_along d.root true [] short legal (by simp) (fun some_ => ?_) (by simp [there])
  · rw [locate, parts, found]
    simp [there]
  · have some' : (d.root.at? way).isSome := by simp [there]
    rcases leads_of_isSome some' with nil | leads
    · exact absurd nil some_
    · simpa using leads

section

variable (direct : Direct d p)

include direct

theorem locate_direct : d.locate p =
      if (d.root.at? (d.absolute p).parts).isSome then .ok (d.absolute p).parts else .error .absent :=
  resolve_direct direct true

theorem placeFor_direct : d.placeFor p = .ok (d.absolute p).parts := by
  have same : d.absolute (d.absolute p) = d.absolute p := absolute_of_isAbsolute direct.rooted
  have located := locate_direct direct
  cases there : d.root.at? (d.absolute p).parts with
  | some n => exact placeFor_of_locate direct.rooted (by simpa [there] using located)
  | none =>
    obtain ⟨-, noZero, fits⟩ := (direct.legal (d.absolute p).name (by
      rw [← concat_name direct.some_]
      simp)).guards
    have missing : d.locate (d.absolute p) = .error .absent := by
      rw [locate, same, resolve_direct direct, there]
      rfl
    have noNode : d.nodeUnfollowed (d.absolute p) = .error .absent := by
      rw [nodeUnfollowed, same, resolve_direct direct, there]
      rfl
    have shorter := dropLast_prefix (d.absolute p).parts
    have above : d.locate (d.absolute p).parent = .ok (d.absolute p).parts.dropLast := by
      refine locate_dir ?_ ?_ ?_ direct.leads
      · rw [absolute_of_isAbsolute (p := (d.absolute p).parent) direct.rooted]
        rfl
      · exact Nat.lt_of_le_of_lt shorter.length_le direct.short
      · exact fun x member => direct.legal x (shorter.subset member)
    obtain ⟨es, dir⟩ := direct.leads
    simp only [placeFor, noZero, fits, if_false, Bool.false_eq_true, missing, noNode, above,
      Bind.bind, Except.bind, dir]
    rw [concat_name direct.some_]

theorem write_direct (leaf : ¬ d.root.IsDirAt (d.absolute p).parts) (c : Content)
    (t : Moment) : ∃ d', d.write p c t = .ok d' := by
  simp only [write, placeFor_direct direct]
  split
  · rename_i es dir
    exact absurd ⟨es, dir⟩ leaf
  · exact ⟨_, rfl⟩

theorem at?_write_beside (level : way.length = (d.absolute p).parts.length)
    (ne : way ≠ (d.absolute p).parts) (written : d.write p c t = .ok d') : d'.root.at? way = d.root.at? way := by
  obtain ⟨place, placed, -, rfl⟩ := write_eq_ok written
  obtain rfl := Except.ok.inj ((placeFor_direct direct).symm.trans placed)
  exact at?_putAt_beside _ level ne

end

theorem makeDirs_direct (short : (d.absolute p).parts.length < stepLimit)
    (legal : ∀ x ∈ (d.absolute p).parts, Legal x) (dir : d.root.IsDirAt (d.absolute p).parts) : d.makeDirs p = .ok d := by
  refine makeDirs_there fun way rest whole _ => ?_
  rw [whole] at short legal dir
  have above : d.root.IsDirAt way := isDirAt_of_prefix dir
  have here : d.locate ⟨"/", way⟩ = .ok way := by
    refine locate_dir ?_ ?_ ?_ above
    · rw [absolute_of_isAbsolute rfl]
    · exact Nat.lt_of_le_of_lt (prefix_append _ rest).length_le short
    · exact fun x member => legal x (mem_append_left _ member)
  obtain ⟨es, there⟩ := above
  exact ⟨es, node_eq_ok.2 ⟨way, here, there⟩⟩

end Folio.Disk

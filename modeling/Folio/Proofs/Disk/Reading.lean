/-
# Proofs.Disk.Reading -- where a file that is read came from, and what a change takes away

What a path leads to after a change led there before, or it is what the change put there.  Writing and deleting make no
directory, so a walk on the changed tree is a walk on the old one up to its last step (`file_of_write`,
`file_of_unlink`). Making directories can give a path a new meaning only where double dots lead out of a new directory
(`file_of_makeDirs`).

`Loses places d d'` says that whatever stood on `d` and no longer stands on `d'` stood at one of the places: for a
deletion where the path leads, a link at its end not followed (`loses_unlink`), and for another name the old one
(`loses_rename`).
-/
import Folio.Proofs.Disk.Direct

namespace Folio.Disk

open List Node Option Or Walk

variable {c : Content} {last : Bool} {name : String} {place real way : List String} {q : Path} {root : Node}
  {steps : Nat} {t : Moment} {d d' : Disk} {p : Path} {f : File}

/-! ## Directories after a change -/

theorem isDirAt_of_alter {root' : Node} {change : Option Node → Option Node}
    (altered : alter change place (some root) = some root') (leads : place = [] ∨ (root.at? place.dropLast).isSome)
    (leaf : ∀ way es, seek (change (root.at? place)) way ≠ some (.dir es))
    (dir : root'.IsDirAt way) : root.IsDirAt way := by
  by_cases after : place <+: way
  · obtain ⟨rest, rfl⟩ := after
    obtain ⟨es, there⟩ := dir
    rcases at?_below altered with made | ⟨kept, -⟩
    · exact absurd ((made rest).symm.trans there) (leaf rest es)
    · exact ⟨es, (kept rest).symm.trans there⟩
  · rcases at?_off altered after with same | ⟨⟨rest, rfl⟩, ⟨before, -⟩, -⟩
    · rwa [IsDirAt, same] at dir
    · -- The way ends before the last name of the place.
      have further : rest ≠ [] := by
        rintro rfl
        exact after (by simp)
      have above := leads.resolve_left (by simp [further])
      rw [dropLast_append_of_ne_nil further] at above
      refine (leaf?_eq_none before).resolve_left fun none_ => ?_
      simpa [none_] using isSome_of_longer above

theorem placeFor_leads (placed : d.placeFor p = .ok place) : place = [] ∨ (d.root.at? place.dropLast).isSome := by
  have reached : ∀ {q : Path} {real : List String}, d.locate q = .ok real → (d.root.at? real).isSome :=
    fun located => (locate_eq_ok.1 located).isSome_at? trodden_nil
  obtain ⟨-, located | ⟨-, ⟨_, dir, -, located, rfl⟩ | ⟨dir, located, -, rfl⟩⟩⟩ := placeFor_cases placed
  · refine (leads_of_isSome (reached located)).imp_right ?_
    rintro ⟨es, dir⟩
    simp [dir]
  · rw [dropLast_concat]
    exact inr (reached located)
  · rw [dropLast_concat]
    exact inr (reached located)

theorem isDirAt_of_write (written : d.write p c t = .ok d') (dir : d'.root.IsDirAt way) : d.root.IsDirAt way := by
  obtain ⟨place, placed, -, rfl⟩ := write_eq_ok written
  refine isDirAt_of_alter (alter_putAt d place _) (placeFor_leads placed) (fun way es => ?_) dir
  cases way <;> simp [seek, at?, child?, entries]

theorem isDirAt_of_dropAt (further : place ≠ [])
    (there : (d.root.at? place).isSome) (dir : (d.dropAt place).root.IsDirAt way) : d.root.IsDirAt way := by
  refine isDirAt_of_alter (alter_dropAt further) ?_ (fun way es => by simp [seek]) dir
  refine (leads_of_isSome there).imp_right ?_
  rintro ⟨es, isDir⟩
  simp [isDir]

/-! ## Files after a change -/

/-- Where no directory and no link is new, a path that leads to a file leads to the same place as
before, if a file was there. -/
theorem Frame.place_before {touched : List String → Prop} (frame : Frame touched d d')
    (dirs : ∀ way, d'.root.IsDirAt way → d.root.IsDirAt way)
    (links : ∀ way target, touched way → d'.root.at? way = some (.link target) →
      d.root.at? way = some (.link target)) (found : d'.file p = .ok f) :
    ∃ real, d'.root.at? real = some (.file f) ∧ ∀ g, d.root.at? real = some (.file g) → d.file p = .ok g := by
  obtain ⟨real, located, there⟩ := file_eq_ok.1 found
  refine ⟨real, there, fun g before => file_eq_ok.2 ⟨real, ?_, before⟩⟩
  rw [locate_eq_ok, frame.absolute] at located
  rw [locate_eq_ok]
  refine located.keep dirs (fun way name target link => ?_) fun _ _ => ⟨g, before⟩
  by_cases touch : touched (way ++ [name])
  · exact links _ target touch link
  · exact (frame.link touch target).1 link

theorem file_of_write (written : d.write p c t = .ok d')
    (found : d'.file q = .ok f) : d.file q = .ok f ∨ f = ⟨c, t, d.writes + 1⟩ := by
  obtain ⟨place, placed, leaf, made⟩ := write_eq_ok written
  have frame := made ▸ frame_putFile leaf ⟨c, t, d.writes + 1⟩ (d.writes + 1)
  -- The place holds the new file, or something that is no directory is in its way and nothing changed.
  have new : d'.root.at? place = some (.file ⟨c, t, d.writes + 1⟩) ∨ d'.root.at? place = d.root.at? place := by
    rw [made]
    exact (at?_below (alter_putAt d place _)).imp (fun put => by simpa using put [])
      fun kept => by simpa using kept.1 []
  obtain ⟨real, there, before⟩ := frame.place_before (fun _ => isDirAt_of_write written)
    (fun way target touch link => by rcases new with put | kept <;> simp_all) found
  by_cases touch : real = place
  · rcases new with put | kept
    · rw [← touch, there] at put
      exact inr (by simpa using put)
    · exact inl (before f (by rw [touch, ← kept, ← touch, there]))
  · exact inl (before f ((frame.file touch f).1 there))

theorem no_file_in_empty (real : List String) (f : File) : Node.empty.at? real ≠ some (.file f) := by
  intro there
  by_cases top : real = []
  · simp [top, Node.empty] at there
  · have nothing : Node.empty.at? real = none := seek_empty top
    simp [nothing] at there

theorem Walk.before_drop {done todo : List String} (further : place ≠ []) (there : (d.root.at? place).isSome)
    (leaf : ¬ d.root.IsDirAt place) (walk : Walk (d.dropAt place).root last steps done todo real) :
    Walk d.root last steps done todo real := by
  have frame := frame_dropAt leaf
  have gone := at?_dropAt further there
  exact walk.keep (fun _ => isDirAt_of_dropAt further there)
    (fun _ _ t link => (frame.link (by rintro rfl; simp [gone] at link) t).1 link)
    fun f file => ⟨f, (frame.file (by rintro rfl; simp [gone] at file) f).1 file⟩

theorem file_of_unlink (unlinked : d.unlink p = .ok d') (found : d'.file q = .ok f) : d.file q = .ok f := by
  obtain ⟨place, -, some_, leaf, rfl⟩ := unlink_eq_ok unlinked
  have frame := frame_dropAt leaf
  obtain ⟨real, located, there⟩ := file_eq_ok.1 found
  by_cases further : place = []
  · subst further
    exact absurd there (no_file_in_empty real f)
  · have off : real ≠ place := by
      rintro rfl
      simp [at?_dropAt further some_] at there
    rw [locate_eq_ok] at located
    exact file_eq_ok.2 ⟨real, locate_eq_ok.2 (located.before_drop further some_ leaf), (frame.file off f).1 there⟩

theorem gone_of_unlink {front : List String} (parts : (d.absolute p).parts = front ++ [name])
    (notUp : name ≠ "..") (unlinked : d.unlink p = .ok d') : d'.file p ≠ .ok f := by
  intro found
  obtain ⟨place, walk, some_, leaf, rfl⟩ := unlink_eq_ok unlinked
  obtain ⟨real, located, there⟩ := file_eq_ok.1 found
  by_cases further : place = []
  · subst further
    exact no_file_in_empty real f there
  have gone := at?_dropAt further some_
  rw [locate_eq_ok, (frame_dropAt leaf).absolute, parts] at located
  obtain ⟨mid, first, ⟨atEnd, -⟩ | ⟨left, second, -, -⟩⟩ := located.split trodden_nil
  · simp at atEnd
  -- The names before the last one lead to the same directory as before the deletion.
  rw [parts] at walk
  obtain ⟨mid', first', rfl⟩ := walk.front.resolve_right fun up => notUp up.1
  obtain rfl := first'.unique (first.before_drop further some_ leaf)
  cases second with
  | up => exact notUp rfl
  | down _ dir =>
    obtain ⟨es, here⟩ := dir
    simp [gone] at here
  | file _ here => simp [gone] at here
  | stop _ _ kept => simp at kept
  | through _ here => simp [gone] at here

/-! ## Files after making directories -/

def Barren (d : Disk) (way : List String) : Prop :=
  ∃ steps mid, Walk d.root true steps [] way mid ∧ d.root.at? mid = some .empty

theorem Walk.onward {more : Nat} {done a b mid : List String}
    (first : Walk root true steps done a mid) (dir : root.IsDirAt mid)
    (second : Walk root last more mid b real) (follow : b ≠ [] ∨ last) :
    ∃ enough, Walk root last enough done (a ++ b) real := by
  induction first with
  | here steps done => exact ⟨_, second⟩
  | up _ ih =>
    obtain ⟨enough, walk⟩ := ih dir second
    exact ⟨_, .up walk⟩
  | down legal isDir _ ih =>
    obtain ⟨enough, walk⟩ := ih dir second
    exact ⟨_, .down legal isDir walk⟩
  | file _ found =>
    obtain ⟨es, isDir⟩ := dir
    simp [isDir] at found
  | stop _ _ kept => simp at kept
  | @through _ _ rest _ _ _ legal found _ _ ih =>
    obtain ⟨enough, walk⟩ := ih dir second
    refine ⟨_, .through legal found ?_ (by simpa using walk)⟩
    exact follow.imp_left fun more none => more (append_eq_nil_iff.1 none).2

theorem Barren.nothing {more : List String} (barren : Barren d way)
    (further : more ≠ []) (plain : ".." ∉ more) : ¬ Walk d.root true steps [] (way ++ more) real := by
  obtain ⟨_, mid, toMid, empty⟩ := barren
  intro walk
  have none_ : ∀ rest, rest ≠ [] → d.root.at? (mid ++ rest) = none := by
    intro rest some_
    rw [at?_append, empty]
    exact seek_empty some_
  have along := toMid.append walk trodden_nil (inl further) plain fun rest _ target link => by
    by_cases top : rest = []
    · simp [top, empty, Node.empty] at link
    · simp [none_ rest top] at link
  have there := walk.isSome_at? trodden_nil
  simp [along, none_ more further] at there

theorem barren_made (notUp : name ≠ "..") (absent : d.node ⟨"/", way ++ [name]⟩ = .error .absent)
    (noLink : d.isLink ⟨"/", way ++ [name]⟩ = false)
    (placed : d.placeFor ⟨"/", way ++ [name]⟩ = .ok place) (nothing : d.root.at? place = none) :
    Barren (d.putAt place .empty) (way ++ [name]) := by
  have last : (Path.mk "/" (way ++ [name])).name = name := by simp [Path.name]
  have above : (Path.mk "/" (way ++ [name])).parent = ⟨"/", way⟩ := by simp [Path.parent]
  have cases_ := placeFor_cases placed
  rw [absolute_of_isAbsolute rfl, last, above] at cases_
  obtain ⟨legal, located | ⟨-, ⟨target, dir, linked, -, -⟩ | ⟨dir, located, ⟨es, isDir⟩, rfl⟩⟩⟩ := cases_
  · obtain ⟨n, there⟩ := isSome_iff_exists.1 ((locate_eq_ok.1 located).isSome_at? trodden_nil)
    have found := node_eq_ok.2 ⟨place, located, there⟩
    simp [absent] at found
  · simp [isLink, linked, Node.isLink] at noLink
  · have toDir := locate_eq_ok.1 located
    have frame := frame_putAt_empty nothing
    have kept : Walk (d.putAt (dir ++ [name]) .empty).root true stepLimit [] way dir :=
      toDir.keep frame.dirs (fun _ _ target => (frame.link id target).2) fun f found => by
        simp [isDir] at found
    have made : (d.putAt (dir ++ [name]) .empty).root.at? (dir ++ [name]) = some .empty :=
      at?_putAt (inr ⟨es, by simpa using isDir⟩)
    obtain ⟨enough, walk⟩ := kept.onward (frame.dirs _ ⟨es, isDir⟩)
      (.down (legal notUp) ⟨[], made⟩ (.here 0 _)) (inl (by simp))
    exact ⟨enough, _, walk, made⟩

section

variable (plain : ".." ∉ (d.absolute p).parts)

include plain

theorem barren_makeDirs (made : d.makeDirs p = .ok d') : d' = d ∨ Barren d' (d.absolute p).parts := by
  refine makeDirs_run (I := fun d₁ way => d₁ = d ∨ Barren d₁ way) made (inl rfl) ?_
  intro way name rest d₁ d₂ whole old one
  have notUp : name ≠ ".." := by
    rintro rfl
    exact plain (by simp [whole])
  obtain ⟨es, found, rfl⟩ | ⟨place, absent, noLink, placed, nothing, rfl⟩ := one
  · -- Below a new directory none was there.
    refine old.imp_right fun barren => ?_
    obtain ⟨real, located, -⟩ := node_eq_ok.1 found
    rw [locate_eq_ok] at located
    exact absurd located (barren.nothing (by simp) (by simpa using Ne.symm notUp))
  · exact inr (barren_made notUp absent noLink placed nothing)

theorem file_of_makeDirs (notUp : name ≠ "..")
    (made : d.makeDirs p = .ok d') (found : d'.file (p.entry name) = .ok f) : d.file (p.entry name) = .ok f := by
  rcases barren_makeDirs plain made with rfl | barren
  · exact found
  · obtain ⟨real, located, -⟩ := file_eq_ok.1 found
    refine absurd (locate_eq_ok.1 located) ?_
    rw [(frame_makeDirs made).absolute, Path.entry, absolute_append]
    exact barren.nothing (by simp) (by simpa using Ne.symm notUp)

end

variable {touched : List String → Prop} {d'' : Disk}

theorem resolved_alike (alike : d.root.Alike d'.root) (current : d'.current = d.current) :
    d'.resolved p = d.resolved p := by
  have absolute : d'.absolute p = d.absolute p := by rw [absolute, absolute, current]
  suffices general : ∀ todo done : List String, resolved.go d' done todo = resolved.go d done todo by
    rw [resolved, absolute]
    exact congrArg (Path.mk "/") (general _ _)
  intro todo
  induction todo with
  | nil =>
    intro done
    rw [resolved.go, resolved.go]
  | cons name rest ih =>
    intro done
    rw [resolved.go, resolved.go]
    simp only [ih, resolve_alike alike, ← at?_snoc]
    rcases alike.kinds (done ++ [name]) with ⟨old, new⟩ | ⟨⟨_, old⟩, _, new⟩ | ⟨_, _, old, new⟩ | ⟨_, old, new⟩ <;>
      simp [old, new]

theorem Frame.alike (frame : Frame touched d d') (dirs : ∀ way, d'.root.IsDirAt way → d.root.IsDirAt way)
    (files : ∀ way, touched way → ∃ f f', d.root.at? way = some (.file f) ∧ d'.root.at? way = some (.file f')) :
    d.root.Alike d'.root := by
  intro way
  by_cases touch : touched way
  · obtain ⟨f, f', before, after⟩ := files way touch
    rw [before, after]
    rfl
  · have same := frame.leaves way touch
    cases before : d.root.leaf? way with
    | some n => rw [at?_of_leaf? before, at?_of_leaf? (same.trans before)]
    | none =>
      rcases leaf?_eq_none (same.trans before) with nothing | dir
      · rw [nothing, frame.absent touch nothing]
      · obtain ⟨_, before⟩ := dirs way dir
        obtain ⟨_, after⟩ := dir
        rw [before, after]
        rfl

theorem alike_write (rooted : (d.absolute p).isAbsolute)
    (found : d.file p = .ok f) (written : d.write p c t = .ok d') : d.root.Alike d'.root := by
  obtain ⟨real, located, there⟩ := file_eq_ok.1 found
  obtain ⟨place, placed, leaf, rfl⟩ := write_eq_ok written
  obtain rfl : real = place := by simpa [placeFor_of_locate rooted located] using placed
  refine (frame_putFile leaf _ _).alike (fun _ => isDirAt_of_write written) ?_
  rintro way rfl
  exact ⟨f, _, there, at?_putAt (leads_of_isSome (by simp [there]))⟩

/-! ## The directory of a place -/

theorem Walk.followed {root : Node} {done todo real : List String}
    (walk : Walk root false steps done todo real) (noLink : ∀ t, root.at? real ≠ some (.link t)) :
    Walk root true steps done todo real := by
  induction walk with
  | here steps done => exact .here steps done
  | up _ ih => exact .up (ih noLink)
  | down legal dir _ ih => exact .down legal dir (ih noLink)
  | file legal found => exact .file legal found
  | stop _ found _ => exact absurd found (noLink _)
  | through legal found _ _ ih => exact .through legal found (Or.inr rfl) (ih noLink)

/-- The place that a path leads to, a link at its end not followed. -/
def unfollowed (d : Disk) (p : Path) : Except Trouble (List String) :=
  resolve d.root false stepLimit [] (d.absolute p).parts

theorem unfollowed_alike (alike : d.root.Alike d'.root) (current : d'.current = d.current) :
    d'.unfollowed p = d.unfollowed p := by
  rw [unfollowed, unfollowed, resolve_alike alike, absolute, absolute, current]

theorem unfollowed_parent (named : p.parts ≠ []) (notUp : p.name ≠ "..")
    (found : d.unfollowed p = .ok place) : ∃ dir, d.locate p.parent = .ok dir ∧ place = dir ++ [p.name] := by
  obtain ⟨some_, last⟩ := Path.name_join (p := d.current) named
  have parts : (d.absolute p).parts = (d.absolute p.parent).parts ++ [p.name] := by
    rw [absolute_parent d named, ← last]
    exact (concat_name some_).symm
  rw [unfollowed, parts] at found
  obtain ⟨dir, first, rfl⟩ := (walk_of_resolve found).front.resolve_right fun up => notUp up.1
  exact ⟨dir, locate_eq_ok.2 first, rfl⟩

/-! ## Losses -/

/-- What is gone after a change stood at one of the places. -/
def Loses (places : List String → Prop) (d d' : Disk) : Prop :=
  ∀ way, (d.root.at? way).isSome → d'.root.at? way = none → places way

namespace Loses

variable {places more : List String → Prop}

theorem refl : Loses places d d := fun way some_ gone => by simp [gone] at some_

theorem mono (loses : Loses places d d') (all : ∀ way, places way → more way) : Loses more d d' :=
  fun way some_ gone => all way (loses way some_ gone)

theorem trans (first : Loses places d d') (second : Loses places d' d'') : Loses places d d'' := by
  intro way some_ gone
  cases between : d'.root.at? way with
  | none => exact first way some_ between
  | some n => exact second way (by simp [between]) gone

end Loses

theorem Frame.loses (frame : Frame touched d d') : Loses touched d d' := by
  intro way some_ gone
  by_contra off
  simp [frame.absent off gone] at some_

theorem loses_alike (alike : d.root.Alike d'.root) : Loses (fun _ => False) d d' := by
  intro way some_ gone
  have same := alike way
  rw [gone] at same
  rw [Option.map_eq_none_iff.1 same.symm] at some_
  cases some_

theorem loses_putAt {n : Node} (frame : Frame (· = place) d (d.putAt place n)) :
    Loses (fun _ => False) d (d.putAt place n) := by
  intro way some_ gone
  obtain rfl : way = place := frame.loses way some_ gone
  rw [at?_putAt (leads_of_isSome some_)] at gone
  cases gone

theorem loses_write (written : d.write p c t = .ok d') : Loses (fun _ => False) d d' := by
  obtain ⟨place, -, leaf, rfl⟩ := write_eq_ok written
  exact loses_putAt (frame_putAt leaf fun way => file_inner _)

theorem loses_makeDirs (made : d.makeDirs p = .ok d') : Loses (fun _ => False) d d' :=
  (frame_makeDirs made).loses

theorem loses_unlink (unlinked : d.unlink p = .ok d') : Loses (fun way => d.unfollowed p = .ok way) d d' := by
  obtain ⟨place, walk, frame, -⟩ := frame_unlink unlinked
  refine frame.loses.mono ?_
  rintro way rfl
  exact resolve_of_walk walk

theorem unfollowed_of_unlink {q : Path} {way : List String} (named : p.parts ≠ []) (notUp : p.name ≠ "..")
    (unlinked : d.unlink p = .ok d') (found : d'.unfollowed q = .ok way) : d.unfollowed q = .ok way := by
  obtain ⟨place, walk, some_, leaf, rfl⟩ := unlink_eq_ok unlinked
  obtain ⟨dir, -, rfl⟩ := unfollowed_parent named notUp (resolve_of_walk walk)
  exact resolve_of_walk ((walk_of_resolve found).before_drop (by simp) some_ leaf)

theorem loses_rename (rooted : (d.absolute p).isAbsolute) (named : p.parts ≠ [])
    (notUp : p.name ≠ "..") (found : d.file p = .ok f) (renamed : d.rename p (p.withName name) = .ok d') :
    Loses (fun way => d.unfollowed p = .ok way ∧ d'.root.at? (way.dropLast ++ [name]) = d.root.at? way) d d' := by
  have above : d.locate (d.absolute (p.withName name)).parent = d.locate p.parent := by
    have same : (d.absolute (p.withName name)).parent = d.absolute p.parent := by
      rw [absolute_withName d named, absolute_parent d named]
      simp [Path.withName, Path.parent]
    have again : d.absolute (d.absolute p.parent) = d.absolute p.parent :=
      absolute_of_isAbsolute (by rw [absolute_parent d named]; exact rooted)
    rw [same, locate, locate, again]
  have last : (p.withName name).name = name := by simp [Path.withName, Path.name]
  unfold rename at renamed
  rw [above, last] at renamed
  split at renamed
  · cases renamed
  · cases renamed
  · rename_i place dir unfollowed_ located
    obtain ⟨dir', located', rfl⟩ := unfollowed_parent named notUp unfollowed_
    obtain rfl : dir' = dir := by simpa [located] using located'.symm
    split at renamed
    · cases renamed
    · cases renamed
    · rename_i n there noDir
      cases renamed
      have leaf : ¬ d.root.IsDirAt (dir' ++ [p.name]) := by
        rintro ⟨es, isDir⟩
        have followed := (walk_of_resolve unfollowed_).followed (by simp [isDir])
        obtain ⟨real, whole, atFile⟩ := file_eq_ok.1 found
        rw [locate, resolve_of_walk followed] at whole
        cases whole
        simp [isDir] at atFile
      have inner : ∀ way, way ≠ [] → n.at? way = none := by
        intro way further
        have below := below_of_not_dir leaf further
        rwa [at?_append, there] at below
      have dropped := frame_dropAt leaf
      have isDir : d.root.IsDirAt dir' := isDirAt_of_longer (b := [p.name]) (by simp [there]) (by simp)
      have free : ¬ (d.dropAt (dir' ++ [p.name])).root.IsDirAt (dir' ++ [name]) := by
        intro dir
        obtain ⟨es, before⟩ := isDirAt_of_dropAt (by simp) (by simp [there]) dir
        exact noDir es before
      have put := frame_putAt free inner
      have made : ((d.dropAt (dir' ++ [p.name])).putAt (dir' ++ [name]) n).root.at? (dir' ++ [name]) = some n :=
        at?_putAt (Or.inr (by simpa using dropped.dirs _ isDir))
      refine Loses.trans (dropped.loses.mono ?_) ((loses_putAt put).mono fun _ => False.elim)
      rintro way rfl
      exact ⟨unfollowed_, by rw [dropLast_concat, made, there]⟩

end Folio.Disk

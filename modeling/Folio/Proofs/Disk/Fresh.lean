/-
# Proofs.Disk.Fresh -- what is written is read back

Whatever links stand on the way, a path that was written to leads to what was written (`file_of_written`).  Where the
path led to a file the look-up ends there still.  Otherwise it found nothing under its last name, or under the last name
that a link at its end says; the write put the file there, and the same look-up ends at it.

`Walk.carry` cuts such a look-up in two.  The tree after the write keeps directories, and links that lead somewhere
(`Grown`), so the first part is the same on both trees.
-/
import Folio.Proofs.Disk.Reading

namespace Folio.Disk

open List Option Path Walk

variable {c : Content} {f : File} {q : Path} {real todo : List String} {t : Moment} {target : String}

section Resolve

variable {root root' : Node} {last : Bool} {steps : Nat} {done rest : List String} {name : String}

/-! ## One step of a look-up -/

theorem Walk.isDirAt_root (walk : Walk root last steps done todo real)
    (named : ∃ x ∈ todo, x ≠ "..") : root.IsDirAt [] := by
  have above {done : List String} {x : String} (there : (root.at? (done ++ [x])).isSome) : root.IsDirAt [] :=
    Node.isDirAt_of_longer (a := []) there (by simp)
  induction walk with
  | here => simp at named
  | up _ ih => exact ih (by simpa using named)
  | down _ dir _ _ => obtain ⟨es, dir⟩ := dir; exact above (isSome_of_eq_some dir)
  | file _ found | stop _ found _ | through _ found _ _ _ => exact above (isSome_of_eq_some found)

theorem Walk.Trodden.isDirAt (trodden : Trodden root done) (top : root.IsDirAt []) : root.IsDirAt done := by
  rcases eq_nil_or_concat done with rfl | ⟨front, x, rfl⟩
  · exact top
  · simpa using (trodden front x [] (by simp)).2

theorem resolve_through (legal : Legal name) (found : root.at? (done ++ [name]) = some (.link target)) :
    resolve root true (steps + 1) done (name :: rest) =
      resolve root true steps (linkBase target done) ((ofString target).parts ++ rest) := by
  simp [resolve_legal legal, found]

theorem legal_of_absent (absent : resolve root true steps done [name] = .error .absent) :
    Legal name ∧ ∃ fewer, steps = fewer + 1 := by
  cases steps with
  | zero => simp [resolve] at absent
  | succ steps =>
    refine ⟨?_, steps, rfl⟩
    by_cases dots : name = ".."
    · subst dots
      cases steps <;> simp [resolve] at absent
    · by_contra illegal
      obtain ⟨t, failed, other⟩ := resolve_illegal dots illegal
      exact other (Except.error.inj (failed.symm.trans absent))

end Resolve

section Walks

variable {root root' : Node} {k s : Nat} {done a b mid dir : List String} {name : String}

/-! ## Look-ups in two parts -/

theorem Walk.resolve_or_circular (walk : Walk root true k done todo real) (s : Nat) :
    resolve root true s done todo = .ok real ∨ resolve root true s done todo = .error .circular := by
  induction s generalizing k done todo with
  | zero => exact .inr rfl
  | succ s ih =>
    cases walk with
    | here => exact .inl rfl
    | up further =>
      exact ih further
    | down legal dir further =>
      rw [resolve_down legal dir]
      exact ih further
    | file legal found => exact .inl (resolve_of_walk (.file legal found))
    | stop _ _ kept => simp at kept
    | through legal found _ further =>
      rw [resolve_through legal found]
      exact ih further

/-- Directories are still there, and so are the links that lead somewhere. -/
structure Grown (root root' : Node) : Prop where
  dirs : ∀ way, root.IsDirAt way → root'.IsDirAt way
  links : ∀ front x target, root.at? (front ++ [x]) = some (.link target) →
    (∃ steps real, Walk root true steps front [x] real) → root'.at? (front ++ [x]) = some (.link target)

theorem Grown.refl (root : Node) : Grown root root := ⟨fun _ => id, fun _ _ _ found _ => found⟩

theorem Walk.carry (grown : Grown root root') (walk : Walk root true k done a mid) (trodden : Trodden root done)
    (more : b ≠ []) (absent : resolve root true s done (a ++ b) = .error .absent) :
    Trodden root mid ∧ ∃ s' ≤ s, resolve root true s' mid b = .error .absent ∧
      ∀ real, resolve root' true s' mid b = .ok real → resolve root' true s done (a ++ b) = .ok real := by
  induction s generalizing k done a with
  | zero => simp [resolve] at absent
  | succ s ih =>
    cases walk with
    | here => exact ⟨trodden, s + 1, Nat.le_refl _, absent, fun _ => id⟩
    | up further =>
      obtain ⟨reached, s', le, rest, onward⟩ := ih further trodden.dropLast absent
      refine ⟨reached, s', by omega, rest, fun real ends => ?_⟩
      exact onward real ends
    | down legal isDir further =>
      rw [cons_append, resolve_down legal isDir] at absent
      obtain ⟨reached, s', le, rest, onward⟩ := ih further (trodden.snoc legal isDir) absent
      refine ⟨reached, s', by omega, rest, fun real ends => ?_⟩
      rw [cons_append, resolve_down legal (grown.dirs _ isDir)]
      exact onward real ends
    | file legal found =>
      simp [resolve_legal legal, found, more] at absent
    | stop _ _ kept => simp at kept
    | @through _ _ _ _ x target legal found follow further =>
      rw [cons_append, resolve_through legal found, ← append_assoc] at absent
      obtain ⟨reached, s', le, rest', onward⟩ := ih further (trodden.linkBase _) absent
      -- The walk goes on through the link, so the link leads somewhere.
      obtain ⟨real, first, -⟩ := split (a := [x]) (.through legal found follow further) trodden
      refine ⟨reached, s', by omega, rest', fun real ends => ?_⟩
      rw [cons_append, resolve_through legal (grown.links done x target found ⟨_, _, first⟩), ← append_assoc]
      exact onward real ends

theorem Walk.fresh (grown : Grown root root') (walk : Walk root true k done a dir)
    (trodden : Trodden root done) (put : root'.at? (dir ++ [name]) = some (.file f))
    (absent : resolve root true s done (a ++ [name]) = .error .absent) :
    resolve root' true s done (a ++ [name]) = .ok (dir ++ [name]) := by
  obtain ⟨-, s', -, rest, onward⟩ := walk.carry grown trodden (by simp) absent
  obtain ⟨legal, fewer, rfl⟩ := legal_of_absent rest
  exact onward _ (resolve_of_walk (.file legal put))

theorem Walk.not_link {front : List String} {x : String} (walk : Walk root true k done a real)
    (trodden : Trodden root done) (ends : real = front ++ [x]) : root.at? real ≠ some (.link target) := by
  induction walk with
  | here steps done =>
    obtain ⟨-, es, isDir⟩ := trodden front x [] ends
    rw [ends, isDir]
    simp
  | up _ ih => exact ih trodden.dropLast ends
  | down legal isDir _ ih => exact ih (trodden.snoc legal isDir) ends
  | file _ found => simp [found]
  | stop _ _ kept => simp at kept
  | through _ _ _ _ ih => exact ih (trodden.linkBase _) ends

/-- A link that says its own name leads nowhere, and a look-up does not come to an end there. -/
theorem not_absent_of_own_name (linked : root.at? (dir ++ [name]) = some (.link target))
    (trodden : Trodden root dir) (walk : Walk root true k (linkBase target dir) a dir)
    (parts : (ofString target).parts = a ++ [name]) (s : Nat) : resolve root true s dir [name] ≠ .error .absent := by
  induction s using Nat.strongRecOn with
  | _ s ih =>
    intro absent
    obtain ⟨legal, fewer, rfl⟩ := legal_of_absent absent
    rw [resolve_through legal linked, append_nil, parts] at absent
    obtain ⟨-, s', le, rest, -⟩ := walk.carry (.refl root) (trodden.linkBase _) (by simp) absent
    exact ih s' (by omega) rest

end Walks

/-! ## Written files -/

section Written

variable {d d' : Disk} {p : Path} {place : List String} {dir : List String} {name : String}

theorem grown_write {s : Nat} (written : d.write p c t = .ok d') (placed : d.placeFor p = .ok (dir ++ [name]))
    (absent : resolve d.root true s dir [name] = .error .absent) : Grown d.root d'.root := by
  obtain ⟨place, placed', frame⟩ := frame_write written
  obtain rfl : dir ++ [name] = place := by simpa [placed] using placed'
  refine ⟨frame.dirs, fun front x target found leads => ?_⟩
  refine (frame.link (fun same => ?_) target).2 found
  obtain ⟨rfl, last⟩ := append_inj' same rfl
  obtain rfl : x = name := by simpa using last
  obtain ⟨k, real, walk⟩ := leads
  rcases walk.resolve_or_circular s with ends | circular
  · rw [absent] at ends; cases ends
  · rw [absent] at circular; cases circular

theorem parts_of_absent (rooted : q.isAbsolute) (absent : d.locate q = .error .absent) :
    q.parts = q.parts.dropLast ++ [q.name] ∧
      resolve d.root true stepLimit [] (q.parts.dropLast ++ [q.name]) = .error .absent := by
  rw [locate, absolute_of_isAbsolute rooted] at absent
  have named : q.parts ≠ [] := by
    intro none_
    rw [none_] at absent
    simp [resolve, stepLimit] at absent
  rw [concat_name named]
  exact ⟨rfl, absent⟩

theorem locate_of_new (rooted : (d.absolute p).isAbsolute)
    (written : d.write p c t = .ok d') (absent : d.locate (d.absolute p) = .error .absent)
    (located : d.locate (d.absolute p).parent = .ok dir) (placed : d.placeFor p = .ok (dir ++ [(d.absolute p).name]))
    (put : d'.root.at? (dir ++ [(d.absolute p).name]) = some (.file f)) :
    resolve d'.root true stepLimit [] (d.absolute p).parts = .ok (dir ++ [(d.absolute p).name]) := by
  obtain ⟨parts, absent⟩ := parts_of_absent rooted absent
  have walk : Walk d.root true stepLimit [] (d.absolute p).parts.dropLast dir := by
    rw [locate_eq_ok, absolute_of_isAbsolute (p := (d.absolute p).parent) rooted] at located
    exact located
  obtain ⟨-, s, -, rest, -⟩ := walk.carry (.refl d.root) trodden_nil (by simp) absent
  rw [parts]
  exact walk.fresh (grown_write written placed rest) trodden_nil put absent

theorem link_at_end (rooted : q.isAbsolute) (absent : d.locate q = .error .absent)
    (linked : d.nodeUnfollowed q = .ok (.link target)) :
    ∃ mid, Walk d.root true stepLimit [] q.parts.dropLast mid ∧ d.root.at? (mid ++ [q.name]) = some (.link target) := by
  obtain ⟨parts, absent⟩ := parts_of_absent rooted absent
  rw [nodeUnfollowed_eq_ok, absolute_of_isAbsolute rooted, parts] at linked
  obtain ⟨real, walk, there⟩ := linked
  obtain ⟨mid, first, rfl⟩ | ⟨-, followed⟩ := walk.front
  · exact ⟨mid, first, there⟩
  · rw [resolve_of_walk followed] at absent
    cases absent

variable {mid dir : List String}

theorem walk_of_target (rooted : q.isAbsolute)
    (named : (ofString target).parts ≠ []) (first : Walk d.root true stepLimit [] q.parts.dropLast mid)
    (located : d.locate (q.parent.child target).parent = .ok dir) :
    ∃ k, Walk d.root true k (linkBase target mid) (ofString target).parts.dropLast dir := by
  rw [locate_eq_ok] at located
  by_cases absolute : (ofString target).isAbsolute
  · rw [child, Path.join, if_pos absolute,
      absolute_of_isAbsolute (p := (ofString target).parent) absolute] at located
    exact ⟨_, by rw [linkBase, if_pos absolute]; exact located⟩
  · rw [child, Path.join, if_neg absolute,
      absolute_of_isAbsolute (p := parent ⟨q.parent.root, q.parent.parts ++ (ofString target).parts⟩) rooted]
      at located
    change Walk d.root true stepLimit [] (q.parts.dropLast ++ (ofString target).parts).dropLast dir at located
    rw [dropLast_append_of_ne_nil named] at located
    rw [linkBase, if_neg absolute]
    obtain ⟨mid', first', after⟩ := split located trodden_nil
    obtain rfl := first.unique first'
    rcases after with ⟨none_, rfl⟩ | ⟨left, second, -, -⟩
    · rw [none_]
      exact ⟨1, .here 0 _⟩
    · exact ⟨left, second⟩

/-- A link at the end of a path that leads to nothing: it stands in `mid`, and the file that it says is missing from
`dir`. -/
structure Dangling (root : Node) (q : Path) (target : String) (mid dir : List String) : Prop where
  legal : Legal q.name
  named : (ofString target).parts ≠ []
  first : Walk root true stepLimit [] q.parts.dropLast mid
  trodden : Trodden root mid
  there : root.at? (mid ++ [q.name]) = some (.link target)
  second : ∃ k, Walk root true k (linkBase target mid) (ofString target).parts.dropLast dir
  isDir : root.IsDirAt dir
  vainFirst : ∃ s, resolve root true s mid [q.name] = .error .absent
  vainSecond : ∃ s, resolve root true s dir [(ofString target).name] = .error .absent

theorem vain_through {root : Node} {mid : List String} {s : Nat}
    (there : root.at? (mid ++ [name]) = some (.link target)) (vain : resolve root true s mid [name] = .error .absent) :
    ∃ m, s = m + 1 ∧ (ofString target).parts ≠ [] ∧ resolve root true m (linkBase target mid)
      ((ofString target).parts.dropLast ++ [(ofString target).name]) = .error .absent := by
  obtain ⟨legal, m, rfl⟩ := legal_of_absent vain
  rw [resolve_through legal there, append_nil] at vain
  have named : (ofString target).parts ≠ [] := by
    intro none_
    rw [none_] at vain
    cases m <;> simp [resolve] at vain
  exact ⟨m, rfl, named, by rwa [concat_name named]⟩

theorem dangling (rooted : q.isAbsolute)
    (absent : d.locate q = .error .absent) (linked : d.nodeUnfollowed q = .ok (.link target))
    (located : d.locate (q.parent.child target).parent = .ok dir) : ∃ mid, Dangling d.root q target mid dir := by
  obtain ⟨mid, first, there⟩ := link_at_end rooted absent linked
  obtain ⟨-, absent⟩ := parts_of_absent rooted absent
  obtain ⟨trodden, s, -, vainFirst, -⟩ := first.carry (.refl d.root) trodden_nil (by simp) absent
  obtain ⟨m, rfl, named, vain⟩ := vain_through there vainFirst
  obtain ⟨k, second⟩ := walk_of_target rooted named first located
  obtain ⟨reached, s, -, vainSecond, -⟩ := second.carry (.refl d.root) (trodden.linkBase _) (by simp) vain
  exact ⟨mid, (legal_of_absent vainFirst).1, named, first, trodden, there, ⟨k, second⟩,
    reached.isDirAt (Node.isDirAt_of_longer (a := []) (by simp [there]) (b := mid ++ [q.name]) (by simp)),
    ⟨_, vainFirst⟩, s, vainSecond⟩

section

variable (rooted : (d.absolute p).isAbsolute)

include rooted

theorem locate_of_dangling (written : d.write p c t = .ok d')
    (absent : d.locate (d.absolute p) = .error .absent) (dangles : Dangling d.root (d.absolute p) target mid dir)
    (placed : d.placeFor p = .ok (dir ++ [(ofString target).name]))
    (put : d'.root.at? (dir ++ [(ofString target).name]) = some (.file f)) :
    resolve d'.root true stepLimit [] (d.absolute p).parts = .ok (dir ++ [(ofString target).name]) := by
  obtain ⟨parts, absent⟩ := parts_of_absent rooted absent
  obtain ⟨k, second⟩ := dangles.second
  obtain ⟨_, vainFirst⟩ := dangles.vainFirst
  obtain ⟨_, vainSecond⟩ := dangles.vainSecond
  have grown := grown_write written placed vainSecond
  have split := concat_name dangles.named
  -- The link itself is still there: it does not say its own name.
  have still : d'.root.at? (mid ++ [(d.absolute p).name]) = some (.link target) := by
    obtain ⟨place, placed', frame⟩ := frame_write written
    obtain rfl : dir ++ [(ofString target).name] = place := by simpa [placed] using placed'
    refine (frame.link (fun own => ?_) target).2 dangles.there
    obtain ⟨rfl, same⟩ := append_inj' own rfl
    rw [cons.injEq] at same
    rw [same.1] at vainFirst
    exact not_absent_of_own_name (same.1 ▸ dangles.there) dangles.trodden second split.symm _ vainFirst
  obtain ⟨-, s, -, vain, onward⟩ := dangles.first.carry grown trodden_nil (by simp) absent
  obtain ⟨m, rfl, -, vain⟩ := vain_through dangles.there vain
  rw [parts]
  refine onward _ ?_
  rw [resolve_through dangles.legal still, append_nil, ← split]
  exact second.fresh grown (dangles.trodden.linkBase _) put vain

theorem file_of_written (written : d.write p c t = .ok d') : d'.file p = .ok ⟨c, t, d.writes + 1⟩ := by
  obtain ⟨place, placed, leaf, made⟩ := write_eq_ok written
  have frame := made ▸ frame_putFile leaf ⟨c, t, d.writes + 1⟩ (d.writes + 1)
  have put (leads : place = [] ∨ d.root.IsDirAt place.dropLast) :
      d'.root.at? place = some (.file ⟨c, t, d.writes + 1⟩) := by
    rw [made]
    exact at?_putAt leads
  suffices found : (place = [] ∨ d.root.IsDirAt place.dropLast) ∧
      (d'.root.at? place = some (.file ⟨c, t, d.writes + 1⟩) →
        resolve d'.root true stepLimit [] (d.absolute p).parts = .ok place) by
    refine file_eq_ok.2 ⟨place, ?_, put found.1⟩
    rw [locate, frame.absolute]
    exact found.2 (put found.1)
  obtain ⟨-, located | ⟨absent, ⟨target, dir, linked, located, rfl⟩ | ⟨dir, located, isDir, rfl⟩⟩⟩ :=
    placeFor_cases placed
  · rw [locate_eq_ok, absolute_of_isAbsolute rooted] at located
    refine ⟨leads_of_isSome (located.isSome_at? trodden_nil), fun there => resolve_of_walk ?_⟩
    refine located.keep frame.dirs (fun front x target found => (frame.link (fun same => ?_) target).2 found)
      fun _ _ => ⟨_, there⟩
    exact located.not_link trodden_nil same.symm (same ▸ found)
  · obtain ⟨mid, dangles⟩ := dangling rooted absent linked located
    rw [child, (name_join dangles.named).2] at placed ⊢
    refine ⟨.inr ?_, locate_of_dangling rooted written absent dangles placed⟩
    rw [dropLast_concat]
    exact dangles.isDir
  · refine ⟨.inr (by rwa [dropLast_concat]), fun there => ?_⟩
    exact locate_of_new rooted written absent located placed there

theorem write_file (found : d.file p = .ok f) (c : Content) (t : Moment) :
    ∃ d', d.write p c t = .ok d' ∧ d'.current = d.current ∧ d'.file p = .ok ⟨c, t, d.writes + 1⟩ := by
  obtain ⟨real, located, there⟩ := file_eq_ok.1 found
  have written : d.write p c t = .ok { d.putAt real (.file ⟨c, t, d.writes + 1⟩) with writes := d.writes + 1 } := by
    simp [write, placeFor_of_locate rooted located, there]
  exact ⟨_, written, rfl, file_of_written rooted written⟩

end

/-! ## Directories that are there -/

theorem node_above {pre rest : List String} (notUp : name ≠ "..")
    (found : d.file (p.entry name) = .ok f) (split : (d.absolute p).parts = pre ++ rest) :
    ∃ es, d.node ⟨"/", pre⟩ = .ok (.dir es) := by
  obtain ⟨real, located, -⟩ := file_eq_ok.1 found
  rw [locate_eq_ok, entry, absolute_append, split, append_assoc] at located
  obtain ⟨mid, first, after⟩ := Walk.split located trodden_nil
  have trodden : Trodden d.root mid := by
    rcases after with ⟨none_, -⟩ | ⟨-, -, -, trodden⟩
    · simp at none_
    · exact trodden
  obtain ⟨es, isDir⟩ := trodden.isDirAt (located.isDirAt_root ⟨name, by simp, notUp⟩)
  have located : d.locate ⟨"/", pre⟩ = .ok mid := by
    rw [locate_eq_ok]
    exact first
  exact ⟨es, node_eq_ok.2 ⟨mid, located, isDir⟩⟩

end Written

end Folio.Disk

/-
# Proofs.Disk.Lookup -- where a path leads

`Disk.resolve` goes down a tree name by name and through links, and gives up after a number of steps.  `Walk` is the
same search as a relation (`resolve_eq_ok`).  All facts about look-ups are inductions on `Walk`:

* more steps find the same place (`Walk.mono`);
* a walk is a walk to a place on the way and a walk from there (`Walk.split`);
* where no link stands along the names a walk follows them (`Walk.straight`, `Walk.append`);
* a change that keeps directories and links, and the file at the end, keeps the walk (`Walk.keep`).

The real path that `Disk.resolved` computes, one name after the other and each time from the root, is the place that the
whole look-up finds (`resolved_of_locate`).
-/
import Folio.Disk
import Folio.Proofs.Disk.Tree

namespace Folio

open Bool List Node Or Path

theorem bind_eq_ok {ε α β : Type} {x : Except ε α} {f : α → Except ε β} {b : β} :
    x >>= f = .ok b ↔ ∃ a, x = .ok a ∧ f a = .ok b := by
  cases x <;> simp [Bind.bind, Except.bind]

namespace Node

/-- A node without what is in it; a link keeps what it says. -/
def shape : Node → Node
  | .dir _ => .empty
  | .file _ => .file default
  | .link t => .link t

/-- Two trees with the same names, directories and links. -/
def Alike (root root' : Node) : Prop := ∀ way, (root'.at? way).map shape = (root.at? way).map shape

theorem Alike.kinds {root root' : Node} (alike : root.Alike root') (way : List String) :
    (root.at? way = none ∧ root'.at? way = none) ∨ (root.IsDirAt way ∧ root'.IsDirAt way) ∨
      (∃ f f', root.at? way = some (.file f) ∧ root'.at? way = some (.file f')) ∨
      ∃ t, root.at? way = some (.link t) ∧ root'.at? way = some (.link t) := by
  have same := alike way
  unfold IsDirAt
  generalize root.at? way = old at same ⊢
  generalize root'.at? way = new at same ⊢
  rcases old with _ | (_ | _ | _) <;> rcases new with _ | (_ | _ | _) <;> simp_all [shape, empty]

end Node

namespace Disk

variable {a b done real rest todo : List String} {d : Disk} {f : File} {name : String} {p : Path} {steps : Nat}

/-- A name that a look-up goes down by. -/
def Legal (name : String) : Prop :=
  name ≠ ".." ∧ name.toList.contains '\x00' = false ∧ name.utf8ByteSize ≤ 255

instance (name : String) : Decidable (Legal name) := inferInstanceAs (Decidable (_ ∧ _ ∧ _))

/-- Where the names that a link says are looked up from. -/
def linkBase (target : String) (done : List String) : List String :=
  if (ofString target).isAbsolute then [] else done

/-- A look-up below `done` that ends at `real`; the rules are those of `resolve`. -/
inductive Walk (root : Node) (last : Bool) :
    (steps : Nat) → (done todo real : List String) → Prop where
  | here (steps : Nat) (done : List String) : Walk root last (steps + 1) done [] done
  | up {steps : Nat} {done rest real : List String} (further : Walk root last steps done.dropLast rest real) :
      Walk root last (steps + 1) done (".." :: rest) real
  | down {steps : Nat} {done rest real : List String} {name : String} (legal : Legal name)
      (dir : root.IsDirAt (done ++ [name])) (further : Walk root last steps (done ++ [name]) rest real) :
      Walk root last (steps + 1) done (name :: rest) real
  | file {steps : Nat} {done : List String} {name : String} {f : File} (legal : Legal name)
      (found : root.at? (done ++ [name]) = some (.file f)) :
      Walk root last (steps + 1) done [name] (done ++ [name])
  | stop {steps : Nat} {done : List String} {name target : String} (legal : Legal name)
      (found : root.at? (done ++ [name]) = some (.link target)) (kept : last = false) :
      Walk root last (steps + 1) done [name] (done ++ [name])
  | through {steps : Nat} {done rest real : List String} {name target : String} (legal : Legal name)
      (found : root.at? (done ++ [name]) = some (.link target)) (follow : rest ≠ [] ∨ last)
      (further : Walk root last steps (linkBase target done) ((ofString target).parts ++ rest) real) :
      Walk root last (steps + 1) done (name :: rest) real

section Walks

variable {root : Node} {last : Bool}

/-! ### One step -/

theorem Legal.guards (legal : Legal name) :
    (name == "..") = false ∧ name.toList.contains '\x00' = false ∧ ¬ name.utf8ByteSize > 255 :=
  ⟨beq_eq_false_iff_ne.2 legal.1, legal.2.1, by have := legal.2.2; omega⟩

theorem resolve_up : resolve root last (steps + 1) done (".." :: rest) = resolve root last steps done.dropLast rest := by
  simp [resolve]

theorem resolve_legal (legal : Legal name) : resolve root last (steps + 1) done (name :: rest) =
    match root.at? (done ++ [name]) with
    | none => .error .absent
    | some (.link target) =>
      if rest.isEmpty && !last then .ok (done ++ [name])
      else resolve root last steps (linkBase target done) ((ofString target).parts ++ rest)
    | some (.file _) => if rest.isEmpty then .ok (done ++ [name]) else .error .notADirectory
    | some (.dir _) => resolve root last steps (done ++ [name]) rest := by
  obtain ⟨noDots, noZero, short⟩ := legal.guards
  simp only [resolve, noDots, noZero, short, ← at?_snoc]
  rfl

theorem resolve_down (legal : Legal name) (dir : root.IsDirAt (done ++ [name])) :
    resolve root last (steps + 1) done (name :: rest) = resolve root last steps (done ++ [name]) rest := by
  obtain ⟨es, atDir⟩ := dir
  rw [resolve_legal legal, atDir]

theorem resolve_illegal (notUp : name ≠ "..") (illegal : ¬ Legal name) :
    ∃ t, resolve root last (steps + 1) done (name :: rest) = .error t ∧ t ≠ .absent := by
  rw [resolve, if_neg (by simpa using notUp)]
  split
  · exact ⟨_, rfl, by simp⟩
  · rename_i noZero
    rw [if_pos]
    · exact ⟨_, rfl, by simp⟩
    · by_contra short
      exact illegal ⟨notUp, by simpa using noZero, by omega⟩

theorem walk_of_resolve (found : resolve root last steps done todo = .ok real) : Walk root last steps done todo real := by
  induction steps generalizing done todo with
  | zero => simp [resolve] at found
  | succ steps ih =>
    cases todo with
    | nil =>
      obtain rfl : done = real := by simpa [resolve] using found
      exact .here steps done
    | cons name rest =>
      by_cases dots : name = ".."
      · subst dots
        exact .up (ih found)
      by_cases legal : Legal name
      · rw [resolve_legal legal] at found
        split at found
        · cases found
        · rename_i target atLink
          split at found
          · rename_i atEnd
            obtain ⟨rfl, kept⟩ : rest = [] ∧ last = false := by simpa using atEnd
            cases found
            exact .stop legal atLink kept
          · rename_i follow
            refine .through legal atLink ?_ (ih found)
            cases rest with
            | nil => exact inr (by simpa using follow)
            | cons _ _ => exact inl (by simp)
        · rename_i f atFile
          split at found
          · rename_i atEnd
            obtain rfl : rest = [] := by simpa using atEnd
            cases found
            exact .file legal atFile
          · cases found
        · rename_i es atDir
          exact .down legal ⟨es, atDir⟩ (ih found)
      · obtain ⟨t, failed, -⟩ := resolve_illegal dots legal
        rw [failed] at found
        cases found

theorem resolve_of_walk (walk : Walk root last steps done todo real) : resolve root last steps done todo = .ok real := by
  induction walk with
  | here steps done => rfl
  | up _ ih => exact resolve_up.trans ih
  | down legal dir _ ih => exact (resolve_down legal dir).trans ih
  | file legal found => simp [resolve_legal legal, found]
  | stop legal found kept => simp [resolve_legal legal, found, kept]
  | through legal found follow _ ih =>
    rw [resolve_legal legal, found]
    refine (if_neg ?_).trans ih
    rcases follow with more | final
    · simp [more]
    · simp [final]

theorem resolve_eq_ok : resolve root last steps done todo = .ok real ↔ Walk root last steps done todo real :=
  ⟨walk_of_resolve, resolve_of_walk⟩

namespace Walk

section

variable (walk : Walk root last steps done todo real)

include walk

theorem succ : Walk root last (steps + 1) done todo real := by
  induction walk with
  | here steps done => exact .here _ done
  | up _ ih => exact .up ih
  | down legal dir _ ih => exact .down legal dir ih
  | file legal found => exact .file legal found
  | stop legal found kept => exact .stop legal found kept
  | through legal found follow _ ih => exact .through legal found follow ih

theorem mono {more : Nat} (le : steps ≤ more) : Walk root last more done todo real := by
  induction le with
  | refl => exact walk
  | step _ ih => exact ih.succ

/-- However many steps are left, a walk along the same names ends at the same place. -/
theorem unique {more : Nat} {real' : List String} (walk' : Walk root last more done todo real') : real' = real := by
  have first := resolve_of_walk (walk.mono (Nat.le_max_left steps more))
  have second := resolve_of_walk (walk'.mono (Nat.le_max_right steps more))
  exact Except.ok.inj (second.symm.trans first)

theorem legal_names : ∀ name ∈ todo, name = ".." ∨ Legal name := by
  induction walk with
  | here => simp
  | up _ ih => simpa using ih
  | down legal _ _ ih => simpa using ⟨inr legal, ih⟩
  | file legal _ | stop legal _ _ => simpa using inr legal
  | through legal _ _ _ ih =>
    refine forall_mem_cons.2 ⟨inr legal, fun name member => ?_⟩
    exact ih name (mem_append_right _ member)

theorem straight (plain : ".." ∉ todo)
    (linkless : ∀ way, way <+: todo → ∀ target, root.at? (done ++ way) ≠ some (.link target)) : real = done ++ todo := by
  induction walk with
  | here => simp
  | up _ _ => simp at plain
  | @down steps done rest real name _ _ _ ih =>
    have below := ih (fun h => plain (mem_cons_of_mem _ h)) fun way along target => by
      simpa using linkless (name :: way) (cons_prefix_cons.2 ⟨rfl, along⟩) target
    simpa using below
  | file => rfl
  | stop _ found _ => exact absurd found (linkless _ (prefix_refl _) _)
  | @through _ _ rest _ name _ _ found _ _ _ =>
    exact absurd found (linkless [name] (cons_prefix_cons.2 ⟨rfl, nil_prefix⟩) _)

end

/-! ### Walks in two parts -/

/-- The directories that a walk has gone down to. -/
def Trodden (root : Node) (done : List String) : Prop :=
  ∀ a x b, done = a ++ x :: b → Legal x ∧ root.IsDirAt (a ++ [x])

theorem trodden_nil : Trodden root [] := by
  intro a x b h
  simp at h

theorem Trodden.snoc (trodden : Trodden root done)
    (legal : Legal name) (dir : root.IsDirAt (done ++ [name])) : Trodden root (done ++ [name]) := by
  intro a x b split
  rcases eq_nil_or_concat b with rfl | ⟨b, y, rfl⟩
  · obtain ⟨rfl, h⟩ := append_inj' split rfl
    obtain rfl : name = x := by simpa using h
    exact ⟨legal, dir⟩
  · have shorter : done = a ++ x :: b := by
      have same : done ++ [name] = (a ++ x :: b) ++ [y] := by simpa using split
      exact (append_inj' same rfl).1
    exact trodden a x b shorter

theorem Trodden.dropLast (trodden : Trodden root done) : Trodden root done.dropLast := by
  intro a x b split
  rcases eq_nil_or_concat done with rfl | ⟨front, y, rfl⟩
  · simp at split
  · exact trodden a x (b ++ [y]) (by simpa using congrArg (· ++ [y]) split)

theorem Trodden.linkBase (trodden : Trodden root done) (target : String) : Trodden root (linkBase target done) := by
  unfold Disk.linkBase
  split
  · exact trodden_nil
  · exact trodden

theorem restart (walk : Walk root last steps done todo real) (trodden : Trodden root done) :
    Walk root last (steps + done.length) [] (done ++ todo) real := by
  suffices general : ∀ (b a : List String),
      (∀ pre x post, b = pre ++ x :: post → Legal x ∧ root.IsDirAt (a ++ pre ++ [x])) →
      Walk root last steps (a ++ b) todo real → Walk root last (steps + b.length) a (b ++ todo) real by
    exact general done [] (by simpa [Trodden] using trodden) (by simpa using walk)
  intro b
  induction b with
  | nil => intro a _ walk; simpa using walk
  | cons x b ih =>
    intro a dirs walk
    obtain ⟨legal, dir⟩ := dirs [] x b rfl
    refine .down legal (by simpa using dir) (ih (a ++ [x]) ?_ (by simpa using walk))
    intro pre y post split
    simpa using dirs (x :: pre) y post (by simp [split])

/-- A walk along `a` and then along `b`.  A step goes down by at most one name, so as many steps are
left on the way as the place there is deeper. -/
def InParts (root : Node) (steps : Nat) (done a b real : List String) : Prop :=
  ∃ mid, Walk root true steps done a mid ∧ ((b = [] ∧ real = mid) ∨
    ∃ left, Walk root true left mid b real ∧ left + mid.length ≤ steps + done.length ∧
      Trodden root mid)

theorem inParts_start (walk : Walk root true steps done b real) (trodden : Trodden root done) :
    InParts root steps done [] b real := by
  obtain ⟨fewer, rfl⟩ : ∃ fewer, steps = fewer + 1 := by cases walk <;> exact ⟨_, rfl⟩
  exact ⟨done, .here fewer done, inr ⟨fewer + 1, walk, Nat.le_refl _, trodden⟩⟩

theorem InParts.after {more : Nat} {done' a' : List String}
    (parts : InParts root steps done a b real) (room : steps + done.length ≤ more + done'.length)
    (step : ∀ mid, Walk root true steps done a mid → Walk root true more done' a' mid) :
    InParts root more done' a' b real := by
  obtain ⟨mid, first, atEnd | ⟨left, second, enough, trodden⟩⟩ := parts
  · exact ⟨mid, step mid first, inl atEnd⟩
  · exact ⟨mid, step mid first, inr ⟨left, second, by omega, trodden⟩⟩

theorem split (walk : Walk root true steps done (a ++ b) real) (trodden : Trodden root done) :
    InParts root steps done a b real := by
  generalize whole : a ++ b = todo at walk
  induction walk generalizing a with
  | here steps done =>
    obtain ⟨rfl, rfl⟩ := append_eq_nil_iff.1 whole
    exact inParts_start (.here steps done) trodden
  | @up steps done rest real further ih =>
    cases a with
    | nil =>
      obtain rfl : b = ".." :: rest := whole
      exact inParts_start (.up further) trodden
    | cons x a =>
      obtain ⟨rfl, rfl⟩ := cons.inj whole
      have shorter : done.dropLast.length ≤ done.length := by simp
      exact (ih trodden.dropLast rfl).after (by omega) fun _ first => .up first
  | @down steps done rest real name legal dir further ih =>
    cases a with
    | nil =>
      obtain rfl : b = name :: rest := whole
      exact inParts_start (.down legal dir further) trodden
    | cons x a =>
      obtain ⟨rfl, rfl⟩ := cons.inj whole
      have longer : (done ++ [x]).length = done.length + 1 := by simp
      exact (ih (trodden.snoc legal dir) rfl).after (by omega) fun _ first => .down legal dir first
  | @file steps done name f legal found =>
    cases a with
    | nil =>
      obtain rfl : b = [name] := whole
      exact inParts_start (.file legal found) trodden
    | cons x a =>
      obtain ⟨rfl, atEnd⟩ := cons.inj whole
      obtain ⟨rfl, rfl⟩ := append_eq_nil_iff.1 atEnd
      exact ⟨done ++ [x], .file legal found, inl ⟨rfl, rfl⟩⟩
  | stop _ _ kept => simp at kept
  | @through steps done rest real name target legal found follow further ih =>
    cases a with
    | nil =>
      obtain rfl : b = name :: rest := whole
      exact inParts_start (.through legal found follow further) trodden
    | cons x a =>
      obtain ⟨rfl, rfl⟩ := cons.inj whole
      have shorter : (linkBase target done).length ≤ done.length := by
        unfold linkBase
        split <;> simp
      have parts := ih (a := (ofString target).parts ++ a) (trodden.linkBase target) (by simp)
      exact parts.after (by omega) fun _ first => .through legal found (inr rfl) first

/-- A walk that does not follow a link at its end goes through the directory that the names before lead to,
unless its last step is up. -/
theorem front (walk : Walk root false steps done (a ++ [name]) real) :
    (∃ mid, Walk root true steps done a mid ∧ real = mid ++ [name]) ∨
      name = ".." ∧ Walk root true steps done (a ++ [name]) real := by
  generalize whole : a ++ [name] = todo at walk
  induction walk generalizing a with
  | here => simp at whole
  | @up steps done rest real further ih =>
    cases a with
    | nil =>
      obtain ⟨up, rfl⟩ := cons.inj whole
      cases further
      exact inr ⟨up, .up (.here _ _)⟩
    | cons x a =>
      obtain ⟨rfl, rest⟩ := cons.inj whole
      exact (ih rest).imp (fun ⟨mid, first, ends⟩ => ⟨mid, .up first, ends⟩) (And.imp_right .up)
  | @down steps done rest real y legal dir further ih =>
    cases a with
    | nil =>
      obtain ⟨rfl, rfl⟩ := cons.inj whole
      cases further
      exact inl ⟨done, .here _ _, rfl⟩
    | cons x a =>
      obtain ⟨rfl, rest⟩ := cons.inj whole
      exact (ih rest).imp (fun ⟨mid, first, ends⟩ => ⟨mid, .down legal dir first, ends⟩)
        (And.imp_right (.down legal dir))
  | @file steps done y f legal found | @stop steps done y target legal found kept =>
    have same : a ++ [name] = [] ++ [y] := whole
    obtain ⟨rfl, ends⟩ := append_inj' same rfl
    exact inl ⟨done, .here _ _, by rw [ends]⟩
  | @through steps done rest real y target legal found follow further ih =>
    cases a with
    | nil =>
      obtain ⟨-, rfl⟩ := cons.inj whole
      simp at follow
    | cons x a =>
      obtain ⟨rfl, rest⟩ := cons.inj whole
      exact (ih (a := (ofString target).parts ++ a) (by simp [← rest])).imp
        (fun ⟨mid, first, ends⟩ => ⟨mid, .through legal found (inr rfl) first, ends⟩)
        (And.imp_right (.through legal found (inr rfl)))

theorem append {limit : Nat} {mid : List String} (toMid : Walk root true limit done a mid)
    (walk : Walk root last steps done (a ++ b) real) (trodden : Trodden root done)
    (follow : b ≠ [] ∨ last) (plain : ".." ∉ b)
    (linkless : ∀ way, way <+: b → ∀ target, root.at? (mid ++ way) ≠ some (.link target)) : real = mid ++ b := by
  have followed {b real} (walk : Walk root true steps done (a ++ b) real) (plain : ".." ∉ b)
      (linkless : ∀ way, way <+: b → ∀ target, root.at? (mid ++ way) ≠ some (.link target)) : real = mid ++ b := by
    obtain ⟨mid', first, ⟨rfl, rfl⟩ | ⟨left, second, -⟩⟩ := walk.split trodden
    · rw [append_nil]
      exact toMid.unique first
    · obtain rfl := toMid.unique first
      exact second.straight plain linkless
  cases last with
  | true => exact followed walk plain linkless
  | false =>
    obtain ⟨front, name, rfl⟩ := (eq_nil_or_concat b).resolve_left (follow.resolve_right nofun)
    rw [concat_eq_append] at walk plain linkless ⊢
    rw [← append_assoc] at walk ⊢
    obtain ⟨mid', first, rfl⟩ := walk.front.resolve_right fun up => plain (by simp [up.1])
    rw [followed first (fun up => plain (mem_append_left _ up)) fun way along => ?_]
    exact linkless way (along.trans (prefix_append _ _))

theorem isSome_at? (walk : Walk root last steps done todo real) (trodden : Trodden root done) :
    (root.at? real).isSome := by
  induction walk with
  | here steps done =>
    rcases eq_nil_or_concat done with rfl | ⟨front, name, rfl⟩
    · simp
    · obtain ⟨-, es, atDir⟩ := trodden front name [] (by simp)
      rw [concat_eq_append, atDir]
      rfl
  | up _ ih => exact ih trodden.dropLast
  | down legal dir _ ih => exact ih (trodden.snoc legal dir)
  | file _ found | stop _ found _ => simp [found]
  | through _ _ _ _ ih => exact ih (trodden.linkBase _)

/-! ### Changed trees -/

theorem keep {root' : Node} (walk : Walk root last steps done todo real)
    (dirs : ∀ way, root.IsDirAt way → root'.IsDirAt way)
    (links : ∀ way name target, root.at? (way ++ [name]) = some (.link target) →
      root'.at? (way ++ [name]) = some (.link target))
    (file : ∀ f, root.at? real = some (.file f) → ∃ f', root'.at? real = some (.file f')) :
    Walk root' last steps done todo real := by
  induction walk with
  | here steps done => exact .here steps done
  | up _ ih => exact .up (ih file)
  | down legal dir _ ih => exact .down legal (dirs _ dir) (ih file)
  | file legal found =>
    obtain ⟨f', found'⟩ := file _ found
    exact .file legal found'
  | stop legal found kept => exact .stop legal (links _ _ _ found) kept
  | through legal found follow _ ih => exact .through legal (links _ _ _ found) follow (ih file)

end Walk

/-! ### Trees that are alike -/

theorem resolve_alike {root' : Node} (alike : root.Alike root') (last : Bool) (steps : Nat) (done todo : List String) :
    resolve root' last steps done todo = resolve root last steps done todo := by
  induction steps generalizing done todo with
  | zero => rfl
  | succ steps ih =>
    cases todo with
    | nil => rfl
    | cons name rest =>
      simp only [resolve, ih, ← at?_snoc]
      rcases alike.kinds (done ++ [name]) with ⟨old, new⟩ | ⟨⟨_, old⟩, _, new⟩ | ⟨_, _, old, new⟩ | ⟨_, old, new⟩ <;>
        simp only [old, new]

end Walks

/-! ## Places of paths -/

theorem absolute_of_isAbsolute (absolute : p.isAbsolute) : d.absolute p = p := by
  simp [Disk.absolute, join, absolute]

theorem locate_eq_ok : d.locate p = .ok real ↔ Walk d.root true stepLimit [] (d.absolute p).parts real := resolve_eq_ok

theorem node_eq_ok {n : Node} : d.node p = .ok n ↔ ∃ real, d.locate p = .ok real ∧ d.root.at? real = some n := by
  rw [node, bind_eq_ok]
  refine exists_congr fun real => and_congr_right fun _ => ?_
  cases d.root.at? real <;> simp

theorem nodeUnfollowed_eq_ok {n : Node} : d.nodeUnfollowed p = .ok n ↔
    ∃ real, Walk d.root false stepLimit [] (d.absolute p).parts real ∧ d.root.at? real = some n := by
  rw [nodeUnfollowed, bind_eq_ok]
  refine exists_congr fun real => and_congr resolve_eq_ok ?_
  cases d.root.at? real <;> simp

theorem file_eq_ok : d.file p = .ok f ↔ ∃ real, d.locate p = .ok real ∧ d.root.at? real = some (.file f) := by
  rw [← node_eq_ok, file]
  split <;> simp_all

theorem exists?_of_file (found : d.file p = .ok f) : d.exists? p = .ok true := by
  simp [exists?, ask, node_eq_ok.2 (file_eq_ok.1 found)]

theorem trouble_of_file {e : Fault} (failed : d.file p = .error e) : ∃ t : Trouble, e = t.fault p.text := by
  rw [file] at failed
  split at failed
  · cases failed
  all_goals exact ⟨_, (Except.error.inj failed).symm⟩

theorem resolved_of_locate (located : d.locate p = .ok real) : d.resolved p = ⟨"/", real⟩ := by
  suffices general : ∀ (todo done : List String) (steps : Nat), Walk.Trodden d.root done →
      steps + done.length ≤ stepLimit → Walk d.root true steps done todo real →
      resolved.go d done todo = real by
    exact congrArg (Path.mk "/") (general _ [] stepLimit Walk.trodden_nil (by simp) (locate_eq_ok.1 located))
  intro todo
  induction todo with
  | nil =>
    intro done steps _ _ walk
    cases walk with
    | here => rfl
  | cons name rest ih =>
    intro done steps trodden room walk
    rw [resolved.go]
    by_cases dots : name = ".."
    · subst dots
      obtain ⟨fewer, rfl⟩ : ∃ fewer, steps = fewer + 1 := by cases walk <;> exact ⟨_, rfl⟩
      have further := walk_of_resolve (resolve_up.symm.trans (resolve_of_walk walk))
      have shorter : done.dropLast.length ≤ done.length := by simp
      simpa using ih _ fewer trodden.dropLast (by omega) further
    · obtain ⟨mid, first, after⟩ := Walk.split (a := [name]) walk trodden
      have again : resolve d.root true stepLimit [] (done ++ [name]) = .ok mid :=
        resolve_of_walk ((first.restart trodden).mono room)
      simp only [beq_eq_false_iff_ne.2 dots, again]
      rcases after with ⟨rfl, rfl⟩ | ⟨left, second, enough, troddenMid⟩
      · rfl
      · exact ih mid left troddenMid (by omega) second

end Disk

end Folio

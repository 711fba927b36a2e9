/-
# Proofs.Saved.Shelf -- the two directories of saved projects

Projects are saved in one directory and were saved in the one above it before (`Shelf`).  Where no link is in the way,
whether a file is there can be told from the tree (`Shelf.firstThere?`), and the list of saved projects has the name of
a project exactly if its file stands in one of the two (`Api.Projects.outcome_names`).
-/
import Folio.Api.Projects
import Folio.Proofs.Text.Words
import Folio.Proofs.Workspace

namespace Folio

open Action Disk List Node Or Path String Text

variable {aims : List String → Prop} {name : String} {q : Path} {way : List String}

/-! ## Lists without repetitions -/

namespace Text

variable {α β : Type} [BEq β] [LawfulBEq β]

theorem uniqueBy_spec (key : α → β) (xs : List α) :
    (∀ x ∈ uniqueBy key xs, x ∈ xs) ∧ ∀ x ∈ xs, ∃ y ∈ uniqueBy key xs, key y = key x := by
  -- The keys that were seen are those of the elements that were taken.
  suffices general : ∀ (xs seen : List α), (∀ x ∈ (xs.foldl (fun (acc : List β × List α) x =>
        if acc.1.contains (key x) then acc else (key x :: acc.1, x :: acc.2)) (seen.map key, seen)).2, x ∈ seen ∨ x ∈ xs) ∧
      ∀ x, x ∈ seen ∨ x ∈ xs → ∃ y ∈ (xs.foldl (fun (acc : List β × List α) x =>
        if acc.1.contains (key x) then acc else (key x :: acc.1, x :: acc.2)) (seen.map key, seen)).2, key y = key x by
    obtain ⟨only, all⟩ := general xs []
    refine ⟨fun x member => ?_, fun x member => ?_⟩
    · simpa using only x (mem_reverse.1 member)
    · obtain ⟨y, member', same⟩ := all x (inr member)
      exact ⟨y, mem_reverse.2 member', same⟩
  intro xs
  induction xs with
  | nil => exact fun seen => ⟨fun x member => inl member, fun x member => ⟨x, by simpa using member, rfl⟩⟩
  | cons a xs ih =>
    intro seen
    rw [foldl_cons]
    split
    · rename_i known
      obtain ⟨b, member, same⟩ := mem_map.1 (contains_iff_mem.1 known)
      obtain ⟨only, all⟩ := ih seen
      refine ⟨fun x member => (only x member).imp_right (mem_cons_of_mem _), fun x member => ?_⟩
      rcases member with old | new
      · exact all x (inl old)
      · rcases mem_cons.1 new with rfl | later
        · rw [← same]
          exact all b (inl member)
        · exact all x (inr later)
    · obtain ⟨only, all⟩ := ih (a :: seen)
      refine ⟨fun x member => ?_, fun x member => ?_⟩
      · rcases only x member with taken | later
        · exact (mem_cons.1 taken).elim (fun same => inr (same ▸ mem_cons_self)) inl
        · exact inr (mem_cons_of_mem _ later)
      · refine all x ?_
        rcases member with old | new
        · exact inl (mem_cons_of_mem _ old)
        · rcases mem_cons.1 new with rfl | later
          · exact inl mem_cons_self
          · exact inr later

theorem mem_uniqueBy {key : α → β} {xs : List α} (apart : ∀ x ∈ xs, ∀ y ∈ xs, key x = key y → x = y) {x : α} :
    x ∈ uniqueBy key xs ↔ x ∈ xs := by
  obtain ⟨only, all⟩ := uniqueBy_spec key xs
  refine ⟨only x, fun member => ?_⟩
  obtain ⟨y, taken, same⟩ := all x member
  rw [← apart y (only y taken) x member same]
  exact taken

end Text

/-! ## Names of documents -/

namespace Path

theorem nameStem_json {stem : String} (some_ : stem ≠ "") : nameStem (stem ++ ".json") = stem := by
  have letters : stem ++ ".json" = ofList (stem.toList ++ '.' :: "json".toList) := by
    simp
  rw [letters, nameStem_append (by simpa using some_) (by decide) (by decide), ofList_toList]

theorem stem_of_endsWith (ends : Text.endsWith name ".json") (more : name ≠ ".json") :
    name = nameStem name ++ ".json" := by
  obtain ⟨cs, letters⟩ := endsWith_iff.1 ends
  have whole : name = ofList cs ++ ".json" := by
    rw [← toList_inj, toList_append, toList_ofList, letters]
  have some_ : ofList cs ≠ "" := by
    intro none_
    rw [none_] at whole
    exact more whole
  rw [whole, nameStem_json some_]

end Path

/-! ## What is there -/

namespace Disk

variable {d d' : Disk} {p : Path}

theorem isSome_at?_iff {n : Node} : (n.at? way).isSome ↔ n.IsDirAt way ∨ (n.leaf? way).isSome := by
  unfold IsDirAt leaf?
  rcases n.at? way with _ | (_ | _ | _) <;> simp [leafOf]

theorem mem_list (linkless : d.Linkless) (straight : p.Straight) (legal : ∀ x ∈ p.parts, Legal x)
    (short : p.parts.length < stepLimit) :
    (∃ n, (name, n) ∈ (d.list p).toOption.getD []) ↔ (d.root.at? (p.parts ++ [name])).isSome := by
  have listed {es : List (String × Node)} : (∃ n, (name, n) ∈ es) ↔ (es.lookup name).isSome := by
    simp
  have unlisted (noDir : ∀ es, d.root.at? p.parts ≠ some (.dir es)) :
      ¬ ∃ n, (name, n) ∈ (d.list p).toOption.getD [] := by
    have nothing : (d.list p).toOption = none := by
      unfold list
      cases found : d.node p with
      | error t => rfl
      | ok n =>
        cases n with
        | dir es => exact absurd (node_linkless linkless straight found) (noDir es)
        | file f | link target => rfl
    simp [nothing]
  rw [at?_snoc]
  cases there : d.root.at? p.parts with
  | some n =>
    cases n with
    | dir es =>
      have located : d.locate p = .ok p.parts :=
        locate_dir (by rw [absolute_straight straight]) short legal ⟨es, there⟩
      have entries : d.list p = .ok es := by
        rw [list, node_eq_ok.2 ⟨_, located, there⟩]
      rw [entries]
      exact listed
    | file f => exact iff_of_false (unlisted (by simp [there])) (by simp [child?, entries])
    | link target => exact absurd there (linkless.noLink _ _)
  | none => exact iff_of_false (unlisted (by simp [there])) (by simp)

theorem Reaches.isSome (reaches : Reaches aims d d')
    (off : ∀ aim, aims aim → ¬ way <+: aim) : (d'.root.at? way).isSome = (d.root.at? way).isSome := by
  have leaf := reaches.leaves way fun aim => off way aim (prefix_refl _)
  have dir : d'.root.IsDirAt way ↔ d.root.IsDirAt way :=
    ⟨fun new => by_contra fun old => reaches.leaf old off new, reaches.dirs way⟩
  rw [Bool.eq_iff_iff, isSome_at?_iff, isSome_at?_iff, leaf, dir]

theorem Reaches.isSome_of_there (reaches : Reaches aims d d')
    (there : ∀ aim, aims aim → (d.root.at? aim).isSome) (off : ¬ aims way) :
    (d'.root.at? way).isSome = (d.root.at? way).isSome := by
  have dir : d'.root.IsDirAt way ↔ d.root.IsDirAt way := by
    refine ⟨fun new => ?_, reaches.dirs way⟩
    rcases reaches.fresh way new with old | ⟨aim, is, rest, rfl⟩
    · exact old
    · refine isDirAt_of_longer (there _ is) fun ends => off ?_
      rwa [ends, append_nil] at is
  rw [Bool.eq_iff_iff, isSome_at?_iff, isSome_at?_iff, reaches.leaves way off, dir]

end Disk

/-! ## The shelf -/

namespace Saved

/-- The directory that projects are saved in and the one above it, with no link in the way. -/
structure Shelf (w : Workspace) (dir : Path) : Prop where
  linkless : w.disk.Linkless
  named : w.disk.root.Named IsEntry
  home : w.context.home.Straight
  saveDir : w.context.saveDir = some dir
  filesDir : w.context.filesDir = some dir.parent
  rooted : dir.root = "/"
  names : ∀ x ∈ dir.parts, IsEntry x
  legal : ∀ x ∈ dir.parts, Legal x
  deep : dir.parts ≠ []
  short : dir.parts.length + 1 < stepLimit

/-- The places where the file of a project may stand. -/
def copies (dir : Path) (file : String) : List (List String) := [dir.parts ++ [file], dir.parent.parts ++ [file]]

variable {w : Workspace} {dir p : Path} {file : String}

namespace Shelf

section

variable (shelf : Shelf w dir)

include shelf

theorem straight : dir.Straight :=
  ⟨by simp [isAbsolute, shelf.rooted], fun up => (shelf.legal ".." up).1 rfl⟩

theorem ne_parent : dir.parent ≠ dir := by
  intro same
  have shorter := congrArg (List.length ∘ parts) same
  have some_ : 0 < dir.parts.length := length_pos_iff.2 shelf.deep
  simp only [Function.comp, parent, length_dropLast] at shorter
  omega

theorem of_dirs (is : q = dir ∨ q = dir.parent) :
    q.Straight ∧ q.root = "/" ∧ (∀ x ∈ q.parts, Legal x) ∧ q.parts.length + 1 < stepLimit := by
  rcases is with rfl | rfl
  · exact ⟨shelf.straight, shelf.rooted, shelf.legal, shelf.short⟩
  · refine ⟨shelf.straight.parent, shelf.rooted, fun x member => shelf.legal x (dropLast_subset _ member), ?_⟩
    have shorter : dir.parent.parts.length ≤ dir.parts.length := by simp [parent]
    have short := shelf.short
    omega

theorem searchDir : searchDir w = .ok dir := by
  have required : Context.required w.context.saveDir = .ok dir := by
    rw [shelf.saveDir]
    rfl
  have expanded : w.services.expanded dir = .ok dir := by
    simp [Services.expanded, Services.hasHomeMark, shelf.straight.rooted]
  have whole : (⟨"/", dir.parts⟩ : Path) = dir := by rw [← shelf.rooted]
  rw [Saved.searchDir, required]
  simp [bind, Except.bind, expanded, pure, Except.pure, resolved_linkless shelf.linkless shelf.straight, whole]

theorem exists?_entry (is : q = dir ∨ q = dir.parent) (legal : Legal file) :
    w.disk.exists? (q.entry file) = .ok (w.disk.root.at? (q.parts ++ [file])).isSome := by
  obtain ⟨straight, -, names, short⟩ := shelf.of_dirs is
  refine exists?_linkless shelf.linkless (straight.entry legal.1) (fun x member => ?_) ?_
  · rcases mem_append.1 member with above | last
    · exact names x above
    · exact mem_singleton.1 last ▸ legal
  · simpa [entry] using short

theorem firstThere? (entry : IsEntry file) (legal : Legal file) : firstThere? w.disk (placesOf dir file) =
      .ok (if (w.disk.root.at? (dir.parts ++ [file])).isSome then some (dir.entry file)
        else if (w.disk.root.at? (dir.parent.parts ++ [file])).isSome then some (dir.parent.entry file) else none) := by
  have places : placesOf dir file = [dir.entry file, dir.parent.entry file] := by
    rw [placesOf, child_of_isName entry.toIsName, child_of_isName entry.toIsName]
  rw [places, Saved.firstThere?, shelf.exists?_entry (inl rfl) legal, Saved.firstThere?,
    shelf.exists?_entry (inr rfl) legal]
  cases (w.disk.root.at? (dir.parts ++ [file])).isSome <;>
    cases (w.disk.root.at? (dir.parent.parts ++ [file])).isSome <;> rfl

/-! ### Listing -/

section

variable (is : q = dir ∨ q = dir.parent)

include is

theorem mem_documentsIn : p ∈ documentsIn w.disk q ↔
      ∃ name, Text.endsWith name ".json" ∧ (w.disk.root.at? (q.parts ++ [name])).isSome ∧ p = q.entry name := by
  obtain ⟨straight, -, names, short⟩ := shelf.of_dirs is
  simp only [documentsIn, mem_map, mem_filter, ← mem_list shelf.linkless straight names (Nat.lt_of_succ_lt short)]
  constructor
  · rintro ⟨⟨name, n⟩, ⟨member, ends⟩, rfl⟩
    exact ⟨name, ends, ⟨n, member⟩, rfl⟩
  · rintro ⟨name, ends, ⟨n, member⟩, rfl⟩
    exact ⟨(name, n), ⟨member, ends⟩, rfl⟩

theorem resolved_injective {q' p' : Path} (is' : q' = dir ∨ q' = dir.parent) (member : p ∈ documentsIn w.disk q)
    (member' : p' ∈ documentsIn w.disk q') (same : (w.disk.resolved p).text = (w.disk.resolved p').text) : p = p' := by
  have real {q p : Path} (is : q = dir ∨ q = dir.parent) (member : p ∈ documentsIn w.disk q) :
      ofString (w.disk.resolved p).text = p := by
    obtain ⟨straight, root, -, -⟩ := shelf.of_dirs is
    obtain ⟨name, -, there, rfl⟩ := (shelf.mem_documentsIn is).1 member
    obtain ⟨n, found⟩ := Option.isSome_iff_exists.1 there
    have names := (named_at? shelf.named found).1
    have notUp : name ≠ ".." := (names name (by simp)).notUp
    have whole : (⟨"/", (q.entry name).parts⟩ : Path) = q.entry name := by
      rw [← root]
      rfl
    rw [resolved_linkless shelf.linkless (straight.entry notUp), whole]
    refine ofString_text ⟨inr (inl root), fun x member => ?_⟩
    exact (names x member).toIsName
  rw [← real is member, ← real is' member', same]

theorem exists?_dir : w.disk.exists? q = .ok (w.disk.root.at? q.parts).isSome := by
  obtain ⟨straight, -, names, short⟩ := shelf.of_dirs is
  exact exists?_linkless shelf.linkless straight names (Nat.lt_of_succ_lt short)

theorem documentsIn_none (nothing : (w.disk.root.at? q.parts).isSome = false) : documentsIn w.disk q = [] := by
  refine eq_nil_iff_forall_not_mem.2 fun p member => ?_
  obtain ⟨name, -, there, -⟩ := (shelf.mem_documentsIn is).1 member
  obtain ⟨es, found⟩ := isDirAt_of_longer there (by simp)
  simp [found] at nothing

end

theorem mem_files : ∃ ps, files w.disk dir = .ok ps ∧ ∀ p, p ∈ ps ↔
      (p ∈ documentsIn w.disk dir ∨ p ∈ documentsIn w.disk dir.parent) ∧ isInternal p.name = false := by
  have run : files w.disk dir = .ok ((uniqueBy (fun p => (w.disk.resolved p).text)
      (documentsIn w.disk dir ++ documentsIn w.disk dir.parent)).filter fun p => !isInternal p.name) := by
    have other := shelf.ne_parent
    unfold files
    rw [shelf.exists?_dir (inl rfl), shelf.exists?_dir (inr rfl)]
    cases there : (w.disk.root.at? dir.parts).isSome <;> cases there' : (w.disk.root.at? dir.parent.parts).isSome <;>
      simp_all [bind, Except.bind, pure, Except.pure, shelf.documentsIn_none]
  refine ⟨_, run, fun p => ?_⟩
  rw [mem_filter, mem_uniqueBy, mem_append, Bool.not_eq_true']
  intro x member y member' same
  rcases mem_append.1 member with isX | isX <;> rcases mem_append.1 member' with isY | isY <;>
    exact shelf.resolved_injective (by simp) (by simp) isX isY same

theorem step {d : Disk} (linkless : d.Linkless) (named : d.root.Named IsEntry) : Shelf { w with disk := d } dir :=
  ⟨linkless, named, shelf.home, shelf.saveDir, shelf.filesDir, shelf.rooted, shelf.names, shelf.legal, shelf.deep, shelf.short⟩

end

end Shelf

end Saved

/-! ## Identifiers -/

namespace Api.Projects

open Saved (Shelf copies)

variable {w : Workspace} {dir : Path} {id stem : String}

theorem suffix_fileOf (id : String) : ".json".toList <:+ (fileOf id).toList := by
  unfold fileOf
  split
  · rename_i ends
    exact endsWith_iff.1 ends
  · rw [toList_append]
    exact suffix_append _ _

theorem fileOf_ne {x : String} (off : 'j' ∉ x.toList) (id : String) : fileOf id ≠ x :=
  ne_of_mem 'j' ((suffix_fileOf id).subset (by decide)) off

theorem noSlash_fileOf {id : String} (plain : '/' ∉ id.toList) : '/' ∉ (fileOf id).toList := by
  unfold fileOf
  split
  · exact plain
  · rw [toList_append]
    exact fun member => (mem_append.1 member).elim plain (by decide)

/-- An identifier of the project whose file has a stem: the stem itself, or the name of the file. -/
structure Identifies (id stem : String) : Prop where
  file : fileOf id = stem ++ ".json"
  noSlash : '/' ∉ stem.toList
  some_ : stem ≠ ""
  notEnding : stem ≠ ".json"

namespace Identifies

theorem entry (identifies : Identifies id stem) : IsEntry (stem ++ ".json") := by
  have ends (x : String) (off : 'j' ∉ x.toList) : stem ++ ".json" ≠ x := ne_of_mem 'j' (by simp) off
  refine ⟨⟨ends _ (by decide), ends _ (by decide), ?_⟩, ends _ (by decide)⟩
  rw [toList_append]
  exact fun member => (mem_append.1 member).elim identifies.noSlash (by decide)

theorem stem_eq (identifies : Identifies id stem) : (ofString (stem ++ ".json")).stem = stem := by
  rw [ofString_of_isName identifies.entry.toIsName]
  exact nameStem_json identifies.some_

end Identifies

/-- A project is listed exactly if its file stands in one of the two directories and is none of the application's. -/
theorem outcome_names (shelf : Shelf w dir) : ∃ ns, names.outcome w = (.ok ns, w) ∧ ∀ id stem, Identifies id stem →
      (stem ∈ ns ↔ Saved.isInternal (stem ++ ".json") = false ∧
        ∃ way ∈ copies dir (stem ++ ".json"), (w.disk.root.at? way).isSome) := by
  obtain ⟨ps, run, files⟩ := shelf.mem_files
  have listed : savedFiles.outcome w = (.ok ps, w) := by
    have required : (liftM (Context.required w.context.saveDir) : Action Path).outcome w = (.ok dir, w) := by
      rw [shelf.saveDir]
      rfl
    rw [savedFiles, bind_of_ok (outcome_get w), bind_of_ok required, outcome_ask, run]
  refine ⟨ps.map (·.stem), by rw [names, bind_of_ok listed]; rfl, fun id stem identifies => ?_⟩
  have last (q : Path) (name : String) : (q.entry name).name = name := by simp [entry, Path.name]
  have document {q : Path} (is : q = dir ∨ q = dir.parent) :
      (∃ p ∈ Saved.documentsIn w.disk q, p.stem = stem ∧ Saved.isInternal p.name = false) ↔
        Saved.isInternal (stem ++ ".json") = false ∧ (w.disk.root.at? (q.parts ++ [stem ++ ".json"])).isSome := by
    constructor
    · rintro ⟨p, member, own, other⟩
      obtain ⟨name, ends, there, rfl⟩ := (shelf.mem_documentsIn is).1 member
      rw [Path.stem, last] at own
      rw [last] at other
      have more : name ≠ ".json" := by
        rintro rfl
        exact identifies.notEnding (own.symm.trans (by decide))
      have whole := stem_of_endsWith ends more
      rw [own] at whole
      rw [← whole]
      exact ⟨other, there⟩
    · rintro ⟨other, there⟩
      refine ⟨q.entry (stem ++ ".json"), (shelf.mem_documentsIn is).2 ⟨_, ?_, there, rfl⟩, ?_, ?_⟩
      · rw [endsWith_iff, toList_append]
        exact suffix_append _ _
      · rw [Path.stem, last]
        exact nameStem_json identifies.some_
      · rwa [last]
  have here := document (inl rfl)
  have above := document (inr rfl)
  simp only [mem_map, files, copies, mem_cons, not_mem_nil, or_false, exists_eq_or_imp, exists_eq_left]
  constructor
  · rintro ⟨p, ⟨member | member, other⟩, own⟩
    · exact (here.1 ⟨p, member, own, other⟩).imp_right inl
    · exact (above.1 ⟨p, member, own, other⟩).imp_right inr
  · rintro ⟨other, there | there⟩
    · obtain ⟨p, member, own, other⟩ := here.2 ⟨other, there⟩
      exact ⟨p, ⟨inl member, other⟩, own⟩
    · obtain ⟨p, member, own, other⟩ := above.2 ⟨other, there⟩
      exact ⟨p, ⟨inr member, other⟩, own⟩

end Api.Projects

end Folio

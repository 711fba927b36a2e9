/-
# Proofs.Insight.FileStats -- the statistics of a directory and the files in it

The hierarchy of a directory tells directories and files apart by the type of a node, which for a file is its suffix.
So a file whose suffix reads like the word for a directory is taken for one (`upper_eq_dir_iff`).  The statistics count
all other files and add up their sizes (`file_stats_right_iff`).
-/
import Folio.Hierarchy
import Folio.Insight.FileStats
import Folio.Proofs.Action
import Folio.Proofs.Disk.Tree
import Mathlib

namespace Folio

open Char Hierarchy List Node Option Text Value

variable {es : List (String × Node)} {files : List (Path × File)} {n : Node} {name s : String} {x : Char}

/-! ## Words in capitals -/

namespace Text

theorem upperSpelling_ne_nil (c : Char) : upperSpelling c ≠ [] := by
  have spelled : ∀ e ∈ upperSpelled, e.2 ≠ [] := by decide
  unfold upperSpelling
  split
  · simp
  · split
    · rename_i points found
      simpa using spelled _ (mem_of_lookup found)
    · simp
    · simp

theorem toList_upper (s : String) : (upper s).toList = s.toList.flatMap upperSpelling := String.toList_ofList

theorem upper_ne_empty (some_ : s ≠ "") : upper s ≠ "" := by
  intro empty
  have letters := congrArg String.toList empty
  rw [toList_upper, String.toList_empty, flatMap_eq_nil_iff] at letters
  refine some_ (String.toList_eq_nil_iff.1 (eq_nil_iff_forall_not_mem.2 fun c member => ?_))
  exact upperSpelling_ne_nil c (letters c member)

/-- The letters whose capital forms spell the word for a directory. -/
def dirLetters : List Char := ['D', 'd', 'I', 'i', 'ı', 'R', 'r']

theorem toNat_of_shifted {runs : List (Nat × Nat × Nat × Int)} {n : Nat} (shifted : shifted? runs n = some x) :
    ∃ r ∈ runs, r.1 ≤ n ∧ n ≤ r.2.1 ∧ x = ofNat ((n : Int) + r.2.2.2).toNat := by
  obtain ⟨r, found, rfl⟩ := map_eq_some_iff.1 shifted
  have fits := find?_some found
  simp only [Bool.and_eq_true, decide_eq_true_eq] at fits
  exact ⟨r, mem_of_find?_eq_some found, fits.1.1, fits.1.2, rfl⟩

theorem ofNat_eq {n : Nat} (same : ofNat n = x) (some_ : x ≠ ofNat 0) : n = x.toNat := by
  subst same
  unfold ofNat at some_ ⊢
  split
  · rfl
  · rename_i invalid
    rw [dif_neg invalid] at some_
    exact absurd rfl some_

theorem mem_dirLetters {c : Char} (inside : ∀ x ∈ upperSpelling c, x ∈ "DIR".toList) : c ∈ dirLetters := by
  have ascii : ∀ n < 128, (ofNat n).toUpper ∈ "DIR".toList → ofNat n ∈ dirLetters := by decide
  have spelled : ∀ e ∈ upperSpelled, ∃ x ∈ e.2, ofNat x ∉ "DIR".toList := by decide
  -- Among the runs only the dotless letter has one of the capitals for its form.
  have runs : ∀ r ∈ upperRuns, ∀ n ∈ "DIR".toList.map toNat, (r.1 : Int) + r.2.2.2 ≤ n → n ≤ r.2.1 + r.2.2.2 →
      r = (305, 305, 1, -232) := by decide +kernel
  unfold upperSpelling at inside
  split at inside
  · rename_i small
    have own := ascii c.toNat small
    rw [ofNat_toNat] at own
    exact own (inside _ mem_cons_self)
  · rename_i large
    split at inside
    · rename_i points found
      obtain ⟨x, member, off⟩ := spelled _ (mem_of_lookup found)
      exact absurd (inside _ (mem_map_of_mem member)) off
    · exact absurd (inside (ofNat 921) (by simp)) (by decide)
    · have capital := inside _ mem_cons_self
      cases shifted : shifted? upperRuns c.toNat with
      | none =>
        rw [shifted] at capital
        have small : ∀ x ∈ "DIR".toList, x.toNat < 128 := all_iff_forall_prop.1 (by decide +kernel)
        exact absurd (small c capital) large
      | some x =>
        rw [shifted, getD_some] at capital
        obtain ⟨r, member, from_, to_, rfl⟩ := toNat_of_shifted shifted
        have some_ : ∀ x ∈ "DIR".toList, x ≠ ofNat 0 ∧ 0 < x.toNat :=
          all_iff_forall_prop.1 (by decide +kernel)
        have value := ofNat_eq rfl (some_ _ capital).1
        have positive := (some_ _ capital).2
        obtain rfl := runs r member _ (mem_map_of_mem capital) (by omega) (by omega)
        have own : c.toNat = 305 := Nat.le_antisymm to_ from_
        rw [← ofNat_toNat c, own]
        decide

/-- The word for a directory in capitals comes from small and capital letters, and from a dotless letter. -/
theorem upper_eq_dir_iff :
    upper s = "DIR" ↔ ∃ a ∈ ['D', 'd'], ∃ b ∈ ['I', 'i', 'ı'], ∃ c ∈ ['R', 'r'], s.toList = [a, b, c] := by
  rw [← String.toList_inj, toList_upper]
  constructor
  · intro same
    have letters : ∀ c ∈ s.toList, c ∈ dirLetters := fun c member => mem_dirLetters fun x inside => by
      rw [← same]
      exact mem_flatMap.2 ⟨c, member, inside⟩
    -- Each of the letters has a single capital.
    have single : ∀ c ∈ dirLetters, upperSpelling c = [(upperSpelling c).headD ' '] :=
      all_iff_forall_prop.1 (by decide +kernel)
    have whole : s.toList.flatMap upperSpelling = s.toList.map fun c => (upperSpelling c).headD ' ' := by
      rw [← flatMap_pure_eq_map]
      exact flatMap_congr fun c member => single c (letters c member)
    rw [whole] at same
    obtain ⟨a, rest, split_, first, same⟩ := map_eq_cons_iff.1 same
    obtain ⟨b, rest, rfl, second, same⟩ := map_eq_cons_iff.1 same
    obtain ⟨c, rest, rfl, third, same⟩ := map_eq_cons_iff.1 same
    obtain rfl := map_eq_nil_iff.1 same
    have reads : ∀ c ∈ dirLetters, ((upperSpelling c).headD ' ' = 'D' → c ∈ ['D', 'd']) ∧
        ((upperSpelling c).headD ' ' = 'I' → c ∈ ['I', 'i', 'ı']) ∧
        ((upperSpelling c).headD ' ' = 'R' → c ∈ ['R', 'r']) := all_iff_forall_prop.1 (by decide +kernel)
    rw [split_] at letters ⊢
    exact ⟨a, (reads a (letters a (by simp))).1 first, b, (reads b (letters b (by simp))).2.1 second, c,
      (reads c (letters c (by simp))).2.2 third, rfl⟩
  · rintro ⟨a, first, b, second, c, third, letters⟩
    simp only [mem_cons, not_mem_nil, or_false] at first second third
    rw [letters]
    rcases first with rfl | rfl <;> rcases second with rfl | rfl | rfl <;> rcases third with rfl | rfl <;> decide +kernel

end Text

/-! ## The files in a directory -/

namespace Node

open scoped List

def file? : Node → Option File
  | .file f => some f
  | _ => none

/-- The files inside a directory, at any depth. -/
def filesInside (p : Path) (n : Node) : List (Path × File) := (n.inside p).filterMap fun e => (file? e.2).map (e.1, ·)

def totalSize (files : List (Path × File)) : Nat := (files.map fun e => e.2.content.size).sum

theorem sum_sizes (files : List (Path × File)) :
    (files.map fun e => (e.2.content.size : Int)).sum = (totalSize files : Int) := by
  induction files with
  | nil => rfl
  | cons e files ih => simp [totalSize, ih]

/-- The entries of a directory and everything inside them. -/
def belowEntries (p : Path) (es : List (String × Node)) : List (Path × Node) :=
  es.map (fun e => (p.entry e.1, e.2)) ++ insideEntries p es

theorem belowEntries_cons (p : Path) (name : String) (n : Node) (es : List (String × Node)) :
    (belowEntries p ((name, n) :: es)).Perm (belowEntries p es ++ (p.entry name, n) :: n.inside (p.entry name)) := by
  let own := es.map fun e => (p.entry e.1, e.2)
  calc (p.entry name, n) :: (own ++ (n.inside (p.entry name) ++ insideEntries p es))
    _ ~ (p.entry name, n) :: (own ++ (insideEntries p es ++ n.inside (p.entry name))) :=
        (perm_append_comm.append_left own).cons _
    _ = (p.entry name, n) :: (belowEntries p es ++ n.inside (p.entry name)) := by rw [belowEntries, append_assoc]
    _ ~ belowEntries p es ++ (p.entry name, n) :: n.inside (p.entry name) := perm_middle.symm

end Node

namespace Hierarchy

/-- Whether the type of a file reads like that of a directory. -/
def takenForDir (p : Path) : Bool := upper (typeOf p) == "DIR"

theorem typeOf_ne_empty (p : Path) : typeOf p ≠ "" := by
  unfold typeOf
  dsimp only
  split
  · decide
  · rename_i some_
    simpa using some_

end Hierarchy

namespace Insight.FileStats

open Hierarchy (takenForDir fileLeaf nodeTree entryTrees typeOf)

variable {d : Disk} {p : Path}

def sizeOf? (e : Path × Node) : Option Int :=
  (file? e.2).bind fun f => if takenForDir e.1 then none else some f.content.size

/-- The nodes found in a hierarchy have the sizes of the files that are not taken for directories, and no time that
the statistics could read. -/
structure Lists (found : List Fields) (inside : List (Path × Node)) : Prop where
  sizes : (found.map size).Perm (inside.filterMap sizeOf?)
  timeless : ∀ node ∈ found, changeTime? (modified node) = none

namespace Lists

variable {a b : List Fields} {xs ys : List (Path × Node)}

theorem append (first : Lists a xs) (second : Lists b ys) : Lists (a ++ b) (xs ++ ys) where
  sizes := by
    rw [map_append, filterMap_append]
    exact first.sizes.append second.sizes
  timeless node member := (mem_append.1 member).elim (first.timeless node) (second.timeless node)

theorem dir (lists : Lists a xs) (p : Path) (es : List (String × Node)) : Lists a ((p, .dir es) :: xs) :=
  ⟨lists.sizes, lists.timeless⟩

theorem of_perm (lists : Lists a xs) (same : ys.Perm xs) : Lists a ys :=
  ⟨lists.sizes.trans (same.filterMap sizeOf?).symm, lists.timeless⟩

end Lists

theorem nodes_fileLeaf (d : Disk) (p : Path) (f : File) :
    ∃ found, nodes (fileLeaf d p f) = .ok found ∧ Lists found [(p, .file f)] := by
  have own : nodes (fileLeaf d p f) = .ok (if takenForDir p then [] else [[
      ("name", .text p.name), ("type", .text (typeOf p)), ("size", .nat f.content.size),
      ("modified", .moment f.modified), ("author", .text d.owner), ("children", .list [])]]) := by
    have type : nodeType [("name", .text p.name), ("type", .text (typeOf p)), ("size", .nat f.content.size),
        ("modified", .moment f.modified), ("author", .text d.owner), ("children", .list [])] =
        upper (typeOf p) := rfl
    have some_ : upper (typeOf p) != "" := bne_iff_ne.2 (upper_ne_empty (typeOf_ne_empty p))
    show Except.ok (ownNode _ ++ []) = _
    rw [ownNode, isFile, type, some_, takenForDir, bne]
    cases upper (typeOf p) == "DIR" <;> rfl
  refine ⟨_, own, ?_⟩
  split
  · rename_i dir
    exact ⟨by simp [sizeOf?, dir], by simp⟩
  · rename_i file
    constructor
    · simp [sizeOf?, file?, file]
      rfl
    · intro node member
      obtain rfl := mem_singleton.1 member
      rfl

theorem nodesOfItems_cons {x : Value} {xs : List Value}
    (own : ∃ found, nodes x = .ok found ∧ Lists found ((p.entry name, n) :: n.inside (p.entry name)))
    (others : ∃ found, nodesOfItems xs = .ok found ∧ Lists found (belowEntries p es)) :
    ∃ found, nodesOfItems (x :: xs) = .ok found ∧ Lists found (belowEntries p ((name, n) :: es)) := by
  obtain ⟨found, read, holds⟩ := own
  obtain ⟨later, listed, lists⟩ := others
  refine ⟨later ++ found, ?_, (lists.append holds).of_perm (belowEntries_cons p name n es)⟩
  rw [nodesOfItems, listed]
  rw [read]
  rfl

def Linkless (p : Path) (es : List (String × Node)) : Prop := ∀ e ∈ belowEntries p es, e.2.isLink = false

theorem Linkless.rest (linkless : Linkless p ((name, n) :: es)) : Linkless p es := fun e member =>
  linkless e ((belowEntries_cons p name n es).mem_iff.2 (mem_append_left _ member))

theorem Linkless.inner {inner : List (String × Node)}
    (linkless : Linkless p ((name, .dir inner) :: es)) : Linkless (p.entry name) inner := fun e member =>
  linkless e ((belowEntries_cons p name _ es).mem_iff.2 (mem_append_right _ (mem_cons_of_mem _ member)))

theorem not_linkless_link {target : String} : ¬ Linkless p ((name, .link target) :: es) := fun linkless =>
  absurd (linkless (p.entry name, .link target) (by simp [belowEntries])) (by simp [isLink])

mutual

theorem nodes_nodeTree (viaLink : Path → Node → Value) (p : Path) : (es : List (String × Node)) → Linkless p es →
    ∃ found, nodes (nodeTree d viaLink p (.dir es)) = .ok found ∧ Lists found (belowEntries p es)
  | [], _ => ⟨[], rfl, by simp [belowEntries, insideEntries], by simp⟩
  | e :: es, linkless => by
    obtain ⟨found, listed, lists⟩ := nodesOfItems_entryTrees viaLink p (e :: es) linkless
    refine ⟨found, ?_, lists⟩
    show (do return [] ++ (← nodesOfItems (entryTrees d viaLink p (e :: es)))) = _
    rw [listed]
    rfl

theorem nodesOfItems_entryTrees (viaLink : Path → Node → Value) (p : Path) :
    (es : List (String × Node)) → Linkless p es →
    ∃ found, nodesOfItems (entryTrees d viaLink p es) = .ok found ∧ Lists found (belowEntries p es)
  | [], _ => ⟨[], rfl, by simp [belowEntries, insideEntries], by simp⟩
  | (name, .dir inner) :: es, linkless =>
    nodesOfItems_cons ((nodes_nodeTree viaLink (p.entry name) inner linkless.inner).imp
      fun _ own => ⟨own.1, own.2.dir _ _⟩) (nodesOfItems_entryTrees viaLink p es linkless.rest)
  | (name, .file f) :: es, linkless =>
    nodesOfItems_cons (nodes_fileLeaf d (p.entry name) f) (nodesOfItems_entryTrees viaLink p es linkless.rest)
  | (_, .link _) :: _, linkless => absurd linkless not_linkless_link

end

theorem newest?_of_timeless {files : List Fields} (timeless : ∀ node ∈ files, changeTime? (modified node) = none) :
    newest? files = .ok none := by
  unfold newest?
  induction files with
  | nil => rfl
  | cons f fs ih =>
    rw [foldlM_cons, timeless f mem_cons_self]
    exact ih fun node member => timeless node (mem_cons_of_mem f member)

theorem ofFiles_of_lists {found : List Fields} {inside : List (Path × Node)} (lists : Lists found inside) :
    ∃ stats, ofFiles found = .ok stats ∧ stats.get? "file_count" = some (.nat (inside.filterMap sizeOf?).length) ∧
      stats.get? "total_size_bytes" = some (.int (inside.filterMap sizeOf?).sum) := by
  have number : found.length = (inside.filterMap sizeOf?).length := by
    rw [← lists.sizes.length_eq, length_map]
  have total : (found.map size).foldl (· + ·) 0 = (inside.filterMap sizeOf?).sum := by
    rw [← sum_eq_foldl, lists.sizes.sum_eq]
  rw [ofFiles, newest?_of_timeless lists.timeless, ← number, ← total]
  exact ⟨_, rfl, rfl, rfl⟩

def counted (files : List (Path × File)) : List (Path × File) := files.filter fun e => !takenForDir e.1

theorem filterMap_sizeOf? (inside : List (Path × Node)) : inside.filterMap sizeOf? =
    (counted (inside.filterMap fun e => (file? e.2).map (e.1, ·))).map fun e => (e.2.content.size : Int) := by
  rw [counted, ← filterMap_eq_filter, filterMap_filterMap, map_filterMap]
  refine filterMap_congr fun e _ => ?_
  cases file : file? e.2 with
  | none => simp [sizeOf?, file]
  | some f => cases taken : takenForDir e.1 <;> simp [sizeOf?, file, taken]

theorem length_counted_iff : (counted files).length = files.length ↔ ∀ e ∈ files, takenForDir e.1 = false := by
  simp [counted]

theorem totalSize_split (files : List (Path × File)) :
    totalSize files = totalSize (counted files) + totalSize (files.filter (takenForDir ·.1)) := by
  induction files with
  | nil => rfl
  | cons e files ih =>
    simp only [totalSize, counted] at ih ⊢
    cases taken : takenForDir e.1 <;> simp [taken] <;> omega

theorem totalSize_counted_iff : totalSize (counted files) = totalSize files ↔
      ∀ e ∈ files, takenForDir e.1 → e.2.content.size = 0 := by
  have none_ : totalSize (files.filter (takenForDir ·.1)) = 0 ↔
      ∀ e ∈ files, takenForDir e.1 → e.2.content.size = 0 := by
    rw [totalSize, List.sum_eq_zero_iff_forall_eq_nat, List.forall_mem_map]
    simp
  rw [totalSize_split files, ← none_]
  omega

/-- Of every directory without links the hierarchy is made and its statistics are taken.  They give the number and the
total size of the files that are not taken for directories.  So the number is that of all files exactly when none is
taken for a directory, and the size is that of all files exactly when those that are taken for one are empty.  These are
the files whose suffix is the word for a directory, in small letters or capitals. -/
theorem file_stats_right_iff {es : List (String × Node)} (isDir : d.node p = .ok (.dir es))
    (linkless : ∀ e ∈ (dir es).inside p, e.2.isLink = false) :
    ∃ hierarchy stats, ofDirectory d p = .ok hierarchy ∧ ofHierarchy hierarchy = .ok stats ∧
      stats.get? "file_count" = some (.nat (counted ((dir es).filesInside p)).length) ∧
      stats.get? "total_size_bytes" = some (.nat (totalSize (counted ((dir es).filesInside p)))) ∧
      (stats.get? "file_count" = some (.nat ((dir es).filesInside p).length) ↔
        ∀ e ∈ (dir es).filesInside p, takenForDir e.1 = false) ∧
      (stats.get? "total_size_bytes" = some (.nat (totalSize ((dir es).filesInside p))) ↔
        ∀ e ∈ (dir es).filesInside p, takenForDir e.1 = true → e.2.content.size = 0) ∧
      ∀ q, takenForDir q = true ↔
        ∃ a ∈ ['D', 'd'], ∃ b ∈ ['I', 'i', 'ı'], ∃ c ∈ ['R', 'r'], (typeOf q).toList = [a, b, c] := by
  have listed : ofDirectory d p =
      .ok (nodeTree d (treeThrough d linkLimit) p (.dir es)) := by
    simp only [ofDirectory, Disk.exists?, Disk.isDir?, Disk.ask, isDir, tree, treeThrough]
    rfl
  obtain ⟨found, read, lists⟩ := nodes_nodeTree (d := d) (treeThrough d linkLimit) p es linkless
  obtain ⟨stats, made, number, total⟩ := ofFiles_of_lists lists
  have number' : stats.get? "file_count" = some (.nat (counted ((dir es).filesInside p)).length) := by
    rw [number, filterMap_sizeOf?, List.length_map]
    rfl
  have total' : stats.get? "total_size_bytes" = some (.nat (totalSize (counted ((dir es).filesInside p)))) := by
    rw [total, filterMap_sizeOf?, sum_sizes]
    rfl
  refine ⟨_, stats, listed, by rw [ofHierarchy, read]; exact made, number', total', ?_, ?_, fun q => ?_⟩
  · rw [number', ← length_counted_iff, some_inj, nat, nat, int.injEq, Int.natCast_inj]
  · rw [total', ← totalSize_counted_iff, some_inj, nat, nat, int.injEq, Int.natCast_inj]
  · rw [takenForDir, beq_iff_eq, Text.upper_eq_dir_iff]

/-- A folder with a text, an inner folder, and in it a file that is taken for a directory. -/
def folderWithin : Disk :=
  ⟨.dir [("proj", .dir [
    ("a.txt", .file ⟨.text "abc", default, 0⟩),
    ("in", .dir [("b.Dir", .file ⟨.text "xy", default, 0⟩), ("c", .dir [])])])], ⟨"/", []⟩, "user", 0⟩

/-- Of two files one is counted. -/
theorem file_stats_of_folder :
    ∃ hierarchy stats, ofDirectory folderWithin ⟨"/", ["proj"]⟩ = .ok hierarchy ∧
      ofHierarchy hierarchy = .ok stats ∧ stats.get? "file_count" = some (.nat 1) ∧
      stats.get? "total_size_bytes" = some (.nat 3) ∧ takenForDir ⟨"/", ["proj", "in", "b.Dir"]⟩ = true := by
  obtain ⟨hierarchy, stats, made, read, number, total, -, -, -⟩ := file_stats_right_iff (d := folderWithin)
    (p := ⟨"/", ["proj"]⟩) rfl (by decide)
  exact ⟨hierarchy, stats, made, read, number, total, by decide +kernel⟩

def figuresOf (d : Disk) (p : Path) : Option (Value × Value) :=
  match ofDirectory d p >>= ofHierarchy with
  | .ok stats => some (stats.getOrNull "file_count", stats.getOrNull "total_size_bytes")
  | .error _ => none

/-- The statistics do not know of the file whose suffix is the word for a directory. -/
theorem file_taken_for_directory :
    figuresOf folderWithin ⟨"/", ["proj"]⟩ = some (.int 1, .int 3) ∧
    (folderWithin.root.filesInside ⟨"/", []⟩).length = 2 ∧
    totalSize (folderWithin.root.filesInside ⟨"/", []⟩) = 5 := by
  refine ⟨?_, by decide, by decide⟩
  rfl

end Insight.FileStats

end Folio

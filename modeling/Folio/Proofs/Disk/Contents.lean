/-
# Proofs.Disk.Contents -- look-ups do not read, and listings are in order

No step of the disk looks into a file.  `Disk.mapContents g` passes the content of every file through `g`, and each step
commutes with it (`resolve_mapContents`, `write_mapContents`, `makeDirs_mapContents`, `unlink_mapContents`).

A directory keeps its entries in the order of their names, and changes keep that order (`ordered_alter`).  In an ordered
tree each listed way leads to the listed node (`at?_of_mem_ways`), and no way is listed twice (`nodup_ways`).
-/
import Folio.Proofs.Disk.Lookup
import Mathlib.Data.List.Nodup
import Mathlib.Data.String.Basic

namespace Folio

open Disk File List Node Option

def File.mapContent (g : Content → Content) (f : File) : File := { f with content := g f.content }

namespace Node

variable (g : File → File)

mutual

def mapFiles : Node → Node
  | .dir es => .dir (mapFilesEntries es)
  | .file f => .file (g f)
  | .link t => .link t

def mapFilesEntries : List (String × Node) → List (String × Node)
  | [] => []
  | (name, n) :: es => (name, mapFiles n) :: mapFilesEntries es

end

@[simp] theorem mapFiles_empty : mapFiles g .empty = .empty := rfl

@[simp] theorem mapFiles_file (f : File) : mapFiles g (.file f) = .file (g f) := by
  rw [mapFiles]

@[simp] theorem mapFiles_link (t : String) : mapFiles g (.link t) = .link t := by rw [mapFiles]

@[simp] theorem mapFiles_dir (es : List (String × Node)) :
    mapFiles g (.dir es) = .dir (es.map fun e => (e.1, e.2.mapFiles g)) := by
  rw [mapFiles]
  congr 1
  induction es with
  | nil => rfl
  | cons e es ih => rw [mapFilesEntries, ih, map_cons]

theorem lookup_mapFiles (es : List (String × Node)) (x : String) :
    (es.map fun e => (e.1, e.2.mapFiles g)).lookup x = (es.lookup x).map (mapFiles g) := by
  induction es with
  | nil => rfl
  | cons e es ih =>
    obtain ⟨k, n⟩ := e
    simp only [map_cons, lookup_cons, ih]
    cases x == k <;> rfl

theorem child?_mapFiles (n : Node) (x : String) : (n.mapFiles g).child? x = (n.child? x).map (mapFiles g) := by
  cases n with
  | dir es => simpa [child?, entries] using lookup_mapFiles g es x
  | file f | link t => simp [child?, entries]

theorem at?_mapFiles (n : Node) (way : List String) : (n.mapFiles g).at? way = (n.at? way).map (mapFiles g) := by
  induction way generalizing n with
  | nil => simp
  | cons x way ih =>
    rw [at?_cons, at?_cons, child?_mapFiles]
    cases n.child? x with
    | none => rfl
    | some m => exact ih m

theorem putEntry_mapFiles (name : String) (n : Node) (es : List (String × Node)) :
    (putEntry name n es).map (fun e => (e.1, e.2.mapFiles g)) =
      putEntry name (n.mapFiles g) (es.map fun e => (e.1, e.2.mapFiles g)) := by
  induction es with
  | nil => rfl
  | cons e es ih =>
    simp only [putEntry, map_cons]
    split
    · rfl
    · split <;> simp [ih]

theorem alter_mapFiles (change change' : Option Node → Option Node)
    (agree : ∀ n, (change n).map (mapFiles g) = change' (n.map (mapFiles g))) (way : List String) (n : Option Node) :
    (alter change way n).map (mapFiles g) = alter change' way (n.map (mapFiles g)) := by
  induction way generalizing n with
  | nil => exact agree n
  | cons name rest ih =>
    match n with
    | none =>
      have below := ih none
      simp only [map_none] at below
      simp only [alter, map_none, ← below]
      cases alter change rest none <;> simp
    | some (.dir es) =>
      have below := ih (es.lookup name)
      simp only [alter, map_some, mapFiles_dir, lookup_mapFiles, ← below]
      cases alter change rest (es.lookup name) with
      | none => simp [dropEntry, List.filter_map, Function.comp_def]
      | some m => simp [putEntry_mapFiles]
    | some (.file f) | some (.link t) => simp [alter]

theorem inside_mapFiles (base : Path) (n : Node) :
    inside base (n.mapFiles g) = (inside base n).map fun e => (e.1, e.2.mapFiles g) := by
  induction n using induct generalizing base with
  | dir es ih =>
    rw [mapFiles_dir, inside, inside, insideEntries_eq, insideEntries_eq, map_append, List.map_map, List.map_map,
      flatMap_map, map_flatMap]
    congr 1
    exact flatMap_congr fun e member => ih e member _
  | file f | link t => simp [inside]

end Node

namespace Disk

variable (g : Content → Content) (d : Disk) (p : Path)

def mapContents : Disk := { d with root := d.root.mapFiles (mapContent g) }

@[simp] theorem root_mapContents : (d.mapContents g).root = d.root.mapFiles (mapContent g) := rfl

@[simp] theorem writes_mapContents : (d.mapContents g).writes = d.writes := rfl

@[simp] theorem absolute_mapContents : (d.mapContents g).absolute p = d.absolute p := rfl

/-! ## Looking up -/

theorem resolve_mapContents (root : Node) (last : Bool) (steps : Nat) (done todo : List String) :
    resolve (root.mapFiles (mapContent g)) last steps done todo = resolve root last steps done todo := by
  refine resolve_alike (fun way => ?_) last steps done todo
  rw [at?_mapFiles]
  rcases root.at? way with _ | (_ | _ | _) <;> simp [shape]

@[simp] theorem locate_mapContents : (d.mapContents g).locate p = d.locate p := by
  simp [locate, resolve_mapContents]

theorem node_mapContents : (d.mapContents g).node p = (d.node p).map (mapFiles (mapContent g)) := by
  unfold node
  rw [locate_mapContents]
  cases d.locate p with
  | error t => rfl
  | ok real =>
    simp only [Bind.bind, Except.bind, root_mapContents, at?_mapFiles]
    cases d.root.at? real <;> rfl

theorem nodeUnfollowed_mapContents :
    (d.mapContents g).nodeUnfollowed p = (d.nodeUnfollowed p).map (mapFiles (mapContent g)) := by
  unfold nodeUnfollowed
  rw [root_mapContents, absolute_mapContents, resolve_mapContents]
  cases resolve d.root false stepLimit [] (d.absolute p).parts with
  | error t => rfl
  | ok real =>
    simp only [Bind.bind, Except.bind, at?_mapFiles]
    cases d.root.at? real <;> rfl

theorem isLink_mapContents : (d.mapContents g).isLink p = d.isLink p := by
  unfold isLink
  rw [nodeUnfollowed_mapContents]
  cases d.nodeUnfollowed p with
  | error t => rfl
  | ok n => cases n <;> simp [Except.map, Node.isLink]

theorem exists?_mapContents : (d.mapContents g).exists? p = d.exists? p := by
  unfold exists? ask
  rw [node_mapContents]
  cases d.node p <;> rfl

theorem file_mapContents : (d.mapContents g).file p = (d.file p).map (mapContent g) := by
  unfold file
  rw [node_mapContents]
  cases d.node p with
  | error t => rfl
  | ok n => cases n <;> simp [Except.map]

theorem below_mapContents : (d.mapContents g).below p = d.below p := by
  unfold below
  rw [node_mapContents]
  cases d.node p with
  | error t => rfl
  | ok n => simp [Except.map, inside_mapFiles]

/-! ## Changing -/

variable (place : List String)

theorem putAt_mapContents (n : Node) :
    (d.putAt place n).mapContents g = (d.mapContents g).putAt place (n.mapFiles (mapContent g)) := by
  have altered := alter_mapFiles (mapContent g) (fun _ => some n)
    (fun _ => some (n.mapFiles (mapContent g))) (fun _ => rfl) place (some d.root)
  simp only [map_some] at altered
  simp only [putAt, mapContents, ← altered]
  cases alter (fun _ => some n) place (some d.root) <;> rfl

theorem dropAt_mapContents : (d.dropAt place).mapContents g = (d.mapContents g).dropAt place := by
  have altered := alter_mapFiles (mapContent g) (fun _ => none) (fun _ => none) (fun _ => rfl) place (some d.root)
  simp only [map_some] at altered
  simp only [dropAt, mapContents, ← altered]
  cases alter (fun _ => none) place (some d.root) <;> rfl

theorem placeFor_mapContents : (d.mapContents g).placeFor p = d.placeFor p := by
  unfold placeFor
  simp only [absolute_mapContents, locate_mapContents, nodeUnfollowed_mapContents, root_mapContents, at?_mapFiles]
  split
  · rfl
  split
  · rfl
  split
  · rfl
  · rcases d.nodeUnfollowed (d.absolute p) with t | es | f | target
    -- Where no link stands, the directory above decides.
    all_goals
      refine bind_congr fun dir => ?_
      cases d.root.at? dir with
      | none => rfl
      | some n => cases n <;> simp
  · rfl

theorem write_mapContents (c : Content) (t : Moment) :
    (d.write p c t).map (mapContents g) = (d.mapContents g).write p (g c) t := by
  unfold write
  rw [placeFor_mapContents]
  cases d.placeFor p with
  | error t => rfl
  | ok place =>
    have made := congrArg root (putAt_mapContents g d place (.file ⟨c, t, d.writes + 1⟩))
    have new : ({ d.putAt place (.file ⟨c, t, d.writes + 1⟩) with writes := d.writes + 1 } : Disk).mapContents g =
        { (d.mapContents g).putAt place (.file ⟨g c, t, d.writes + 1⟩) with writes := d.writes + 1 } := by
      simp only [mapContents] at made ⊢
      rw [made]
      rfl
    simp only [root_mapContents, at?_mapFiles, writes_mapContents, ← new]
    cases d.root.at? place with
    | none => rfl
    | some n => cases n <;> simp [Except.map]

theorem makeDirs_mapContents : (d.makeDirs p).map (mapContents g) = (d.mapContents g).makeDirs p := by
  suffices general : ∀ (parts : List String) (whole base : Path) (d : Disk),
      (makeDirs.go whole d base parts).map (mapContents g) = makeDirs.go whole (d.mapContents g) base parts from
    general _ _ _ d
  intro parts
  induction parts with
  | nil =>
    intro whole base d
    rfl
  | cons name rest ih =>
    intro whole base d
    rw [makeDirs.go, makeDirs.go]
    simp only [node_mapContents, isLink_mapContents, placeFor_mapContents, root_mapContents, at?_mapFiles, isSome_map]
    cases d.node (base.entry name) with
    | ok n =>
      cases n with
      | dir es => simpa [Except.map] using ih whole _ d
      | file f | link t => simp [Except.map]
    | error t =>
      cases t with
      | absent =>
        cases d.isLink (base.entry name) with
        | true => rfl
        | false =>
          cases d.placeFor (base.entry name) with
          | error t => rfl
          | ok place =>
            simp only [if_false]
            cases (d.root.at? place).isSome with
            | true => rfl
            | false =>
              have further := ih whole (base.entry name) (d.putAt place .empty)
              rwa [putAt_mapContents] at further
      | _ => rfl

theorem unlink_mapContents : (d.unlink p).map (mapContents g) = (d.mapContents g).unlink p := by
  unfold unlink
  rw [root_mapContents, absolute_mapContents, resolve_mapContents]
  cases resolve d.root false stepLimit [] (d.absolute p).parts with
  | error t => rfl
  | ok place =>
    simp only [at?_mapFiles, ← dropAt_mapContents]
    cases d.root.at? place with
    | none => rfl
    | some n => cases n <;> simp [Except.map]

end Disk

end Folio

namespace Folio.Node

open List

variable {es : List (String × Node)} {m n : Node} {name : String} {way : List String}

/-! ## Order -/

mutual

/-- The entries of every directory are in the order of their names. -/
def Ordered : Node → Prop
  | .dir es => es.Pairwise (fun a b => a.1 < b.1) ∧ OrderedEntries es
  | _ => True

def OrderedEntries : List (String × Node) → Prop
  | [] => True
  | (_, n) :: es => Ordered n ∧ OrderedEntries es

end

theorem orderedEntries_iff : OrderedEntries es ↔ ∀ e ∈ es, e.2.Ordered := by
  induction es with
  | nil => simp [OrderedEntries]
  | cons e es ih => simp [OrderedEntries, ih]

theorem ordered_file (f : File) : (file f).Ordered := by simp [Ordered]

theorem ordered_empty : empty.Ordered := by simp [empty, Ordered, OrderedEntries]

theorem ordered_dir : (dir es).Ordered ↔ es.Pairwise (fun a b => a.1 < b.1) ∧ ∀ e ∈ es, e.2.Ordered := by
  rw [Ordered, orderedEntries_iff]

theorem pairwise_putEntry
    (ordered : es.Pairwise fun a b => a.1 < b.1) : (putEntry name n es).Pairwise fun a b => a.1 < b.1 := by
  induction es with
  | nil => simp [putEntry]
  | cons e es ih =>
    obtain ⟨first, rest⟩ := pairwise_cons.1 ordered
    simp only [putEntry]
    split
    · exact pairwise_cons.2 ⟨first, rest⟩
    · rename_i other
      split
      · rename_i before
        refine pairwise_cons.2 ⟨fun e member => ?_, ordered⟩
        rcases mem_cons.1 member with rfl | later
        · exact before
        · exact lt_trans before (first e later)
      · rename_i notBefore
        refine pairwise_cons.2 ⟨fun e member => ?_, ih rest⟩
        rcases mem_putEntry member with rfl | old
        · exact lt_of_le_of_ne (not_lt.1 notBefore) fun same => other (beq_iff_eq.2 same)
        · exact first e old

theorem ordered_alter (change : Option Node → Option Node)
    (changed : ∀ n, (∀ m ∈ n, m.Ordered) → ∀ m ∈ change n, m.Ordered) (way : List String) (n : Option Node)
    (ordered : ∀ m ∈ n, m.Ordered) : ∀ m ∈ alter change way n, m.Ordered := by
  refine alter_keeps change changed ordered_empty ?_ ?_ ?_ way (fun _ _ => trivial) n ordered
  · exact fun es name m entries member => (ordered_dir.1 entries).2 _ member
  · intro es name m entries _ inner
    refine ordered_dir.2 ⟨pairwise_putEntry (ordered_dir.1 entries).1, fun e new => ?_⟩
    rcases mem_putEntry new with rfl | old
    · exact inner
    · exact (ordered_dir.1 entries).2 e old
  · exact fun es name entries => ordered_dir.2 ⟨(ordered_dir.1 entries).1.sublist filter_sublist,
      fun e old => (ordered_dir.1 entries).2 e (mem_filter.1 old).1⟩

variable (g : File → File)

theorem ordered_mapFiles (n : Node) : (n.mapFiles g).Ordered ↔ n.Ordered := by
  induction n using induct with
  | dir es ih =>
    rw [mapFiles_dir, ordered_dir, ordered_dir, pairwise_map, forall_mem_map]
    exact and_congr_right fun _ => forall₂_congr ih
  | file f => simp [Ordered]
  | link t => simp

theorem named_mapFiles {fit : String → Prop} (n : Node) : (n.mapFiles g).Named fit ↔ n.Named fit := by
  induction n using induct with
  | dir es ih =>
    rw [mapFiles_dir, Named, Named, namedEntries_iff, namedEntries_iff, forall_mem_map]
    exact forall₂_congr fun e member => and_congr_right fun _ => ih e member
  | file f => simp [Named]
  | link t => simp

theorem lookup_of_mem (sorted : es.Pairwise fun a b => a.1 < b.1) (member : (name, n) ∈ es) :
    es.lookup name = some n := by
  induction es with
  | nil => cases member
  | cons e es ih =>
    obtain ⟨first, rest⟩ := pairwise_cons.1 sorted
    rcases mem_cons.1 member with rfl | later
    · simp
    · have ne : name ≠ e.1 := (ne_of_lt (first _ later)).symm
      rw [lookup_cons, beq_eq_false_iff_ne.2 ne]
      exact ih rest later

/-! ## Listing -/

def ways (n : Node) : List (List String × Node) := (inside ⟨"", []⟩ n).map fun e => (e.1.parts, e.2)

theorem inside_rebase (root : String) (a b : List String) (n : Node) :
    inside ⟨root, a ++ b⟩ n = (inside ⟨"", b⟩ n).map fun e => (⟨root, a ++ e.1.parts⟩, e.2) := by
  induction n using induct generalizing b with
  | dir es ih =>
    rw [inside, inside, insideEntries_eq, insideEntries_eq, map_append, map_map, map_flatMap]
    congr 1
    · exact map_congr_left fun e _ => by simp [Path.entry]
    · exact flatMap_congr fun e member => by simpa [Path.entry] using ih e member (b ++ [e.1])
  | file f | link t => simp [inside]

theorem inside_eq_ways (base : Path) (n : Node) :
    inside base n = n.ways.map fun e => (⟨base.root, base.parts ++ e.1⟩, e.2) := by
  have all := inside_rebase base.root base.parts [] n
  rw [append_nil] at all
  rw [ways, map_map]
  exact all

theorem ways_dir (es : List (String × Node)) : (dir es).ways =
      (es.map fun e => ([e.1], e.2)) ++ es.flatMap fun e => e.2.ways.map fun i => (e.1 :: i.1, i.2) := by
  rw [ways, inside, insideEntries_eq, map_append, map_map, map_flatMap]
  congr 1
  refine flatMap_congr fun e _ => ?_
  rw [inside_eq_ways, map_map]
  rfl

theorem ways_mapFiles (n : Node) : (n.mapFiles g).ways = n.ways.map fun e => (e.1, e.2.mapFiles g) := by
  simp [ways, inside_mapFiles]

@[simp] theorem ways_file (f : File) : (file f).ways = [] := by simp [ways, inside]

@[simp] theorem ways_link (t : String) : (link t).ways = [] := by simp [ways, inside]

theorem mem_ways_dir (member : (way, m) ∈ (dir es).ways) :
    ∃ name n, (name, n) ∈ es ∧ ((way = [name] ∧ m = n) ∨ ∃ rest, way = name :: rest ∧ (rest, m) ∈ n.ways) := by
  rw [ways_dir, mem_append, mem_map, mem_flatMap] at member
  rcases member with ⟨⟨name, n⟩, there, same⟩ | ⟨⟨name, n⟩, there, deeper⟩
  · cases same
    exact ⟨_, _, there, Or.inl ⟨rfl, rfl⟩⟩
  · obtain ⟨⟨rest, m'⟩, inner, same⟩ := mem_map.1 deeper
    cases same
    exact ⟨name, n, there, Or.inr ⟨rest, rfl, inner⟩⟩

theorem ways_ne_nil (member : (way, m) ∈ n.ways) : way ≠ [] := by
  cases n with
  | dir es =>
    obtain ⟨name, -, -, ⟨rfl, -⟩ | ⟨rest, rfl, -⟩⟩ := mem_ways_dir member <;> simp
  | file f | link t => simp at member

theorem at?_of_mem_ways (ordered : n.Ordered) (member : (way, m) ∈ n.ways) : n.at? way = some m := by
  induction way generalizing n with
  | nil => exact absurd rfl (ways_ne_nil member)
  | cons x rest ih =>
    cases n with
    | dir es =>
      obtain ⟨sorted, inner⟩ := ordered_dir.1 ordered
      obtain ⟨name, k, there, here | ⟨rest', way, deeper⟩⟩ := mem_ways_dir member
      · obtain ⟨way, rfl⟩ := here
        cases way
        simp [at?_cons, child?, entries, lookup_of_mem sorted there]
      · cases way
        rw [at?_cons, child?, entries, lookup_of_mem sorted there]
        exact ih (inner _ there) deeper
    | file f | link t => simp at member

/-! ## No way twice -/

theorem nodup_ways (n : Node) (ordered : n.Ordered) : (n.ways.map (·.1)).Nodup := by
  induction n using induct with
  | dir es ih =>
    obtain ⟨sorted, inner⟩ := ordered_dir.1 ordered
    rw [ways_dir, map_append, map_map, map_flatMap]
    refine nodup_append.2 ⟨?_, nodup_flatMap.2 ⟨fun e there => ?_, sorted.imp fun {a b} before => ?_⟩, ?_⟩
    · exact pairwise_map.2 (sorted.imp fun before same => ne_of_lt before (cons.inj same).1)
    · rw [map_map]
      exact pairwise_map.2 ((pairwise_map.1 (ih e there (inner e there))).imp fun other same => other (cons.inj same).2)
    · intro way first second
      simp only [map_map, mem_map] at first second
      obtain ⟨i, -, rfl⟩ := first
      obtain ⟨j, -, same⟩ := second
      exact ne_of_lt before (cons.inj same).1.symm
    · rintro way own _ deeper rfl
      simp only [mem_flatMap, map_map, mem_map] at own deeper
      obtain ⟨e, -, rfl⟩ := own
      obtain ⟨k, -, ⟨rest, m⟩, member, same⟩ := deeper
      exact ways_ne_nil member (cons.inj same).2
  | file f | link t => simp

end Folio.Node

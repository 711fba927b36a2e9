/-
# Proofs.Document.Triage -- every document is new, known or unreadable

What is known at any time is what was known at the start and then the documents so far (`Exact.index`), and a document
is only added while its fingerprint is not known, so no two have the same.
-/
import Folio.Document.Triage
import Folio.Proofs.Value
import Mathlib.Algebra.BigOperators.Group.List.Basic
import Mathlib.Algebra.Order.Ring.Nat
import Mathlib.Data.List.Induction

namespace Folio.Document.Triage

open Fields List

variable {known : Fields} {cs : List Candidate} {t : Triage} {c : Candidate} {r : Value}

/-- What a document is known by: its fingerprint, and its path. -/
def note (r : Value) : String × Value := ((r.getOrNull "sha256").textOrEmpty, r.getOrNull "path")

def notice (path hash : String) (before : Value) : Value :=
  .object [("path", .text path), ("hash", .text hash), ("duplicate_of", before)]

def IsDocument (c : Candidate) (r : Value) : Prop :=
  ∃ hash content, c.hash = .ok hash ∧ c.content = .ok content ∧ r = record c.path hash c.suffix content

def IsDuplicate (c : Candidate) (r : Value) : Prop := ∃ hash before, c.hash = .ok hash ∧ r = notice c.path hash before

def IsError (c : Candidate) (e : String) : Prop :=
  (∃ reason, c.hash = .error reason ∧ e = "hash_failed:" ++ c.path ++ ":" ++ reason) ∨
    ∃ reason, c.content = .error reason ∧ e = "parse_failed:" ++ c.path ++ ":" ++ reason

/-- What the duplicate `u` repeats was known at the start, or is a document that came before it. -/
def Repeats (known : Fields) (cs : List Candidate) (u : Value) : Prop :=
  ∃ before c after hash of, cs = before ++ c :: after ∧ c.hash = .ok hash ∧ u = notice c.path hash of ∧
    (get? known hash = some of ∨ ∃ r ∈ (run known before).documents, note r = (hash, of))

/-- A triage that puts each candidate in one place, and knows the documents besides what was known. -/
structure Exact (known : Fields) (cs : List Candidate) (t : Triage) : Prop where
  placed : ∃ ds us es, (ds ++ us ++ es).Perm cs ∧ Forall₂ IsDocument ds t.documents ∧
    Forall₂ IsDuplicate us t.duplicates ∧ Forall₂ IsError es t.errors
  distinct : (t.documents.map (note ·|>.1)).Nodup
  new : ∀ r ∈ t.documents, get? known (note r).1 = none
  index : t.known = known ++ t.documents.map note
  repeated : ∀ u ∈ t.duplicates, Repeats known cs u

theorem step_cases (t : Triage) (c : Candidate) : (∃ e, IsError c e ∧ t.step c = { t with errors := t.errors ++ [e] }) ∨
    (∃ hash of, c.hash = .ok hash ∧ get? t.known hash = some of ∧
      t.step c = { t with duplicates := t.duplicates ++ [notice c.path hash of] }) ∨
    ∃ hash r, IsDocument c r ∧ note r = (hash, .text c.path) ∧ get? t.known hash = none ∧
      t.step c = { t with documents := t.documents ++ [r], known := t.known ++ [note r] } := by
  cases hashed : c.hash with
  | error reason => exact .inl ⟨_, .inl ⟨reason, hashed, rfl⟩, by simp only [step, hashed]⟩
  | ok hash =>
    cases found : get? t.known hash with
    | some of => exact .inr (.inl ⟨hash, of, rfl, found, by simp only [step, hashed, found, notice]⟩)
    | none =>
      cases read : c.content with
      | error reason => exact .inl ⟨_, .inr ⟨reason, read, rfl⟩, by simp [step, hashed, found, read]⟩
      | ok content =>
        have absent : hash ∉ keys t.known := by simp [Fields.mem_keys, found]
        refine .inr (.inr ⟨hash, record c.path hash c.suffix content, ⟨hash, content, hashed, read, rfl⟩, rfl, found, ?_⟩)
        simp only [step, hashed, found, read, set_of_not_mem absent]
        rfl

theorem perm_insert {α : Type} {xs ys zs : List α} {x : α} (perm : (xs ++ ys).Perm zs) :
    (xs ++ [x] ++ ys).Perm (zs ++ [x]) := by
  refine .trans ?_ (perm.append_right [x])
  rw [append_assoc, append_assoc]
  exact perm_append_comm.append_left xs

theorem exact_run (known : Fields) (cs : List Candidate) : Exact known cs (run known cs) := by
  induction cs using reverseRecOn with
  | nil => exact ⟨⟨[], [], [], .refl _, .nil, .nil, .nil⟩, nodup_nil, nofun, (append_nil _).symm, nofun⟩
  | append_singleton cs c ih =>
    obtain ⟨⟨ds, us, es, perm, documents, duplicates, errors⟩, distinct, new, index, repeated⟩ := ih
    have earlier : ∀ u ∈ (run known cs).duplicates, Repeats known (cs ++ [c]) u := by
      intro u member
      obtain ⟨before, c', after, hash, of, rfl, rest⟩ := repeated u member
      exact ⟨before, c', after ++ [c], hash, of, by simp, rest⟩
    rw [run, foldl_append]
    change Exact known (cs ++ [c]) ((run known cs).step c)
    rcases step_cases (run known cs) c with ⟨e, is, same⟩ | ⟨hash, of, hashed, found, same⟩ |
      ⟨hash, r, is, noted, absent, same⟩ <;> rw [same]
    · refine ⟨⟨ds, us, es ++ [c], ?_, documents, duplicates, rel_append errors (.cons is .nil)⟩, distinct, new, index, earlier⟩
      simpa using perm.append_right [c]
    · refine ⟨⟨ds, us ++ [c], es, ?_, documents, rel_append duplicates (.cons ⟨hash, of, hashed, rfl⟩ .nil), errors⟩,
        distinct, new, index, forall_mem_append.2 ⟨earlier, forall_mem_singleton.2 ?_⟩⟩
      · simpa using perm_insert (x := c) perm
      · refine ⟨cs, c, [], hash, of, rfl, hashed, rfl, ?_⟩
        rw [index, get?, lookup_append] at found
        rcases Option.or_eq_some_iff.1 found with old | ⟨-, new⟩
        · exact .inl old
        · obtain ⟨r, member, same⟩ := mem_map.1 (mem_of_get? new)
          exact .inr ⟨r, member, same⟩
    · have unseen : get? known hash = none ∧ hash ∉ keys ((run known cs).documents.map note) := by
        rw [index, get?, lookup_append, Option.or_eq_none_iff] at absent
        exact ⟨absent.1, by rw [Fields.mem_keys]; simp [get?, absent.2]⟩
      refine ⟨⟨ds ++ [c], us, es, ?_, rel_append documents (.cons is .nil), duplicates, errors⟩, ?_, ?_, ?_, earlier⟩
      · simpa using perm_insert (x := c) (append_assoc ds us es ▸ perm)
      · rw [map_append]
        refine nodup_append.2 ⟨distinct, by simp, ?_⟩
        simp only [map_cons, map_nil, noted, mem_singleton]
        rintro hash' member _ rfl rfl
        exact unseen.2 (by simpa [Fields.keys] using member)
      · exact forall_mem_append.2 ⟨new, forall_mem_singleton.2 (noted ▸ unseen.1)⟩
      · simp [index]

theorem get?_tally (labels : List String) (label : String) :
    get? (tally labels) label = if labels.count label = 0 then none else some (.nat (labels.count label)) := by
  have written : tally labels = setAll [] (labels.map fun l => (l, .nat (labels.count l))) := by
    rw [tally, setAll, foldl_map]
  rw [written, get?_setAll, ← map_reverse, get?_map fun l => .nat (labels.count l)]
  simp only [mem_reverse, count_eq_zero]
  split <;> rfl

theorem sum_nat (ns : List Nat) : Number.sum (ns.map fun n : Nat => .int n) = .int ns.sum := by
  suffices run : ∀ k : Nat, (ns.map fun n : Nat => Number.int n).foldl Number.add (.int k) = .int (k + ns.sum : Nat) by
    simpa [Number.sum] using run 0
  induction ns with
  | nil => simp
  | cons n ns ih =>
    intro k
    rw [sum_cons, ← Nat.add_assoc]
    exact ih (k + n)

theorem exists_words {ds : List Candidate} {rs : List Value} (documents : Forall₂ IsDocument ds rs) :
    ∃ ns : List Nat, Forall₂ (fun r n => r.get? "word_count" = some (.nat n)) rs ns ∧
      rs.map (fun r => ((r.getOrNull "word_count").number?.getD 0)) = ns.map fun n : Nat => .int n := by
  induction documents with
  | nil => exact ⟨[], .nil, rfl⟩
  | cons is _ ih =>
    obtain ⟨ns, each, all⟩ := ih
    obtain ⟨hash, content, -, -, rfl⟩ := is
    refine ⟨wordCount (Text.trim content.text) :: ns, .cons rfl each, ?_⟩
    rw [map_cons, all]
    rfl

/-- Every candidate is put in one place, and the summary counts what is there. -/
theorem triage_exact (known : Fields) (cs : List Candidate) :
    let t := run known cs
    Exact known cs t ∧
    t.summary.get? "unique_documents" = some (.nat t.documents.length) ∧
    t.summary.get? "duplicate_documents" = some (.nat t.duplicates.length) ∧
    (∃ ns, Forall₂ (fun r n => r.get? "word_count" = some (.nat n)) t.documents ns ∧
      t.summary.get? "total_words" = some (.nat ns.sum)) ∧
    (∀ format, t.summary.at? ["by_format", format] =
      let count := t.documents.countP fun r => (r.getOrNull "format").textOrEmpty == format
      if format = "" ∨ count = 0 then none else some (.nat count)) ∧
    ∀ d paged root paths, analyze d paged root (some paths) known = .ok
      (run known ((paths.filter fun p => d.isFile p && isDocument p).map (candidate d paged root))).toValue := by
  intro t
  have triaged := exact_run known cs
  refine ⟨triaged, rfl, rfl, ?_, fun format => ?_, fun d paged root paths => rfl⟩
  · obtain ⟨_, _, _, -, documents, -⟩ := triaged.placed
    obtain ⟨ns, each, all⟩ := exists_words documents
    refine ⟨ns, each, ?_⟩
    change some (Value.ofNumber (.sum _)) = _
    rw [all, sum_nat]
    rfl
  · rw [Value.at?_pair]
    change get? (tally ((t.documents.map fun r => (r.getOrNull "format").textOrEmpty).filter (· != ""))) format = _
    rw [get?_tally]
    by_cases empty : format = ""
    · simp [empty, count_eq_zero]
    · rw [count_filter (by simp [empty]), count, countP_map]
      simp only [empty, false_or]
      rfl

end Folio.Document.Triage

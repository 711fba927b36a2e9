/-
# Proofs.Resume -- what a brief quotes

The blocks of a brief are taken from the front for as long as the budget lasts, so they are the longest beginning that
fits into it, and the brief says whether one was left out (`within_spec`).
-/
import Folio.Resume.Brief
import Mathlib

namespace Folio

open List Text

namespace Path

theorem le_iff (p q : Path) : le p q ↔ p.allParts ≤ q.allParts := by
  rw [le, ← not_lt]
  generalize p.allParts = as, q.allParts = bs
  induction as generalizing bs with
  | nil => simp [le.go]
  | cons a as ih =>
    cases bs with
    | nil => simp [le.go]
    | cons b bs =>
      rw [le.go, cons_lt_cons_iff]
      by_cases same : a = b
      · simp [same, ih]
      · simp [same, Ne.symm same, lt_iff_le_and_ne]

theorem sorted_mergeSort (ps : List Path) : (ps.mergeSort le).Pairwise fun p q => p.allParts ≤ q.allParts := by
  refine (pairwise_mergeSort (fun p q r first second => ?_) (fun p q => ?_) ps).imp fun {p q} => (le_iff p q).1
  · rw [le_iff] at *
    exact first.trans second
  · simpa [le_iff] using le_total p.allParts q.allParts

end Path

namespace Resume

def total (bs : List String) : Nat := (bs.map (·.length)).sum

theorem within_spec (budget : Int) (bs : List String) :
    (within budget bs).1 <+: bs ∧ (0 ≤ budget → total (within budget bs).1 ≤ budget) ∧
      (∀ more, more <+: bs → total more ≤ budget → more <+: (within budget bs).1) ∧
      ((within budget bs).2 ↔ (within budget bs).1 ≠ bs) := by
  induction bs generalizing budget with
  | nil => simp [within, total]
  | cons b bs ih =>
    obtain ⟨front, fits, longest, cut⟩ := ih (budget - b.length)
    rw [within]
    split
    · refine ⟨by simpa using front, fun _ => ?_, fun more begins short => ?_, by simpa using cut⟩
      · have := fits (by omega)
        simp only [total, map_cons, sum_cons] at this ⊢
        omega
      · cases more with
        | nil => exact nil_prefix
        | cons c more =>
          obtain ⟨rfl, later⟩ := cons_prefix_cons.1 begins
          refine cons_prefix_cons.2 ⟨rfl, longest more later ?_⟩
          simp only [total, map_cons, sum_cons] at short ⊢
          omega
    · refine ⟨ nil_prefix, by simp [total], fun more begins short => ?_, by simp⟩
      cases more with
      | nil => exact nil_prefix
      | cons c more =>
        obtain ⟨rfl, -⟩ := cons_prefix_cons.1 begins
        simp only [total, map_cons, sum_cons] at short
        omega

def excerpt (s : Source) : String := takeChars 1200 (trim s.text)

def quoted (s : Source) : String := "\n=== " ++ s.title ++ " ===\n" ++ excerpt s ++ "\n"

theorem filterMap_block? (files : List Source) :
    files.filterMap Source.block? = (files.filter fun s => trim s.text != "").map quoted := by
  induction files with
  | nil => rfl
  | cons s files ih =>
    by_cases blank : trim s.text = "" <;>
      simp [Source.block?, blank, ih, quoted, excerpt, Source.quoteLimit]

/-- The blocks of a brief are the longest beginning that fits into the budget of what the files of the directory that
are not ignored and not blank would give, in the order of their paths; a mark stands at the end if it is not all. -/
theorem brief_fits (d : Disk) (root : Path) (name : String) (budget : Int) :
    (∃ files : List Path, files.Perm (d.filesBelow root) ∧ (files.Pairwise fun p q => p.allParts ≤ q.allParts) ∧
      (sources d root).map (·.path) = files.map fun p => ((p.relativeTo? root).getD p).text) ∧
    let shown := (sources d root).filter (·.kind != .ignored)
    let all := (shown.filter fun s => trim s.text != "").map quoted
    (∀ s ∈ shown, (excerpt s).toList <+: (trim s.text).toList ∧ (excerpt s).length ≤ 1200) ∧
    ∃ blocks, blocks <+: all ∧ (0 ≤ budget → total blocks ≤ budget) ∧
      (∀ more, more <+: all → total more ≤ budget → more <+: blocks) ∧
      brief name budget (sources d root) =
        "ROOT: " ++ name ++ "\nFILES:\n" ++ String.join (shown.map fun s => "- " ++ s.title ++ "\n") ++ "\nSNIPPETS:\n" ++
          String.join blocks ++ if blocks = all then "" else "\n[TRUNCATED]\n" := by
  refine ⟨⟨_, mergeSort_perm _ _, Path.sorted_mergeSort _, by simp [sources]⟩, fun s _ => ⟨?_, ?_⟩, ?_⟩
  · simpa [excerpt, takeChars] using take_prefix _ _
  · simp [excerpt, takeChars, ← String.length_toList]
  · rw [← filterMap_block?]
    obtain ⟨front, fits, longest, cut⟩ := within_spec budget (filterMap Source.block? _)
    refine ⟨_, front, fits, longest, ?_⟩
    rw [brief, ← ite_not]
    simp only [← cut]

end Resume

end Folio

/-
# Proofs.People -- comparing names

Whether two names are taken for one person does not depend on which of them comes first: each of the rules asks the
same of both, and at most one of the names can be a single word of the other (`sameName_comm`).
-/
import Folio.People.Names
import Folio.Proofs.Text.Words
import Mathlib.Data.List.TakeWhile

namespace Folio.Text

open List

theorem trimWhile_eq_nil_iff {p : Char → Bool} {cs : List Char} : trimWhile p cs = [] ↔ ∀ c ∈ cs, p c := by
  simp only [trimWhile, dropEndWhile, reverse_eq_nil_iff, dropWhile_eq_nil_iff, mem_reverse]
  refine ⟨fun rest c member => ?_, fun all c member => all c ((dropWhile_suffix p).subset member)⟩
  rw [← takeWhile_append_dropWhile (p := p) (l := cs), mem_append] at member
  exact member.elim mem_takeWhile_imp (rest c)

theorem lower_eq_empty_iff {s : String} : lower s = "" ↔ s = "" := by
  have spelled (c : Char) : lowerSpelling c ≠ [] := by
    unfold lowerSpelling
    split <;> simp
  rw [← String.toList_eq_nil_iff, ← String.toList_eq_nil_iff, toList_lower]
  cases s.toList with
  | nil => simp [lowerCharsFrom]
  | cons c cs =>
    unfold lowerCharsFrom
    split <;> simp [spelled]

end Folio.Text

namespace Folio.People

open List Text

theorem sharesEnds_comm (ta tb : List String) : sharesEnds ta tb = sharesEnds tb ta := by
  rw [Bool.eq_iff_iff]
  simp only [sharesEnds, Bool.and_eq_true, beq_iff_eq]
  tauto

theorem sharedLong_comm (ta tb : List String) : (sharedLong ta tb).Perm (sharedLong tb ta) := by
  have nodup (xs : List String) : (unique xs).Nodup := (unique_perm_dedup xs).nodup_iff.2 xs.nodup_dedup
  have members (xs : List String) (t : String) : t ∈ unique xs ↔ t ∈ xs :=
    (unique_perm_dedup xs).mem_iff.trans mem_dedup
  refine (perm_ext_iff_of_nodup ((nodup _).filter _) ((nodup _).filter _)).2 fun t => ?_
  simp only [mem_filter, members, contains_iff_mem]
  tauto

theorem sameName_comm (a b : String) : sameName a b = sameName b a := by
  unfold sameName
  generalize normalize a = na
  generalize normalize b = nb
  dsimp only
  generalize tokens na = ta
  generalize tokens nb = tb
  rw [sharesEnds_comm tb, (sharedLong_comm tb ta).length_eq, Bool.or_comm (nb == ""), BEq.comm (a := nb) (b := na),
    Bool.or_comm tb.isEmpty]
  congr 5
  -- Only the last rule asks something else of the first name than of the second.
  grind

theorem normalize_eq_empty_iff (a : String) : normalize a = "" ↔ isBlankText a := by
  rw [normalize, lower_eq_empty_iff, trim, ← String.toList_eq_nil_iff, String.toList_ofList, trimWhile_eq_nil_iff]
  simp [isBlankText]

/-- The order of two names does not matter, a name that is not blank is the same as itself, and only the small letters
of the names between their blanks count. -/
theorem sameName_symmetric (a b : String) :
    sameName a b = sameName b a ∧ (sameName a a ↔ ¬ isBlankText a) ∧
      ∀ a' b', normalize a' = normalize a → normalize b' = normalize b → sameName a' b' = sameName a b := by
  refine ⟨sameName_comm a b, ?_, fun a' b' same same' => by simp only [sameName, same, same']⟩
  rw [← normalize_eq_empty_iff]
  simp [sameName]

end Folio.People

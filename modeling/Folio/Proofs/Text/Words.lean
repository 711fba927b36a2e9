/-
# Proofs.Text.Words -- words in a text, whatever the case of its letters

A text is searched for words after its letters were made small.  Small letters are spelled character by character, but
for the capital sigma, whose small form depends on what stands around it.  Words of the basic alphabet have no sigma, so
for them the two small sigmas are as good as one (`evened`), and the small form of a text is put together from those of
its pieces (`small_append`).

What is sought in a text of several pieces is in one of them, or it lies across a seam: not across a mark that the words
do not have (`has_append_mark`), nor across the end of a text that they do not begin with (`has_append_apart`).
-/
import Folio.Text.Case
import Folio.Text.Pieces
import Mathlib.Data.List.Dedup
import Mathlib.Data.List.Infix

namespace Folio.Text

open String List Or

variable {c : Char} {needle : List Char} {text : String}

/-! ## Searching -/

theorem startsWithChars_iff {text : List Char} : startsWithChars needle text ↔ needle <+: text := by
  unfold startsWithChars
  fun_induction dropHead? needle text with
  | case1 | case2 => simp
  | case3 a as b bs same ih =>
    obtain rfl : a = b := by simpa using same
    simpa using ih
  | case4 a as b bs differ =>
    have ne : a ≠ b := by simpa using differ
    simp [ne]

theorem endsWith_iff {s tail : String} : endsWith s tail ↔ tail.toList <:+ s.toList := by
  rw [endsWith, startsWithChars_iff, reverse_prefix]

theorem containsChars_iff {text : List Char} : containsChars needle text ↔ needle <:+: text := by
  induction text with
  | nil => simp [containsChars]
  | cons c cs ih => rw [containsChars, Bool.or_eq_true, startsWithChars_iff, ih, infix_cons_iff]

theorem eq_nil_of_prefix_mark {after : List Char} (mark : c ∉ needle) (begins : needle <+: c :: after) : needle = [] := by
  rcases prefix_cons_iff.1 begins with none_ | ⟨rest, rfl, -⟩
  · exact none_
  · simp at mark

theorem infix_append_mark {before after : List Char} (mark : c ∉ needle) :
    needle <:+: before ++ c :: after ↔ needle <:+: before ∨ needle <:+: after := by
  rw [infix_append_iff, infix_cons_iff]
  constructor
  · rintro (left | (begins | right) | ⟨front, back, rfl, ends, begins⟩)
    · exact inl left
    · rw [eq_nil_of_prefix_mark mark begins]
      exact inl nil_infix
    · exact inr right
    · obtain rfl := eq_nil_of_prefix_mark (fun member => mark (mem_append_right _ member)) begins
      rw [append_nil]
      exact inl ends.isInfix
  · rintro (left | right)
    · exact inl left
    · exact inr (inl (inr right))

/-! ## Small letters -/

/-- A character of the basic alphabet. -/
def IsBasic (c : Char) : Prop := c.toNat < 128

instance (c : Char) : Decidable (IsBasic c) := inferInstanceAs (Decidable (c.toNat < 128))

/-- One small sigma for both. -/
def evened (c : Char) : Char := if c = Char.ofNat 962 then Char.ofNat 963 else c

/-- A text in small letters, with one small sigma. -/
def small (cs : List Char) : List Char :=
  cs.flatMap fun c => (if c.toNat == 931 then [Char.ofNat 963] else lowerSpelling c).map evened

@[simp] theorem small_append (as bs : List Char) : small (as ++ bs) = small as ++ small bs :=
  flatMap_append

theorem evened_lowerCharsFrom (before cs : List Char) : (lowerCharsFrom before cs).map evened = small cs := by
  induction cs generalizing before with
  | nil => rfl
  | cons c cs ih =>
    rw [lowerCharsFrom, map_append, ih, show small (c :: cs) = _ from small_append [c] cs]
    by_cases sigma : c.toNat == 931
    · simp only [if_pos sigma, small, flatMap_singleton]
      split <;> rfl
    · simp only [if_neg sigma, small, flatMap_singleton]

theorem lowerCharsFrom_basic {cs : List Char} (basic : ∀ c ∈ cs, IsBasic c) (before : List Char) :
    lowerCharsFrom before cs = cs.map Char.toLower := by
  induction cs generalizing before with
  | nil => rfl
  | cons c cs ih =>
    have own : c.toNat < 128 := basic c mem_cons_self
    have sigma : (c.toNat == 931) = false := by simp; omega
    have dotted : (c.toNat == 304) = false := by simp; omega
    simp [lowerCharsFrom, sigma, lowerSpelling, dotted, lowerChar, own,
      ih (fun c member => basic c (mem_cons_of_mem _ member))]

theorem toList_lower (s : String) : (lower s).toList = lowerCharsFrom [] s.toList := by
  unfold lower
  split
  · rename_i basic
    rw [lowerCharsFrom_basic (by simpa [IsBasic] using basic), toList_ofList]
  · rw [toList_ofList]

theorem evened_eq_iff (basic : IsBasic c) (x : Char) : evened x = c ↔ x = c := by
  unfold evened
  split
  · rename_i sigma
    subst sigma
    have left : Char.ofNat 963 ≠ c := by
      rintro rfl
      revert basic
      decide
    have right : Char.ofNat 962 ≠ c := by
      rintro rfl
      revert basic
      decide
    exact iff_of_false left right
  · exact Iff.rfl

theorem prefix_evened (basic : ∀ c ∈ needle, IsBasic c) (text : List Char) :
    needle <+: text.map evened ↔ needle <+: text := by
  induction needle generalizing text with
  | nil => simp
  | cons c needle ih =>
    cases text with
    | nil => simp
    | cons x text =>
      have same := evened_eq_iff (basic c mem_cons_self) x
      rw [map_cons, cons_prefix_cons, cons_prefix_cons,
        ih fun c member => basic c (mem_cons_of_mem _ member), eq_comm, same, eq_comm]

theorem infix_evened (basic : ∀ c ∈ needle, IsBasic c) (text : List Char) :
    needle <:+: text.map evened ↔ needle <:+: text := by
  induction text with
  | nil => simp
  | cons x text ih =>
    rw [map_cons, infix_cons_iff, ih, infix_cons_iff, ← map_cons, prefix_evened basic]

/-! ## Words -/

def Basic (words : String) : Prop := ∀ c ∈ words.toList, IsBasic c

-- Not by going through all characters.
instance (words : String) : Decidable (Basic words) := decidableBAll IsBasic words.toList

/-- Whether a text has some words, in letters of any case. -/
def Has (text words : String) : Prop := words.toList <:+: small text.toList

instance (text words : String) : Decidable (Has text words) :=
  inferInstanceAs (Decidable (words.toList <:+: small text.toList))

theorem contains_lower {words : String} (basic : Basic words) (text : String) :
    contains (lower text) words ↔ Has text words := by
  rw [contains, containsChars_iff, toList_lower, Has, ← evened_lowerCharsFrom [], infix_evened basic]

variable {a b words : String}

theorem Has.append_left (has : Has a words) (b : String) : Has (a ++ b) words := by
  rw [Has, toList_append, small_append]
  exact has.trans (prefix_append _ _).isInfix

theorem Has.append_right (has : Has b words) (a : String) : Has (a ++ b) words := by
  rw [Has, toList_append, small_append]
  exact has.trans (suffix_append _ _).isInfix

theorem has_append_mark {mark : String} (own : small mark.toList = [c]) (foreign : c ∉ words.toList) :
    Has (a ++ mark ++ b) words ↔ Has a words ∨ Has b words := by
  rw [Has, toList_append, toList_append, small_append, small_append, own, List.append_assoc,
    singleton_append, infix_append_mark foreign, Has, Has]

theorem has_append_apart (apart : ∀ t ∈ (small a.toList).tails, t ≠ [] → ¬ t <+: words.toList) :
    Has (a ++ b) words ↔ Has a words ∨ Has b words := by
  rw [Has, toList_append, small_append, infix_append_iff, Has, Has]
  constructor
  · rintro (left | right | ⟨front, back, whole, ends, begins⟩)
    · exact inl left
    · exact inr right
    · rcases eq_or_ne front [] with rfl | some_
      · rw [whole]
        exact inr begins.isInfix
      · refine absurd ?_ (apart front ((mem_tails _ _).2 ends) some_)
        rw [whole]
        exact prefix_append front back
  · rintro (left | right)
    · exact inl left
    · exact inr (inl right)

/-- What words without quotes find around a quotation. -/
theorem has_quoted (plain : '\'' ∉ words.toList) :
    Has (a ++ ("'" ++ text ++ "'") ++ b) words ↔ Has a words ∨ Has text words ∨ Has b words := by
  have seams : a ++ ("'" ++ text ++ "'") ++ b = (a ++ "'" ++ text) ++ "'" ++ b := by
    simp [String.append_assoc]
  have mark : small "'".toList = ['\''] := by decide
  rw [seams, has_append_mark mark plain, has_append_mark mark plain, or_assoc]

/-- A text that quotes another one has what stands nowhere else in it if the other one has it. -/
theorem has_quoting_iff {whole : String} (plain : '\'' ∉ words.toList)
    (same : whole = a ++ ("'" ++ text ++ "'") ++ b) (before : ¬ Has a words) (after : ¬ Has b words) :
    Has whole words ↔ Has text words := by
  rw [same, has_quoted plain]
  simp [before, after]

/-! ## Lists in order and without repetitions -/

theorem sorted_perm (xs : List String) : (sorted xs).Perm xs := mergeSort_perm _ _

theorem unique_perm_dedup {α : Type} [DecidableEq α] (xs : List α) : (unique xs).Perm xs.dedup := by
  suffices run : ∀ (xs seen : List α), seen.Nodup →
      (xs.foldl (fun seen x => if seen.contains x then seen else seen ++ [x]) seen).Nodup ∧
      ∀ x, x ∈ xs.foldl (fun seen x => if seen.contains x then seen else seen ++ [x]) seen ↔ x ∈ seen ∨ x ∈ xs by
    obtain ⟨once, mem⟩ := run xs [] nodup_nil
    exact (perm_ext_iff_of_nodup once xs.nodup_dedup).2 fun x => (mem x).trans (by simp)
  intro xs
  induction xs with
  | nil => exact fun seen once => ⟨once, by simp⟩
  | cons y xs ih =>
    intro seen once
    rw [foldl_cons]
    split
    · rename_i known
      obtain ⟨once', mem⟩ := ih seen once
      refine ⟨once', fun x => ?_⟩
      rw [mem, mem_cons]
      have old : x = y → x ∈ seen := fun same => same ▸ contains_iff_mem.1 known
      tauto
    · rename_i new
      obtain ⟨once', mem⟩ := ih (seen ++ [y])
        (nodup_append_comm.1 (nodup_cons.2 ⟨fun member => new (contains_iff_mem.2 member), once⟩))
      exact ⟨once', fun x => by rw [mem]; simp [or_assoc]⟩

end Folio.Text

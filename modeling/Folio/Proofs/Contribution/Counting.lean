/-
# Proofs.Contribution.Counting -- every commit counts once

Of each sha the first commit is kept (`shas_distinctCommits`), so there are as many commits as shas, and a login has as
many as it authored shas (`count_logins`), in whatever order branches and their commits are listed.
-/
import Folio.Contribution.Shares
import Folio.Proofs.Text.Words
import Mathlib.Algebra.BigOperators.Group.List.Lemmas
import Mathlib.Algebra.Order.Ring.Nat
import Mathlib.Data.Finset.Card

namespace Folio.Contribution

open List

variable {h h' : Git.Hosted}

def listed (h : Git.Hosted) : List Git.HostedCommit := h.branches.flatMap (·.2)

def shas (h : Git.Hosted) : Finset String := ((listed h).map (·.sha)).toFinset

def shasBy (h : Git.Hosted) (login : String) : Finset String :=
  (((listed h).filter (loginOf · == login)).map (·.sha)).toFinset

/-- A sha always has the same author. -/
def OneAuthor (h : Git.Hosted) : Prop := ∀ a ∈ listed h, ∀ b ∈ listed h, a.sha = b.sha → a.author = b.author

/-- The same branches in another order, each with its commits in another order. -/
def Reordered (h h' : Git.Hosted) : Prop :=
  ∃ bs, bs.Perm h.branches ∧ Forall₂ (fun b b' => b'.2.Perm b.2) bs h'.branches

theorem Reordered.listed_perm (reordered : Reordered h h') : (listed h').Perm (listed h) := by
  obtain ⟨bs, moved, inside⟩ := reordered
  refine Perm.trans ?_ (moved.flatMap_right _)
  unfold listed
  clear moved
  generalize h'.branches = bs' at inside ⊢
  induction inside with
  | nil => exact .refl _
  | cons first _ ih => exact first.append ih

/-! ## The commits that count -/

theorem shas_distinctCommits (h : Git.Hosted) :
    (distinctCommits h).map (·.sha) = Text.unique ((listed h).map (·.sha)) := by
  rw [Text.unique, foldl_map]
  refine (foldl_hom (map Git.HostedCommit.sha) fun kept c => ?_).symm
  have known : (kept.map (·.sha)).contains c.sha = kept.any (·.sha == c.sha) := by
    rw [contains_eq_any_beq, any_map]
    exact congrArg kept.any (funext fun k => BEq.comm)
  rw [known]
  split <;> simp

theorem distinctCommits_subset (h : Git.Hosted) : distinctCommits h ⊆ listed h := by
  refine foldlRecOn (motive := (· ⊆ listed h)) _ _ (nil_subset _) fun kept held c member => ?_
  split
  · exact held
  · exact append_subset.2 ⟨held, cons_subset.2 ⟨member, nil_subset _⟩⟩

theorem shas_perm (h : Git.Hosted) : ((distinctCommits h).map (·.sha)).Perm ((listed h).map (·.sha)).dedup := by
  rw [shas_distinctCommits]
  exact Text.unique_perm_dedup _

theorem length_distinctCommits (h : Git.Hosted) : (distinctCommits h).length = (shas h).card := by
  rw [shas, card_toFinset, ← (shas_perm h).length_eq, length_map]

theorem count_logins (one : OneAuthor h) (login : String) :
    ((distinctCommits h).map loginOf).count login = (shasBy h login).card := by
  have once : (((distinctCommits h).filter (loginOf · == login)).map (·.sha)).Nodup :=
    ((shas_perm h).nodup_iff.2 (nodup_dedup _)).sublist (filter_sublist.map _)
  have same : (((distinctCommits h).filter (loginOf · == login)).map (·.sha)).toFinset = shasBy h login := by
    ext sha
    simp only [shasBy, mem_toFinset, mem_map, mem_filter]
    constructor
    · rintro ⟨c, ⟨kept, own⟩, rfl⟩
      exact ⟨c, ⟨distinctCommits_subset h kept, own⟩, rfl⟩
    · rintro ⟨c, ⟨there, own⟩, rfl⟩
      -- The commit that is kept for the sha has the same author.
      obtain ⟨k, kept, sha⟩ := mem_map.1 ((shas_perm h).mem_iff.2 (mem_dedup.2 (mem_map_of_mem there)))
      refine ⟨k, ⟨kept, ?_⟩, sha⟩
      rwa [loginOf, one k (distinctCommits_subset h kept) c there sha]
  rw [← same, toFinset_card_of_nodup once, length_map, ← countP_eq_length_filter, count, countP_map]
  rfl

/-! ## The counts -/

theorem nodup_logins (h : Git.Hosted) : ((commitCounts h).map (·.1)).Nodup := by
  rw [commitCounts, map_map]
  exact (((Text.unique_perm_dedup _).nodup_iff.2 (nodup_dedup _)).map fun _ _ => id)

theorem mem_commitCounts (one : OneAuthor h) {login : String} {n : Nat} :
    (login, n) ∈ commitCounts h ↔ n = (shasBy h login).card ∧ n ≠ 0 := by
  have known : login ∈ (distinctCommits h).map loginOf ↔ (shasBy h login).card ≠ 0 := by
    rw [← count_logins one, ← Nat.pos_iff_ne_zero, count_pos_iff]
  simp only [commitCounts, mem_map, (Text.unique_perm_dedup _).mem_iff, mem_dedup, Prod.mk.injEq]
  constructor
  · rintro ⟨_, there, rfl, rfl⟩
    rw [count_logins one]
    exact ⟨rfl, known.1 (mem_map.2 there)⟩
  · rintro ⟨rfl, some_⟩
    exact ⟨login, mem_map.1 (known.2 some_), rfl, count_logins one login⟩

theorem sum_commitCounts (h : Git.Hosted) : ((commitCounts h).map (·.2)).sum = (shas h).card := by
  rw [← length_distinctCommits, ← length_map loginOf, ← sum_map_count_dedup_eq_length, commitCounts, map_map]
  exact ((Text.unique_perm_dedup _).map _).sum_eq

theorem Reordered.commitCounts_perm (reordered : Reordered h h') (one : OneAuthor h) :
    (commitCounts h').Perm (commitCounts h) := by
  have listed := reordered.listed_perm
  have one' : OneAuthor h' := fun a here b there => one a (listed.mem_iff.1 here) b (listed.mem_iff.1 there)
  have same (login : String) : shasBy h' login = shasBy h login :=
    toFinset_eq_of_perm _ _ ((listed.filter _).map _)
  refine (perm_ext_iff_of_nodup (nodup_logins h').of_map (nodup_logins h).of_map).2 fun (login, n) => ?_
  rw [mem_commitCounts one', mem_commitCounts one, same]

theorem busiest_perm (counts : List (String × Nat)) : (busiest counts).Perm counts := mergeSort_perm _ _

theorem sum_busiest (h : Git.Hosted) : ((busiest (commitCounts h)).map (·.2)).sum = (shas h).card := by
  rw [((busiest_perm _).map _).sum_eq, sum_commitCounts]

/-- A look-up on the hosting service reports a number of commits and the numbers of the logins. -/
def Reports (history : Option Git.History) (h : Git.Hosted) (total : Nat) (counts : List (String × Nat)) : Prop :=
  ∃ found, hosted history (some h) true = .ok found ∧ found.result.get? "total_commits" = some (.nat total) ∧
    found.result.get? "contributors" = some (.object (counts.map fun (login, n) =>
      (login, .object [("commit_count", .nat n), ("percentage", .text (percentage n total))])))

theorem reports_busiest {history : Option Git.History} {link : Link} (linked : linkOf history = .ok (some link))
    (h : Git.Hosted) : Reports history h (shas h).card (busiest (commitCounts h)) := by
  rw [Reports, hosted, linked, ← sum_busiest, sum_eq_foldl]
  exact ⟨_, rfl, rfl, rfl⟩

/-- Commits are counted once.  Where a sha always has the same author, a look-up reports as many commits as all branches
have shas, and for each login, the unknown ones together, as many as it authored shas.  The numbers add up to the
total, and they are the same for the branches and their commits in any other order. -/
theorem commits_counted_once {history : Option Git.History} {link : Link} (linked : linkOf history = .ok (some link))
    (one : OneAuthor h) : ∃ counts, Reports history h (shas h).card counts ∧ (counts.map (·.1)).Nodup ∧
      (∀ login n, (login, n) ∈ counts ↔ n = (shasBy h login).card ∧ n ≠ 0) ∧
      (counts.map (·.2)).sum = (shas h).card ∧
      ∀ h', Reordered h h' → ∃ counts', counts'.Perm counts ∧ Reports history h' (shas h).card counts' := by
  refine ⟨busiest (commitCounts h), reports_busiest linked h, ((busiest_perm _).map _).nodup_iff.2 (nodup_logins h),
    fun login n => (busiest_perm _).mem_iff.trans (mem_commitCounts one), sum_busiest h, fun h' reordered => ?_⟩
  have same : shas h' = shas h := toFinset_eq_of_perm _ _ (reordered.listed_perm.map _)
  rw [← same]
  exact ⟨_, (busiest_perm _).trans ((reordered.commitCounts_perm one).trans (busiest_perm _).symm),
    reports_busiest linked h'⟩

/-- Two branches that share a commit; one commit has no author and one an author without a login. -/
def forked : Git.Hosted :=
  { fullName := "o/r", contributors := []
    branches := [("main", [⟨"a", some "ann", []⟩, ⟨"b", none, []⟩]), ("dev", [⟨"c", some "", []⟩, ⟨"a", some "ann", []⟩])] }

theorem forked_counted_once : OneAuthor forked ∧ (shas forked).card = 3 ∧ (shasBy forked "Unknown").card = 2 ∧
      ∃ counts, Reports (some { (default : Git.History) with origin := "o/r" }) forked 3 counts ∧
        (counts.map (·.1)).Nodup ∧ ("Unknown", 2) ∈ counts ∧ (counts.map (·.2)).sum = 3 := by
  have one : OneAuthor forked := by unfold OneAuthor; decide
  have all : (shas forked).card = 3 := by decide
  have unknown : (shasBy forked "Unknown").card = 2 := by decide
  have linked : linkOf (some { (default : Git.History) with origin := "o/r" }) = .ok (some ⟨"o/r", 0⟩) := by decide
  obtain ⟨counts, reports, once, each, sum, -⟩ := commits_counted_once linked one
  rw [all] at reports sum
  exact ⟨one, all, unknown, counts, reports, once, (each _ _).2 ⟨unknown.symm, by decide⟩, sum⟩

end Folio.Contribution

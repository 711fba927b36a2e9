/-
# Proofs.Contribution.Buckets -- every file lies in one bucket

A change concerns the bucket of one person (`bucket_alter`), and what it adds there or takes away is added to or taken
from all buckets together (`owned_alter`).  So the buckets hold each file once as long as each file is put into one
bucket (`Ledger`), whichever that is.
-/
import Folio.Contribution.Attribution
import Folio.Proofs.Disk.Ready
import Folio.Proofs.Text.Words
import Mathlib.Algebra.BigOperators.Group.List.Basic
import Mathlib.Algebra.Order.Ring.Nat
import Mathlib.Data.Finset.Card
import Mathlib.Data.String.Basic

namespace Folio.Contribution

open List

theorem lookup_entry {α : Type} (k : String) (v : α) (es : List (String × α)) (q : String) :
    lookup q ((k, v) :: es) = if q = k then some v else lookup q es := by
  by_cases first : q = k
  · simp [first]
  · simp [lookup_cons, first, beq_eq_false_iff_ne.2 first]

namespace Buckets

variable {bs : Buckets} {change : Bucket → Bucket} {file p : String} {files xs ys : List String}

theorem lookup_alter (p : String) (change : Bucket → Bucket) (bs : Buckets) (q : String) :
    (alter p change bs).lookup q = if q = p then some (change (bs.bucket p)) else bs.lookup q := by
  induction bs with
  | nil => rw [alter, lookup_entry]; rfl
  | cons e bs ih =>
    obtain ⟨k, b⟩ := e
    by_cases here : k = p
    · subst here
      by_cases own : q = k <;> simp [alter, bucket, lookup_entry, own]
    · have off : p ≠ k := Ne.symm here
      by_cases first : q = k <;> simp [alter, bucket, lookup_entry, here, off, first, ih]

theorem bucket_alter (p : String) (change : Bucket → Bucket) (bs : Buckets) (q : String) :
    (alter p change bs).bucket q = if q = p then change (bs.bucket p) else bs.bucket q := by
  rw [bucket, lookup_alter]
  split <;> rfl

theorem nodup_keys_alter (distinct : (bs.map (·.1)).Nodup) (p : String) (change : Bucket → Bucket) :
    ((alter p change bs).map (·.1)).Nodup := by
  have keys : (alter p change bs).map (·.1) = if p ∈ bs.map (·.1) then bs.map (·.1) else bs.map (·.1) ++ [p] := by
    clear distinct
    induction bs with
    | nil => rfl
    | cons e bs ih =>
      by_cases here : e.1 = p
      · simp [alter, here]
      · simp only [alter, beq_eq_false_iff_ne.2 here, Bool.false_eq_true, if_false, map_cons, ih, mem_cons,
          Ne.symm here, false_or]
        split <;> rfl
  rw [keys]
  split
  · exact distinct
  · rename_i new
    exact (perm_append_singleton p _).nodup_iff.2 (nodup_cons.2 ⟨new, distinct⟩)

def owned (bs : Buckets) : List String := bs.flatMap (·.2.owned)

theorem owned_alter (changed : ((change (bs.bucket p)).owned ++ ys).Perm ((bs.bucket p).owned ++ xs)) :
    (owned (alter p change bs) ++ ys).Perm (owned bs ++ xs) := by
  induction bs with
  | nil => simpa [alter, owned, bucket, Bucket.empty] using changed
  | cons e bs ih =>
    obtain ⟨k, b⟩ := e
    by_cases here : k = p
    · subst here
      have own : ((change b).owned ++ ys).Perm (b.owned ++ xs) := by simpa [bucket] using changed
      simp only [alter, beq_self_eq_true, if_true, owned, flatMap_cons, append_assoc]
      calc (change b).owned ++ (owned bs ++ ys)
        _ ~ (change b).owned ++ (ys ++ owned bs) := perm_append_comm.append_left _
        _ ~ b.owned ++ (xs ++ owned bs) := by simpa using own.append_right (owned bs)
        _ ~ b.owned ++ (owned bs ++ xs) := perm_append_comm.append_left _
    · simp only [alter, beq_eq_false_iff_ne.2 here, Bool.false_eq_true, if_false, owned, flatMap_cons, append_assoc]
      refine (ih ?_).append_left b.owned
      simpa [bucket, lookup_cons, beq_eq_false_iff_ne.2 (Ne.symm here)] using changed

/-- Buckets of different people that hold some files, each as often as it is listed. -/
structure Ledger (bs : Buckets) (files : List String) : Prop where
  people : (bs.map (·.1)).Nodup
  files : (owned bs).Perm files

theorem Ledger.put (ledger : Ledger bs files) (p : String) (puts : ∀ b, (change b).owned = b.owned ++ [file]) :
    Ledger (alter p change bs) (files ++ [file]) where
  people := nodup_keys_alter ledger.people p change
  files := by
    have put : (owned (alter p change bs) ++ []).Perm (owned bs ++ [file]) := owned_alter (by simp [puts])
    rw [append_nil] at put
    exact put.trans (ledger.files.append_right _)

theorem ledger_ofPeople (people : List String) :
    Ledger (ofPeople people) [] ∧ ∀ p, (ofPeople people).bucket p = .empty := by
  refine foldlRecOn (motive := fun bs : Buckets => Ledger bs [] ∧ ∀ p, bs.bucket p = .empty) people _
    ⟨⟨nodup_nil, .nil⟩, fun p => rfl⟩ fun bs held p _ => ?_
  obtain ⟨ledger, empty⟩ := held
  refine ⟨⟨nodup_keys_alter ledger.people p _, ?_⟩, fun q => ?_⟩
  · have same : (owned (alter p (fun _ => .empty) bs) ++ []).Perm (owned bs ++ []) := owned_alter (by rw [empty])
    simpa using same.trans (ledger.files.append_right [])
  · rw [bucket_alter, empty]
    split <;> rfl

/-! ## What is reported -/

def filesOwned (bs : Buckets) : List String := bs.flatMap fun b => Text.sorted b.2.owned

def fileCounts (bs : Buckets) : List Nat := bs.map fun b => b.2.owned.length

theorem filesOwned_perm (bs : Buckets) : (filesOwned bs).Perm (owned bs) :=
  Perm.flatMap_left _ fun _ _ => Text.sorted_perm _

theorem sum_fileCounts (bs : Buckets) : (fileCounts bs).sum = (owned bs).length := by
  rw [owned, length_flatMap]
  rfl

theorem mem_of_bucket {x : String} (member : x ∈ (bs.bucket p).owned) : (p, bs.bucket p) ∈ bs := by
  unfold bucket at member ⊢
  cases found : bs.lookup p with
  | none => simp [found, Bucket.empty] at member
  | some b =>
    obtain ⟨before, after, rfl, -⟩ := lookup_eq_some_iff.1 found
    simp

theorem bucket_sublist (bs : Buckets) (p : String) : (bs.bucket p).owned <+ owned bs := by
  by_cases none_ : (bs.bucket p).owned = []
  · rw [none_]
    exact nil_sublist _
  · obtain ⟨x, member⟩ := exists_mem_of_ne_nil _ none_
    exact sublist_flatten_of_mem (mem_map.2 ⟨_, mem_of_bucket member, rfl⟩)

end Buckets

/-! ## Files by their owners

A file first goes to the person that its owner stands for, or to nobody; then files of nobody move to people after whom
they are named. -/

open Buckets People Path Text

variable {bs : Buckets} {contributors files owners : List String} {d : Disk} {given : List (String × Option String)}
  {o : String} {root : Path}

/-! ## The files of a project -/

theorem nodup_ownerMap {tree : Node} (there : d.node root = .ok tree) (neat : tree.Neat)
    (ownerOf : Path → String → Except Fault String) : ((ownerMap d ownerOf root).map (·.1)).Nodup := by
  have names : (ownerMap d ownerOf root).map (·.1) = (scanned d root).map (·.2) := by
    rw [ownerMap, map_map]
    refine map_congr_left fun ⟨p, rel⟩ _ => ?_
    dsimp only [Function.comp]
    split <;> rfl
  have below : d.below root = tree.ways.map fun e => ⟨root.root, root.parts ++ e.1⟩ := by
    simp only [Disk.below, there, Node.inside_eq_ways, map_map]
    rfl
  have relative (way : List String) : relativeTo? ⟨root.root, root.parts ++ way⟩ root = some ⟨"", way⟩ := by
    simp [relativeTo?, isUnder]
  have readable (e : List String × Node) (member : e ∈ tree.ways) : Readable ⟨"", e.1⟩ :=
    ⟨.inl rfl, fun x inside =>
      ((Node.named_at? neat.named (Node.at?_of_mem_ways neat.ordered member)).1 x inside).toIsName⟩
  rw [names, scanned, map_map, Disk.filesBelow, filter_filter, below, filter_map, map_map]
  refine pairwise_map.2 (((pairwise_map.1 (Node.nodup_ways tree neat.ordered)).imp_of_mem ?_).filter _)
  intro a b first second apart same
  simp only [Function.comp, relative, Option.getD_some] at same
  have back := congrArg ofString same
  rw [ofString_text (readable a first), ofString_text (readable b second)] at back
  exact apart (congrArg parts back)

/-! ## By owner -/

/-- Files lie with people for their owners or for their names. -/
structure Kept (bs : Buckets) (files : List String) : Prop extends Ledger bs files where
  parted : ∀ p ≠ nobody, (bs.bucket p).owned.Perm ((bs.bucket p).fromOwner ++ (bs.bucket p).fromName)

theorem kept_assign {canon : List (String × String)} (kept : Kept bs files) (file : String × Option String) :
    Kept (assign canon bs file) (files ++ [file.1]) := by
  obtain ⟨file, owner⟩ := file
  cases owner with
  | some owner =>
    refine ⟨kept.put _ fun _ => rfl, fun p other => ?_⟩
    rw [assign, bucket_alter]
    split
    · rename_i own
      subst own
      calc _ ~ _ := (kept.parted _ other).append_right [file]
        _ ~ _ := by simpa using (perm_append_singleton file _).append_left _
    · exact kept.parted p other
  | none =>
    refine ⟨kept.put _ fun _ => rfl, fun p other => ?_⟩
    rw [assign, bucket_alter, if_neg other]
    exact kept.parted p other

theorem kept_reassign {people : List String} {file : String} (kept : Kept bs files) (others : nobody ∉ people)
    (held : file ∈ (bs.bucket nobody).owned) : Kept (reassign people bs file) files := by
  unfold reassign
  split
  · rename_i person found
    have other : person ≠ nobody := fun same => others (same ▸ mem_of_find?_eq_some found)
    let put := bs.alter person fun b => { b with owned := b.owned ++ [file], fromName := b.fromName ++ [file] }
    have rest : put.bucket nobody = bs.bucket nobody := by rw [bucket_alter, if_neg other.symm]
    have ledger : Ledger put (files ++ [file]) := kept.put _ fun _ => rfl
    refine ⟨⟨nodup_keys_alter ledger.people _ _, ?_⟩, fun p elsewhere => ?_⟩
    · have moved : (owned (put.alter nobody fun b => { b with owned := b.owned.erase file }) ++ [file]).Perm
          (owned put ++ []) := by
        refine owned_alter ?_
        rw [rest, append_nil]
        exact (perm_append_singleton file _).trans (perm_cons_erase held).symm
      rw [append_nil] at moved
      exact (perm_append_right_iff [file]).1 (moved.trans ledger.files)
    · rw [bucket_alter, if_neg elsewhere, bucket_alter]
      split
      · rename_i own
        subst own
        calc _ ~ _ := (kept.parted _ elsewhere).append_right [file]
          _ ~ _ := by simp
      · exact kept.parted p elsewhere
  · exact kept

theorem subperm_reassign {people rest : List String} {file : String} (others : nobody ∉ people)
    (held : file :: rest <+~ (bs.bucket nobody).owned) : rest <+~ ((reassign people bs file).bucket nobody).owned := by
  unfold reassign
  split
  · rename_i person found
    have other : person ≠ nobody := fun same => others (same ▸ mem_of_find?_eq_some found)
    rw [bucket_alter, bucket_alter, if_neg other.symm]
    simpa using held.erase file
  · exact (sublist_cons_self file rest).subperm.trans held

theorem kept_handOut (contributors : List String) (given : List (String × Option String)) :
    Kept (handOut contributors given) (given.map (·.1)) := by
  unfold handOut
  extract_lets owners canon people assigned
  have first : Kept assigned (given.map (·.1)) := by
    have start : Kept (.ofPeople (people ++ [nobody])) [] := by
      obtain ⟨ledger, empty⟩ := ledger_ofPeople (people ++ [nobody])
      exact ⟨ledger, fun p _ => by rw [empty]; rfl⟩
    suffices run : ∀ done : List String, ∀ bs, Kept bs done →
        Kept (given.foldl (assign canon.owners) bs) (done ++ given.map (·.1)) from run [] _ start
    clear_value canon people
    induction given with
    | nil => simp
    | cons file given ih =>
      intro done bs kept
      simpa using ih _ _ (kept_assign kept file)
  have others : nobody ∉ people.filter (· != nobody) := by simp
  suffices run : ∀ (rest : List String) (bs : Buckets), rest <+~ (bs.bucket nobody).owned → Kept bs (given.map (·.1)) →
      Kept (rest.foldl (reassign (people.filter (· != nobody))) bs) (given.map (·.1)) from
    run _ _ (Subperm.refl _) first
  intro rest
  induction rest with
  | nil => exact fun bs _ kept => kept
  | cons file rest ih =>
    intro bs held kept
    exact ih _ (subperm_reassign others held) (kept_reassign kept others (held.subset mem_cons_self))

/-- Every file of a project lies in one bucket, the counts of the buckets add up to their number, and in the bucket of a
person a file lies either for its owner or for its name. -/
theorem each_file_in_one_bucket {tree : Node} (there : d.node root = .ok tree) (neat : tree.Neat)
    (ownerOf : Path → String → Except Fault String) (contributors : List String) :
    let files := (ownerMap d ownerOf root).map (·.1)
    let bs := handOut contributors (ownerMap d ownerOf root)
    (bs.map (·.1)).Nodup ∧ files.Nodup ∧ (filesOwned bs).Perm files ∧ (fileCounts bs).sum = files.length ∧
      ∀ p ≠ nobody, (sorted (bs.bucket p).owned).Perm
          (sorted (bs.bucket p).fromOwner ++ sorted (bs.bucket p).fromName) ∧
        (sorted (bs.bucket p).fromOwner).Disjoint (sorted (bs.bucket p).fromName) := by
  intro files bs
  have once : files.Nodup := nodup_ownerMap there neat ownerOf
  have kept : Kept bs files := kept_handOut contributors _
  refine ⟨kept.people, once, (filesOwned_perm bs).trans kept.files, ?_, fun p other => ?_⟩
  · rw [sum_fileCounts, kept.files.length_eq]
  · have parted := kept.parted p other
    have apart := parted.nodup_iff.1 ((bucket_sublist bs p).nodup (kept.files.nodup_iff.2 once))
    refine ⟨(sorted_perm _).trans (parted.trans ((sorted_perm _).append (sorted_perm _)).symm), ?_⟩
    exact fun x first second => disjoint_of_nodup_append apart ((sorted_perm _).mem_iff.1 first)
      ((sorted_perm _).mem_iff.1 second)

/-- A project with a list of contributors, one file of an owner and one that is named after a contributor. -/
def annsDisk : Disk :=
  { (default : Disk) with
    root := .dir [("CONTRIBUTORS", .file ⟨.text "Ann Lee", default, 1⟩), ("lee.txt", .file ⟨.text "", default, 2⟩),
      ("main.c", .file ⟨.text "", default, 3⟩)]
    current := ⟨"/", []⟩ }

theorem anns_files_in_buckets :
    let bs := handOut ["Ann Lee"] (ownerMap annsDisk (fun _ rel => .ok (if rel = "main.c" then "Bob" else "")) ⟨"/", []⟩)
    (filesOwned bs).Perm ["lee.txt", "main.c"] ∧ (fileCounts bs).sum = 2 := by
  obtain ⟨-, -, files, counts, -⟩ := each_file_in_one_bucket
    (show annsDisk.node ⟨"/", []⟩ = .ok annsDisk.root from rfl)
    ⟨⟨by decide, by simp [Node.OrderedEntries, Node.Ordered]⟩, by simp only [annsDisk, Node.Named, Node.NamedEntries]; decide⟩
    (fun _ rel => .ok (if rel = "main.c" then "Bob" else "")) ["Ann Lee"]
  have listed : (ownerMap annsDisk (fun _ rel => .ok (if rel = "main.c" then "Bob" else "")) ⟨"/", []⟩).map (·.1) =
      ["lee.txt", "main.c"] := by decide +kernel
  rw [listed] at files counts
  exact ⟨files, counts⟩

/-! ## Files by the authors of their last commits -/

open Option

variable {onDisk tracked : List String} {file p : String} {last : LastCommit}

/-! ## Each file once -/

section Putting

/- One step after another puts a file into some bucket. -/
variable {σ : Type} {view : σ → Buckets} {step : σ → String → σ}
  (puts : ∀ s file, ∃ person, view (step s file) = (view s).alter person (.own file))

include puts

theorem ledger_foldl {s : σ} {done : List String} (ledger : Ledger (view s) done) (files : List String) :
    Ledger (view (files.foldl step s)) (done ++ files) := by
  induction files generalizing s done with
  | nil => simpa using ledger
  | cons file files ih =>
    obtain ⟨person, put⟩ := puts s file
    have next : Ledger (view (step s file)) (done ++ [file]) := put ▸ ledger.put person fun _ => rfl
    simpa using ih next

theorem mem_foldl {s : σ} (held : file ∈ ((view s).bucket p).owned) (files : List String) :
    file ∈ ((view (files.foldl step s)).bucket p).owned := by
  refine foldlRecOn (motive := fun s => file ∈ ((view s).bucket p).owned) files _ held fun s held next _ => ?_
  obtain ⟨person, put⟩ := puts s next
  rw [put, bucket_alter]
  split
  · rename_i own
    exact mem_append_left _ (own ▸ held)
  · exact held

end Putting

theorem placeTracked_puts (last : LastCommit) (contributors : List String) (s : Buckets × Authors) (file : String) :
    ∃ person, (placeTracked last contributors s file).1 = s.1.alter person (.own file) := by
  unfold placeTracked
  split <;> exact ⟨_, rfl⟩

def putAll (whose : String → String) (files : List String) (bs : Buckets) : Buckets :=
  files.foldl (fun bs file => bs.alter (whose file) (.own file)) bs

theorem lookup_putAll (whose : String → String) (files : List String) (bs : Buckets) (p : String) :
    (putAll whose files bs).lookup p = if files.filter (whose · = p) = [] then bs.lookup p
      else some { bs.bucket p with owned := (bs.bucket p).owned ++ files.filter (whose · = p) } := by
  induction files generalizing bs with
  | nil => rfl
  | cons file files ih =>
    have step : putAll whose (file :: files) bs = putAll whose files (bs.alter (whose file) (.own file)) := rfl
    rw [step, ih, lookup_alter, bucket_alter]
    by_cases own : whose file = p
    · subst own
      simp only [filter_cons, decide_true, if_true, Bucket.own, reduceCtorEq, if_false, append_assoc]
      split
      · rename_i none_
        rw [none_]
      · rfl
    · simp [own, Ne.symm own]

theorem bucket_putAll (whose : String → String) (files : List String) (bs : Buckets) (p : String) :
    ((putAll whose files bs).bucket p).owned = (bs.bucket p).owned ++ files.filter (whose · = p) := by
  rw [bucket, lookup_putAll]
  split
  · rename_i none_
    rw [none_, append_nil]
    rfl
  · rfl

/-- The buckets before any file is put into them. -/
def bare (contributors : List String) : Buckets := .ofPeople (unique contributors ++ [nobody])

def untracked (tracked onDisk : List String) : List String := unique (onDisk.filter fun f => !tracked.contains f)

theorem handOutTracked_eq (last : LastCommit) (contributors tracked onDisk : List String) :
    handOutTracked last contributors tracked onDisk = putAll (fun _ => nobody) (untracked tracked onDisk)
      (tracked.foldl (placeTracked last contributors) (bare contributors, ⟨[], []⟩)).1 := rfl

theorem mem_untracked : file ∈ untracked tracked onDisk ↔ file ∈ onDisk ∧ file ∉ tracked := by
  simp [untracked, (unique_perm_dedup _).mem_iff]

theorem nodup_files (distinct : tracked.Nodup) (onDisk : List String) : (tracked ++ untracked tracked onDisk).Nodup :=
  nodup_append'.2 ⟨distinct, (unique_perm_dedup _).nodup_iff.2 (nodup_dedup _),
    fun _ first second => (mem_untracked.1 second).2 first⟩

theorem ledger_handOutTracked (last : LastCommit) (contributors tracked onDisk : List String) :
    Ledger (handOutTracked last contributors tracked onDisk) (tracked ++ untracked tracked onDisk) := by
  have placed := ledger_foldl (placeTracked_puts last contributors) (s := (bare contributors, ⟨[], []⟩))
    (ledger_ofPeople _).1 tracked
  have puts (bs : Buckets) (file : String) : ∃ person, id (bs.alter nobody (.own file)) = (id bs).alter person (.own file) :=
    ⟨nobody, rfl⟩
  exact ledger_foldl puts placed (untracked tracked onDisk)

theorem mem_handOutTracked {before after : List String}
    (placed : file ∈ ((before.foldl (placeTracked last contributors) (bare contributors, ⟨[], []⟩)).1.bucket p).owned) :
    file ∈ ((handOutTracked last contributors (before ++ after) onDisk).bucket p).owned := by
  rw [handOutTracked_eq, bucket_putAll, foldl_append]
  exact mem_append_left _ (mem_foldl (placeTracked_puts last contributors) placed after)

/-- Every tracked file and every file on disk lies in one bucket, those that are not tracked or have no last commit with
nobody, and the counts of the buckets add up to the number of all files. -/
theorem each_tracked_file_in_one_bucket (last : LastCommit) (contributors onDisk : List String) (distinct : tracked.Nodup) :
    let bs := handOutTracked last contributors tracked onDisk
    (bs.map (·.1)).Nodup ∧
    (∀ file, (filesOwned bs).count file = if file ∈ tracked ∨ file ∈ onDisk then 1 else 0) ∧
    (∀ file ∈ onDisk, file ∉ tracked → file ∈ sorted (bs.bucket nobody).owned) ∧
    (∀ file ∈ tracked, lastCommit? last file = none → file ∈ sorted (bs.bucket nobody).owned) ∧
    (fileCounts bs).sum = (tracked.toFinset ∪ onDisk.toFinset).card ∧
    ∀ (d : Disk) (h : Git.History) (root : Path), h.trackedFiles = .ok tracked → ofHistory d h root = .ok
      (handOutTracked h.lastCommit (contributorNames d root) tracked ((scanned d root).map (·.2))) := by
  have ledger := ledger_handOutTracked last contributors tracked onDisk
  have once := nodup_files distinct onDisk
  have all {file : String} : file ∈ tracked ++ untracked tracked onDisk ↔ file ∈ tracked ∨ file ∈ onDisk := by
    rw [mem_append, mem_untracked]
    tauto
  refine ⟨ledger.people, fun file => ?_, fun file there off => ?_, fun file there none_ => ?_, ?_, ?_⟩
  · rw [((filesOwned_perm _).trans ledger.files).count_eq, once.count]
    simp only [all]
  · rw [(sorted_perm _).mem_iff, handOutTracked_eq, bucket_putAll]
    simp [mem_untracked, there, off]
  · rw [(sorted_perm _).mem_iff]
    obtain ⟨before, after, rfl⟩ := append_of_mem there
    rw [append_cons]
    refine mem_handOutTracked ?_
    simp [placeTracked, none_, bucket_alter, Bucket.own]
  · rw [sum_fileCounts, ledger.files.length_eq, ← toFinset_card_of_nodup once]
    congr 1
    ext file
    rw [List.mem_toFinset, all]
    simp
  · intro d h root listed
    rw [ofHistory, listed]
    rfl

def commitBy (name : String) (email : Option String) : Except Fault (Option Git.Commit) :=
  .ok (some ⟨some ⟨some name, email⟩, []⟩)

/-- One file has a commit, one that cannot be looked up, and one is not tracked. -/
theorem three_files_in_two_buckets :
    let bs := handOutTracked (fun f => if f = "a" then commitBy "Ann" none else .error Git.failure) [] ["a", "b"] ["b", "c"]
    (filesOwned bs).count "b" = 1 ∧ "b" ∈ sorted (bs.bucket nobody).owned ∧
      "c" ∈ sorted (bs.bucket nobody).owned ∧ (fileCounts bs).sum = 3 := by
  obtain ⟨-, once, onDisk, failed, counts, -⟩ := each_tracked_file_in_one_bucket
    (fun f => if f = "a" then commitBy "Ann" none else .error Git.failure) [] ["b", "c"] (show ["a", "b"].Nodup by decide)
  exact ⟨once "b", failed "b" (by decide) rfl, onDisk "c" (by decide) (by decide), counts⟩

end Folio.Contribution

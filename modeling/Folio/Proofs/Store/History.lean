/-
# Proofs.Store.History -- the two tables are a log of writes

A `History` is the list of everything that was written since a project was created, and how many of the oldest writes
were dropped again.  The `i`-th write is version `i`; nothing else ever has that number.

`Shows s name h` ties the tables to a history: one entry, at the last write, and one row for each write that was not
dropped, in order.  The two ways of numbering a write -- one above the highest row and one above the entry's current
version -- give the same free number (`newest_of_shows`).  Each operation of the store moves the history by one step
(`writeAs_shows`, `delete_shows`, `prune_shows`); what belongs to other names is untouched (`SameElsewhere`).
-/
import Folio.Store
import Mathlib.Data.List.Basic
import Mathlib.Order.Basic

namespace Folio.Store

open Bool Option List

variable {e : Entry} {keep : Int} {name : String} {s : Store} {v : Version} {α : Type}

structure Payload where
  content : Value
  blob : Bytes

def Version.payload (v : Version) : Payload := ⟨v.content, v.blob⟩

def Entry.payload (e : Entry) : Payload := ⟨e.content, e.blob⟩

/-- The writes of a project since it was created, the oldest first.  The oldest `dropped` of them are
no longer stored; the last one always is. -/
structure History where
  writes : List Payload
  dropped : Nat
  stored : dropped < writes.length

namespace History

/-- The history of a project that was just created. -/
def created (p : Payload) : History := ⟨[p], 0, by simp⟩

def write (h : History) (p : Payload) : History :=
  ⟨h.writes ++ [p], h.dropped, by have := h.stored; simp; omega⟩

/-- Keep only the `keep` newest versions; a `keep` below 1 changes nothing. -/
def prune (h : History) (keep : Int) : History :=
  if positive : 1 ≤ keep then
    ⟨h.writes, max h.dropped (h.writes.length - keep.toNat), by have := h.stored; omega⟩
  else h

def length (h : History) : Nat := h.writes.length

def size (h : History) : Nat := h.length - h.dropped

def newest (h : History) : Payload :=
  h.writes.getLast (by have := h.stored; exact ne_nil_of_length_pos (by omega))

/-- The stored version of a number. -/
def version? (h : History) (number : Int) : Option Payload :=
  if (h.dropped : Int) < number then h.writes[number.toNat - 1]? else none

/-- The numbers of the stored versions, the highest first. -/
def numbers (h : History) : List Nat := (range' (h.dropped + 1) h.size).reverse

/-- The rows of the stored versions, the oldest first. -/
def rows (h : History) (name : String) (uploaded : Int) : List Version :=
  ((h.writes.zipIdx 1).drop h.dropped).map fun w => ⟨name, uploaded, w.2, w.1.content, w.1.blob⟩

section

variable (name) (h : History) (p : Payload) (uploaded : Int)

theorem size_pos : 0 < h.size := by
  have := h.stored
  simp only [size, length]
  omega

@[simp] theorem length_write : (h.write p).length = h.length + 1 := by
  simp [length, write]

@[simp] theorem newest_write : (h.write p).newest = p := by
  simp [newest, write]

theorem number_rows : (h.rows name uploaded).map (·.number) = range' (h.dropped + 1) h.size := by
  have numbered : (h.rows name uploaded).map (·.number) = ((h.writes.zipIdx 1).map (·.2)).drop h.dropped := by
    simp [rows, Function.comp_def]
  rw [numbered, zipIdx_map_snd, drop_range', size, length, Nat.add_comm 1, Nat.mul_one]

theorem rows_write : (h.write p).rows name uploaded =
      h.rows name uploaded ++ [⟨name, uploaded, h.length + 1, p.content, p.blob⟩] := by
  have room : h.dropped ≤ (h.writes.zipIdx 1).length := by
    have := h.stored
    simp only [length_zipIdx]
    omega
  simp [rows, write, length, zipIdx_append, drop_append_of_le_length room, Nat.add_comm 1]

theorem newest_mem_rows : ⟨name, uploaded, h.length, h.newest.content, h.newest.blob⟩ ∈ h.rows name uploaded := by
  have last : (h.newest, h.length) ∈ (h.writes.zipIdx 1).drop h.dropped := by
    have := h.stored
    rw [mem_drop_iff_getElem]
    refine ⟨h.writes.length - 1 - h.dropped, by simp; omega, ?_⟩
    simp only [getElem_zipIdx, newest, length, getLast_eq_getElem, Prod.mk.injEq]
    refine ⟨?_, by omega⟩
    congr 1
    omega
  exact mem_map_of_mem (f := fun w : Payload × Nat =>
    (⟨name, uploaded, w.2, w.1.content, w.1.blob⟩ : Version)) last

theorem drop_zipIdx (l : List α) (start gone : Nat) :
    (l.zipIdx (start + 1)).drop gone = (l.zipIdx (start + 1)).filter fun w => start + gone < w.2 := by
  induction l generalizing start gone with
  | nil => simp
  | cons a l ih =>
    cases gone with
    | zero =>
      rw [drop_zero, eq_comm, filter_eq_self]
      intro w member
      have := le_snd_of_mem_zipIdx member
      simp only [decide_eq_true_eq]
      omega
    | succ gone =>
      rw [zipIdx_cons, drop_succ_cons, ih, filter_cons_of_neg (by simp)]
      simp [Nat.add_assoc, Nat.add_comm 1]

theorem rows_eq_filter : h.rows name uploaded = ((h.writes.zipIdx 1).filter fun w => h.dropped < w.2).map
      fun w => ⟨name, uploaded, w.2, w.1.content, w.1.blob⟩ := by
  have dropped := drop_zipIdx h.writes 0 h.dropped
  simp only [Nat.zero_add] at dropped
  rw [rows, dropped]

@[simp] theorem writes_prune (keep : Int) : (h.prune keep).writes = h.writes := by
  unfold prune
  split <;> rfl

@[simp] theorem length_prune (keep : Int) : (h.prune keep).length = h.length := by
  simp [length]

@[simp] theorem newest_prune (keep : Int) : (h.prune keep).newest = h.newest := by
  simp [newest]

theorem dropped_le_prune (keep : Int) : h.dropped ≤ (h.prune keep).dropped := by
  unfold prune
  split
  · exact Nat.le_max_left _ _
  · exact Nat.le_refl _

theorem prune_of_nonpos (low : keep ≤ 0) : h.prune keep = h :=
  dif_neg (by omega)

theorem rows_prune (keep : Int) : (h.prune keep).rows name uploaded =
      (h.rows name uploaded).filter fun v => (h.prune keep).dropped < v.number := by
  have := h.dropped_le_prune keep
  rw [rows_eq_filter, rows_eq_filter, writes_prune, List.filter_map, List.filter_filter]
  congr 1
  refine filter_congr fun w _ => ?_
  rw [Bool.eq_iff_iff]
  simp only [Function.comp_apply, and_eq_true, decide_eq_true_eq]
  omega

theorem length_rows : (h.rows name uploaded).length = h.size := by
  simp [rows, size, length]

theorem length_numbers : h.numbers.length = h.size := by simp [numbers]

theorem numbers_decrease : h.numbers.Pairwise (· > ·) :=
  pairwise_reverse.2 pairwise_lt_range'

theorem head?_numbers : h.numbers.head? = some h.length := by
  have positive := h.size_pos
  rw [numbers, head?_reverse, getLast?_range', if_neg (by omega)]
  simp only [size] at positive ⊢
  congr 1
  omega

theorem numbers_prune (positive : 1 ≤ keep) : (h.prune keep).numbers = h.numbers.take keep.toNat := by
  have dropped : (h.prune keep).dropped = max h.dropped (h.length - keep.toNat) := by
    simp [prune, dif_pos positive, length]
  have first : (h.prune keep).dropped + 1 = h.dropped + 1 + (h.size - keep.toNat) * 1 := by
    simp only [dropped, size, length]
    omega
  have many : (h.prune keep).size = h.size - (h.size - keep.toNat) := by
    simp only [size, length_prune]
    omega
  rw [numbers, numbers, take_reverse, length_range', drop_range', first, many]

theorem find?_rows (number : Int) : (h.rows name uploaded).find? (fun v => (v.number : Int) == number) =
      (h.version? number).map fun p => ⟨name, uploaded, number.toNat, p.content, p.blob⟩ := by
  have whole : ∀ (l : List Payload) (start m : Nat),
      (l.zipIdx start).find? (fun w => w.2 == start + m) = l[m]?.map fun p => (p, start + m) := by
    intro l
    induction l with
    | nil => simp
    | cons p l ih =>
      intro start m
      cases m with
      | zero => simp
      | succ m =>
        have := ih (start + 1) m
        simp only [Nat.add_assoc, Nat.add_comm 1] at this
        rw [zipIdx_cons, find?_cons_of_neg (by simp), this]
        rfl
  rw [rows_eq_filter, find?_map, find?_filter, version?]
  by_cases above : (h.dropped : Int) < number
  · have same : (fun w : Payload × Nat => decide (decide (h.dropped < w.2) ∧
        ((fun v : Version => (v.number : Int) == number) ∘
          fun w => ⟨name, uploaded, w.2, w.1.content, w.1.blob⟩) w)) =
        fun w => w.2 == 1 + (number.toNat - 1) := by
      funext w
      rw [Bool.eq_iff_iff]
      simp only [Function.comp_apply, decide_eq_true_eq, beq_iff_eq]
      omega
    rw [same, whole, if_pos above, Option.map_map]
    congr 1
    funext p
    simp only [Function.comp_apply]
    congr 1
    omega
  · rw [if_neg above, map_none, map_eq_none_iff, find?_eq_none]
    simp only [Function.comp_apply, decide_eq_true_eq, beq_iff_eq]
    omega

end

theorem mem_rows {h : History} {uploaded : Int} (member : v ∈ h.rows name uploaded) :
    v.name = name ∧ v.uploaded = uploaded ∧ h.dropped < v.number ∧ v.number ≤ h.length := by
  have numbered : v.number ∈ range' (h.dropped + 1) h.size := by
    rw [← h.number_rows name uploaded]
    exact mem_map_of_mem member
  have referring : v.name = name ∧ v.uploaded = uploaded := by
    obtain ⟨w, -, rfl⟩ := mem_map.1 member
    exact ⟨rfl, rfl⟩
  simp only [mem_range'_1, size] at numbered ⊢
  exact ⟨referring.1, referring.2, by omega, by omega⟩

@[simp] theorem mem_numbers {h : History} {n : Nat} : n ∈ h.numbers ↔ h.dropped < n ∧ n ≤ h.length := by
  simp only [numbers, mem_reverse, mem_range'_1, size]
  omega

/-- The history after a write, of a project that may be new. -/
def next : Option History → Payload → History
  | none, p => created p
  | some h, p => h.write p

/-- How often a project was written, 0 when it is not there. -/
def count : Option History → Nat
  | none => 0
  | some h => h.length

end History

/-! ## The tables of one name -/

def entriesNamed (s : Store) (name : String) : List Entry := s.entries.filter (·.name == name)

/-- What the tables hold under a name is a history. -/
inductive Shows (s : Store) (name : String) : Option History → Prop where
  | absent (entries : s.entriesNamed name = []) (rows : s.versionsNamed name = []) : Shows s name none
  | present (h : History) (e : Entry) (entries : s.entriesNamed name = [e])
      (current : e.current = h.length) (newest : e.payload = h.newest)
      (rows : s.versionsNamed name = h.rows name e.uploaded) : Shows s name (some h)

/-- The tables agree on what belongs to every other name. -/
def SameElsewhere (name : String) (s s' : Store) : Prop :=
  ∀ other, other ≠ name →
    s'.entriesNamed other = s.entriesNamed other ∧ s'.versionsNamed other = s.versionsNamed other

variable {h : Option History}

theorem shows_empty (name : String) : Shows empty name none := .absent rfl rfl

theorem find?_eq_head? (s : Store) (name : String) : s.find? name = (s.entriesNamed name).head? :=
  head?_filter.symm

theorem has_eq_isSome (s : Store) (name : String) : s.has name = (s.find? name).isSome := by
  rw [Bool.eq_iff_iff, find?]
  simp [has]

theorem name_of_entriesNamed (member : e ∈ s.entriesNamed name) : e.name = name := by
  simpa using (mem_filter.1 member).2

theorem versionsOf_eq_filter (s : Store) (e : Entry) :
    s.versionsOf e = (s.versionsNamed e.name).filter (·.uploaded == e.uploaded) := by
  simp [versionsOf, versionsNamed, Version.refersTo, Bool.and_comm]

section

variable {h : History} (entries : s.entriesNamed name = [e])
  (rows : s.versionsNamed name = h.rows name e.uploaded)

include entries rows

theorem versionsOf_of_rows : s.versionsOf e = h.rows name e.uploaded := by
  have named : e.name = name := name_of_entriesNamed (s := s) (by simp [entries])
  rw [versionsOf_eq_filter, named, rows, filter_eq_self]
  intro v member
  simpa using (History.mem_rows member).2.1

theorem numbers_of_rows : s.numbers e = h.numbers := by
  rw [numbers, versionsOf_of_rows entries rows, h.number_rows]
  have sorted : ((range' (h.dropped + 1) h.size).mergeSort fun a b => decide (b ≤ a)).Pairwise
      fun a b => decide (b ≤ a) := by
    refine pairwise_mergeSort ?_ ?_ _
    · intro a b c ab bc
      simp only [decide_eq_true_eq] at ab bc ⊢
      omega
    · simp only [or_eq_true, decide_eq_true_eq]
      omega
  have falling : h.numbers.Pairwise fun a b => decide (b ≤ a) := by
    rw [History.numbers, pairwise_reverse]
    exact pairwise_le_range'.imp (by simp)
  refine Perm.eq_of_pairwise ?_ sorted falling ((mergeSort_perm _ _).trans (reverse_perm _).symm)
  intro a b _ _ ab ba
  simp only [decide_eq_true_eq] at ab ba
  omega

theorem keptNumbers_of_rows (some_ : keep ≠ 0) : s.keptNumbers e keep = (h.prune keep).numbers := by
  rw [keptNumbers, numbers_of_rows entries rows]
  by_cases negative : keep < 0
  · rw [if_pos negative, h.prune_of_nonpos (by omega)]
  · rw [if_neg negative, h.numbers_prune (by omega)]

end

/-! ## Changing -/

theorem entriesNamed_putEntry_self {old : List Entry}
    (entries : s.entriesNamed e.name = old) (single : old.length ≤ 1) : (s.putEntry e).entriesNamed e.name = [e] := by
  unfold putEntry entriesNamed
  rw [has_eq_isSome, find?_eq_head?, entries]
  unfold entriesNamed at entries
  match old, single with
  | [], _ => simp [entries]
  | [x], _ =>
    have kept : ((·.name == e.name) ∘ fun x : Entry => if x.name == e.name then e else x) = (·.name == e.name) := by
      funext y
      by_cases same : y.name = e.name <;> simp [same]
    have named : x.name = e.name := name_of_entriesNamed (s := s) (by simp [entriesNamed, entries])
    simp only [head?_cons, isSome_some, if_true, List.filter_map, kept, entries]
    simp [named]

theorem entriesNamed_putEntry_other {other : String} (ne : other ≠ e.name) :
    (s.putEntry e).entriesNamed other = s.entriesNamed other := by
  unfold putEntry entriesNamed
  have off : (e.name == other) = false := beq_eq_false_iff_ne.2 (Ne.symm ne)
  split
  · induction s.entries with
    | nil => rfl
    | cons x xs ih =>
      by_cases same : x.name = e.name
      · simpa [same, off] using ih
      · by_cases here : x.name = other
        · simpa [here, ne] using ih
        · simpa [same, here] using ih
  · simp [off]

theorem addVersion_eq_ok (free : ∀ w ∈ s.versionsNamed v.name, w.number ≠ v.number) (entry : e ∈ s.entries)
    (refers : v.refersTo e) : s.addVersion v = .ok { s with versions := s.versions ++ [v] } := by
  have new : (s.versions.any fun w =>
      w.name == v.name && w.uploaded == v.uploaded && w.number == v.number) = false := by
    rw [List.any_eq_false]
    intro w member taken
    simp only [and_eq_true, beq_iff_eq] at taken
    exact free w (mem_filter.2 ⟨member, by simp [taken.1.1]⟩) taken.2
  have known : s.entries.any v.refersTo := any_eq_true.2 ⟨e, entry, refers⟩
  simp [addVersion, new, known]

theorem length_sub_filter (s : Store) (e : Entry) (kept : Version → Bool) :
    s.versions.length - (s.versions.filter fun v => !v.refersTo e || kept v).length =
      (s.versionsOf e).length - ((s.versionsOf e).filter kept).length := by
  have all := length_eq_countP_add_countP (fun v : Version => !v.refersTo e || kept v) (l := s.versions)
  have own := length_eq_countP_add_countP kept (l := s.versionsOf e)
  have same : (s.versionsOf e).countP (fun v => decide ¬kept v) =
      s.versions.countP fun v => decide ¬(!v.refersTo e || kept v) := by
    rw [versionsOf, countP_filter]
    refine countP_congr fun v _ => ?_
    cases v.refersTo e <;> cases kept v <;> simp
  simp only [← countP_eq_length_filter]
  omega

/-- How many versions pruning drops. -/
def History.removed (h : Option History) (keep : Int) : Nat :=
  match h with
  | none => 0
  | some h => h.size - (h.prune keep).size

section

variable (shows_ : Shows s name h)

include shows_

theorem Shows.congr {s' : Store} (entries : s'.entriesNamed name = s.entriesNamed name)
    (rows : s'.versionsNamed name = s.versionsNamed name) : Shows s' name h := by
  cases shows_ with
  | absent noEntries noRows => exact .absent (entries.trans noEntries) (rows.trans noRows)
  | present h e one current newest some_ =>
    exact .present h e (entries.trans one) current newest (rows.trans some_)

theorem Shows.has : s.has name = h.isSome := by
  rw [has_eq_isSome, find?_eq_head?]
  cases shows_ with
  | absent noEntries _ => simp [noEntries]
  | present h e one => simp [one]

theorem newest_of_shows : s.newest name = History.count h := by
  have highest : ∀ a n, (range' a (n + 1)).foldl Nat.max 0 = a + n := by
    intro a n
    induction n with
    | zero => simp
    | succ n ih =>
      rw [range'_1_concat, foldl_append]
      exact Nat.max_eq_right (by omega)
  cases shows_ with
  | absent _ noRows => simp [newest, noRows, History.count]
  | present h e _ _ _ rows =>
    obtain ⟨n, size⟩ : ∃ n, h.size = n + 1 := ⟨h.size - 1, by have := h.size_pos; omega⟩
    rw [newest, rows, h.number_rows, size, highest, History.count]
    simp only [History.size] at size ⊢
    omega

theorem writeAs_shows (now : Int) (p : Payload) :
    ∃ s', s.writeAs now name (History.count h + 1) p.content p.blob = .ok s' ∧
      Shows s' name (some (History.next h p)) ∧ SameElsewhere name s s' := by
  let e : Entry := ⟨name, p.content, p.blob, s.uploadOf name now, History.count h + 1⟩
  let v : Version := ⟨name, s.uploadOf name now, History.count h + 1, p.content, p.blob⟩
  have entries : (s.putEntry e).entriesNamed name = [e] := by
    cases shows_ with
    | absent none_ _ => exact entriesNamed_putEntry_self (e := e) none_ (by simp)
    | present h x one => exact entriesNamed_putEntry_self (e := e) one (by simp)
  have versions : (s.putEntry e).versions = s.versions := by
    unfold putEntry
    split <;> rfl
  have member : e ∈ (s.putEntry e).entries := by
    have : e ∈ (s.putEntry e).entriesNamed name := by simp [entries]
    exact (mem_filter.1 this).1
  have free : ∀ w ∈ (s.putEntry e).versionsNamed v.name, w.number ≠ v.number := by
    intro w row
    rw [versionsNamed, versions] at row
    change w ∈ s.versionsNamed name at row
    cases shows_ with
    | absent _ noRows => simp [noRows] at row
    | present h x _ _ _ rows =>
      rw [rows] at row
      have := (History.mem_rows row).2.2.2
      simp only [v, History.count]
      omega
  have added := addVersion_eq_ok free member (by simp [Version.refersTo, v, e])
  refine ⟨_, added, ?_, ?_⟩
  · have rows : ((s.putEntry e).versions ++ [v]).filter (·.name == name) = s.versionsNamed name ++ [v] := by
      rw [versions]
      simp [versionsNamed, v]
    cases shows_ with
    | absent noEntries noRows =>
      refine .present _ e entries rfl rfl (rows.trans ?_)
      rw [noRows]
      rfl
    | present h x one current newest some_ =>
      have stamp : s.uploadOf name now = x.uploaded := by
        simp [uploadOf, find?_eq_head?, one]
      refine .present _ e entries (h.length_write p).symm (h.newest_write p).symm (rows.trans ?_)
      change _ = (h.write p).rows name (s.uploadOf name now)
      rw [some_, h.rows_write]
      simp [v, stamp, History.count]
  · intro other ne
    refine ⟨entriesNamed_putEntry_other (e := e) ne, ?_⟩
    have off : (v.name == other) = false := beq_eq_false_iff_ne.2 (Ne.symm ne)
    simp [versionsNamed, versions, off]

theorem insert_shows (now : Int) (p : Payload) : ∃ s', s.insert now name p.content p.blob = .ok (s', h.isSome) ∧
      Shows s' name (some (History.next h p)) ∧ SameElsewhere name s s' := by
  obtain ⟨s', written, moved, same⟩ := writeAs_shows shows_ now p
  refine ⟨s', ?_, moved, same⟩
  rw [insert, newest_of_shows shows_, written, shows_.has]
  rfl

theorem delete_shows : Shows (s.delete name) name none ∧ SameElsewhere name s (s.delete name) := by
  refine ⟨.absent ?_ ?_, fun other ne => ⟨?_, ?_⟩⟩
  · simp [entriesNamed, delete]
  · rw [versionsNamed, delete, List.filter_filter, filter_eq_nil_iff]
    intro v member keeps
    simp only [and_eq_true, not_eq_true', List.any_eq_false] at keeps
    have row : v ∈ s.versionsNamed name := mem_filter.2 ⟨member, by simp [keeps.1]⟩
    cases shows_ with
    | absent _ noRows => simp [noRows] at row
    | present h e one _ _ rows =>
      rw [rows] at row
      obtain ⟨named, stamped, -⟩ := History.mem_rows row
      have entry : e ∈ s.entriesNamed name := by simp [one]
      refine keeps.2 e entry ?_
      simp [Version.refersTo, named, stamped, name_of_entriesNamed entry]
  · rw [entriesNamed, delete, List.filter_filter]
    refine filter_congr fun e _ => ?_
    by_cases here : e.name = other
    · simp [here, ne]
    · simp [here]
  · rw [versionsNamed, delete, List.filter_filter]
    refine filter_congr fun v _ => ?_
    by_cases here : v.name = other
    · have away : (s.entries.filter (·.name == name)).any v.refersTo = false := by
        rw [List.any_eq_false]
        intro e member
        have named : e.name = name := name_of_entriesNamed (s := s) member
        simp [Version.refersTo, here, named, ne]
      simp [away]
    · simp [here]

theorem prune_shows (keep : Int) : Shows (s.prune name keep).1 name (h.map (·.prune keep)) ∧
      (s.prune name keep).2 = History.removed h keep ∧ SameElsewhere name s (s.prune name keep).1 := by
  cases shows_ with
  | absent noEntries noRows =>
    have missing : s.find? name = none := by simp [find?_eq_head?, noEntries]
    simp only [prune, missing]
    exact ⟨.absent noEntries noRows, rfl, fun _ _ => ⟨rfl, rfl⟩⟩
  | present h e one current newest rows =>
    have found : s.find? name = some e := by simp [find?_eq_head?, one]
    have named : e.name = name := name_of_entriesNamed (s := s) (by simp [one])
    by_cases zero : keep = 0
    · have nothing : s.keptNumbers e keep = [] := by simp [keptNumbers, zero]
      have same : h.prune keep = h := h.prune_of_nonpos (by omega)
      simp only [prune, found, nothing, map_some, same]
      exact ⟨.present h e one current newest rows, by simp [History.removed, same],
        fun _ _ => ⟨rfl, rfl⟩⟩
    · have kept := keptNumbers_of_rows one rows zero
      have some_ : (h.prune keep).numbers.isEmpty = false := by
        rw [isEmpty_eq_false_iff, ← length_pos_iff, History.length_numbers]
        exact (h.prune keep).size_pos
      simp only [prune, found, kept, some_, false_eq_true, if_false]
      -- Among the project's own rows the filter keeps those that the history keeps.
      have stays : ∀ v ∈ h.rows name e.uploaded, (!v.refersTo e || (h.prune keep).numbers.contains v.number) =
            decide ((h.prune keep).dropped < v.number) := by
        intro v row
        obtain ⟨own, stamp, -, below⟩ := History.mem_rows row
        simp [Version.refersTo, own, stamp, named, below]
      refine ⟨.present (h.prune keep) e one (by simpa using current) (by simpa using newest) ?_, ?_, ?_⟩
      · rw [h.rows_prune, ← filter_congr stays, ← rows, versionsNamed, versionsNamed,
          List.filter_filter, List.filter_filter]
        simp [Bool.and_comm]
      · rw [length_sub_filter, versionsOf_of_rows one rows, History.length_rows, History.removed,
          ← (h.prune keep).length_rows name e.uploaded, h.rows_prune]
        congr 2
        refine filter_congr fun v row => ?_
        obtain ⟨-, -, -, below⟩ := History.mem_rows row
        simp [below]
      · intro other ne
        refine ⟨rfl, ?_⟩
        rw [versionsNamed, List.filter_filter]
        refine filter_congr fun v _ => ?_
        by_cases here : v.name = other
        · simp [Version.refersTo, here, named, ne]
        · simp [here]

/-! ## Reading -/

theorem content?_of_shows : s.content? name = h.map (·.newest.content) := by
  rw [content?, find?_eq_head?]
  cases shows_ with
  | absent noEntries _ => simp [noEntries]
  | present h e one _ newest => simp [one, ← newest, Entry.payload]

theorem version?_of_shows (number : Int) : (s.version? name number).map (fun v => ((v.number : Int), v.payload)) =
      (h.bind (·.version? number)).map (number, ·) := by
  rw [version?]
  cases shows_ with
  | absent _ noRows => simp [noRows]
  | present h e _ _ _ rows =>
    rw [rows, h.find?_rows, Option.map_map]
    by_cases above : (h.dropped : Int) < number
    · congr 1
      funext p
      have whole : ((number.toNat : Nat) : Int) = number := Int.toNat_of_nonneg (by omega)
      simp [whole, Version.payload]
    · simp [History.version?, above]

theorem versionLines_of_shows :
    s.versionLines name = (h.map fun h => h.numbers.map fun n => ⟨n, n == h.length⟩).getD [] := by
  rw [versionLines, find?_eq_head?]
  cases shows_ with
  | absent noEntries _ => simp [noEntries]
  | present h e one current _ rows => simp [one, numbers_of_rows one rows, current]

theorem Shows.of_entry (member : e ∈ s.entriesNamed name) :
    ∃ log : History, s.entriesNamed name = [e] ∧ e.current = log.length ∧ e.payload = log.newest ∧
      s.versionsNamed name = log.rows name e.uploaded := by
  cases shows_ with
  | absent noEntries _ => simp [noEntries] at member
  | present log x one current newest rows =>
    obtain rfl : e = x := by simpa [one] using member
    exact ⟨log, one, current, newest, rows⟩

theorem Shows.of_row (row : v ∈ s.versionsNamed name) :
    ∃ e ∈ s.entriesNamed name, v.refersTo e ∧ v.number ≤ e.current := by
  cases shows_ with
  | absent _ noRows => simp [noRows] at row
  | present log e one current _ rows =>
    rw [rows] at row
    obtain ⟨named, stamped, -, below⟩ := History.mem_rows row
    have own : e ∈ s.entriesNamed name := by simp [one]
    exact ⟨e, own, by simp [Version.refersTo, named, stamped, name_of_entriesNamed own],
      by rwa [current]⟩

theorem Shows.pairwise_number : (s.versionsNamed name).Pairwise fun v w => v.number ≠ w.number := by
  cases shows_ with
  | absent _ noRows => simp [noRows]
  | present log e _ _ _ rows =>
    have increasing : ((s.versionsNamed name).map (·.number)).Pairwise (· < ·) := by
      rw [rows, log.number_rows]
      exact pairwise_lt_range'
    exact (pairwise_map.1 increasing).imp Nat.ne_of_lt

end

theorem update?_absent (shows_ : Shows s name none) (now : Int)
    (p : Payload) : s.update? now name p.content p.blob = .ok none := by
  cases shows_ with
  | absent noEntries _ =>
    have missing : s.find? name = none := by simp [find?_eq_head?, noEntries]
    simp [update?, missing]

theorem update?_present {h : History} (shows_ : Shows s name (some h)) (now : Int) (p : Payload) :
    ∃ s', s.update? now name p.content p.blob = .ok (some s') ∧
      Shows s' name (some (h.write p)) ∧ SameElsewhere name s s' := by
  obtain ⟨s', written, moved, same⟩ := writeAs_shows shows_ now p
  refine ⟨s', ?_, moved, same⟩
  cases shows_ with
  | present h e one current _ _ =>
    have found : s.find? name = some e := by simp [find?_eq_head?, one]
    simp only [History.count] at written
    simp only [update?, found, current, written]
    rfl

/-- Rows that fit together: the entry of each project stands at its highest row, no two rows of a
project have one number, and every row has its entry. -/
structure Coherent (s : Store) : Prop where
  current : ∀ e ∈ s.entries, ∃ v ∈ s.versions, v.refersTo e ∧ v.number = e.current ∧ v.payload = e.payload
  highest : ∀ e ∈ s.entries, ∀ v ∈ s.versions, v.name = e.name → v.number ≤ e.current
  distinct : s.versions.Pairwise fun v w => v.name = w.name → v.number ≠ w.number
  owned : ∀ v ∈ s.versions, ∃ e ∈ s.entries, v.refersTo e
  single : s.entries.Pairwise fun e f => e.name ≠ f.name

theorem pairwise_of_filter {key : α → String} {R : α → α → Prop} {l : List α}
    (each : ∀ k, (l.filter (key · == k)).Pairwise R) : l.Pairwise fun a b => key a = key b → R a b := by
  induction l with
  | nil => exact .nil
  | cons a l ih =>
    refine .cons (fun b member same => ?_) (ih fun k => (each k).sublist ((sublist_cons_self a l).filter _))
    have own := each (key a)
    rw [filter_cons_of_pos (by simp), pairwise_cons] at own
    exact own.1 b (mem_filter.2 ⟨member, by simp [same]⟩)

theorem coherent_of_shows {logs : String → Option History} (shown : ∀ name, Shows s name (logs name)) : Coherent s := by
  have ownEntry : ∀ e ∈ s.entries, e ∈ s.entriesNamed e.name := fun e member =>
    mem_filter.2 ⟨member, by simp⟩
  have ownRow : ∀ v ∈ s.versions, v ∈ s.versionsNamed v.name := fun v row =>
    mem_filter.2 ⟨row, by simp⟩
  refine ⟨fun e member => ?_, fun e member v row same => ?_, ?_, fun v row => ?_, ?_⟩
  · obtain ⟨log, -, current, newest, rows⟩ := (shown e.name).of_entry (ownEntry e member)
    have last := log.newest_mem_rows e.name e.uploaded
    rw [← rows] at last
    exact ⟨_, (mem_filter.1 last).1, by simp [Version.refersTo], current.symm, newest.symm⟩
  · obtain ⟨x, own, -, below⟩ := (shown v.name).of_row (ownRow v row)
    obtain ⟨log, one, -⟩ := (shown e.name).of_entry (ownEntry e member)
    obtain rfl : x = e := by simpa [same, one] using own
    exact below
  · exact pairwise_of_filter fun name => (shown name).pairwise_number
  · obtain ⟨e, own, refers, -⟩ := (shown v.name).of_row (ownRow v row)
    exact ⟨e, (mem_filter.1 own).1, refers⟩
  · have apart : s.entries.Pairwise fun e f => e.name = f.name → False := by
      refine pairwise_of_filter fun name => ?_
      change (s.entriesNamed name).Pairwise _
      cases found : s.entriesNamed name with
      | nil => exact .nil
      | cons e rest =>
        obtain ⟨log, one, -⟩ := (shown name).of_entry (e := e) (by simp [found])
        obtain rfl : rest = [] := by simpa [found] using one
        exact pairwise_singleton _ _
    exact apart

end Folio.Store

/-
# Proofs.Value -- fields that are read after writing, sorting, and lists of texts as sets

Writing and erasing a field change what is read under its own name and under no other.  What lies deeper in a document
is reached by a path of names (`Value.at?`).

Sorting puts each element behind those that it does not precede.  Where the test decides every pair, it succeeds,
nothing is added or lost, and elements of which none precedes another keep their order (`sortBy_spec`).  Texts can be
compared and can be members of a set, so putting them in order always succeeds.
-/
import Folio.Proofs.Text.Words
import Folio.Value.Order
import Mathlib.Data.List.Perm.Basic
import Mathlib.Tactic.Common

namespace Folio.Fields

open List

variable {fs gs more : Fields} {key name : String} {v w : Value}

theorem get?_cons (k : String) (old : Value) (rest : Fields) (name : String) :
    get? ((k, old) :: rest) name = if name = k then some old else get? rest name := by
  by_cases same : name = k
  · simp [get?, same]
  · simp [get?, lookup_cons, same, beq_eq_false_iff_ne.2 same]

theorem get?_map (value : String → Value) (keys : List String) (key : String) :
    get? (keys.map fun k => (k, value k)) key = if key ∈ keys then some (value key) else none := by
  induction keys with
  | nil => rfl
  | cons k keys ih =>
    rw [map_cons, get?_cons, ih]
    by_cases here : key = k <;> simp [here]

theorem get?_set (fs : Fields) (key : String) (v : Value) (name : String) :
    get? (set fs key v) name = if name = key then some v else get? fs name := by
  induction fs with
  | nil => simp [set, get?_cons]
  | cons f rest ih =>
    obtain ⟨k, old⟩ := f
    by_cases here : k = key
    · subst here
      simp only [set, beq_self_eq_true, if_true, get?_cons]
      split <;> rfl
    · simp only [set, beq_eq_false_iff_ne.2 here, Bool.false_eq_true, if_false, get?_cons, ih]
      by_cases first : name = k
      · subst first
        simp [here]
      · simp [first]

theorem set_of_get? (there : get? fs key = some v) : set fs key v = fs := by
  induction fs with
  | nil => simp [get?] at there
  | cons f rest ih =>
    obtain ⟨k, old⟩ := f
    rw [get?_cons] at there
    by_cases here : k = key
    · subst here
      obtain rfl : old = v := by simpa using there
      simp [set]
    · rw [if_neg (Ne.symm here)] at there
      simp [set, beq_eq_false_iff_ne.2 here, ih there]

theorem set_set (fs : Fields) (key : String) (v w : Value) : set (set fs key v) key w = set fs key w := by
  induction fs with
  | nil => simp [set]
  | cons f rest ih => by_cases here : f.1 = key <;> simp [set, here, ih]

theorem get?_erase (fs : Fields) (key name : String) :
    get? (erase fs key) name = if name = key then none else get? fs name := by
  induction fs with
  | nil => simp [erase, get?]
  | cons f rest ih =>
    obtain ⟨k, old⟩ := f
    by_cases here : k = key
    · have dropped : erase ((k, old) :: rest) key = erase rest key := by simp [erase, here]
      rw [dropped, ih, get?_cons]
      subst here
      by_cases same : name = k <;> simp [same]
    · have kept : erase ((k, old) :: rest) key = (k, old) :: erase rest key := by simp [erase, here]
      rw [kept, get?_cons, get?_cons, ih]
      by_cases same : name = k
      · subst same
        simp [here]
      · simp [same]

theorem mem_set {f : String × Value} (member : f ∈ set fs key v) : f = (key, v) ∨ f ∈ fs := by
  induction fs with
  | nil => simpa [set] using member
  | cons g rest ih =>
    obtain ⟨k, old⟩ := g
    by_cases here : k = key
    · subst here
      simp only [set, beq_self_eq_true, if_true, mem_cons] at member
      exact member.imp_right fun later => mem_cons_of_mem _ later
    · simp only [set, beq_eq_false_iff_ne.2 here, Bool.false_eq_true, if_false, mem_cons] at member
      rcases member with rfl | later
      · exact Or.inr mem_cons_self
      · exact (ih later).imp_right fun old => mem_cons_of_mem _ old

theorem mem_of_get? (there : get? fs key = some v) : (key, v) ∈ fs := by
  obtain ⟨before, after, rfl, -⟩ := lookup_eq_some_iff.1 there
  simp

/-! ## Writing several fields -/

theorem mem_keys : key ∈ keys fs ↔ (get? fs key).isSome := by
  induction fs with
  | nil => simp [keys, get?]
  | cons f rest ih =>
    rw [get?_cons, keys, map_cons, mem_cons, ← keys, ih]
    by_cases same : key = f.1 <;> simp [same]

theorem set_of_not_mem (absent : key ∉ keys fs) : set fs key v = fs ++ [(key, v)] := by
  induction fs with
  | nil => rfl
  | cons f rest ih =>
    obtain ⟨other, later⟩ : key ≠ f.1 ∧ key ∉ keys rest := by simpa [keys] using absent
    simp [set, Ne.symm other, ih later]

theorem keys_set_of_mem (there : key ∈ keys fs) (v : Value) : keys (set fs key v) = keys fs := by
  induction fs with
  | nil => cases there
  | cons f rest ih =>
    by_cases here : f.1 = key
    · simp [set, keys, here]
    · have later : key ∈ keys rest := (mem_cons.1 there).resolve_left (Ne.symm here)
      have step : keys (set (f :: rest) key v) = f.1 :: keys (set rest key v) := by simp [set, keys, here]
      rw [step, ih later]
      rfl

theorem nodup_keys_set (distinct : (keys fs).Nodup) (key : String) (v : Value) : (keys (set fs key v)).Nodup := by
  by_cases there : key ∈ keys fs
  · rwa [keys_set_of_mem there]
  · rw [set_of_not_mem there, keys, map_append]
    refine nodup_append.2 ⟨distinct, pairwise_singleton _ key, fun k inside k' last same => there ?_⟩
    rwa [← show k' = key from mem_singleton.1 last, ← same]

theorem nodup_keys_setAll (distinct : (keys fs).Nodup) (more : Fields) : (keys (setAll fs more)).Nodup :=
  foldlRecOn (motive := fun gs => (keys gs).Nodup) more _ distinct fun _ held e _ => nodup_keys_set held e.1 e.2

theorem mem_setAll {f : String × Value} (member : f ∈ setAll fs more) : f ∈ more ∨ f ∈ fs := by
  refine foldlRecOn (motive := fun gs => f ∈ gs → f ∈ more ∨ f ∈ fs) more _ Or.inr ?_ member
  intro gs held e inside there
  rcases mem_set there with rfl | old
  · exact Or.inl inside
  · exact held old

theorem get?_setAll (fs more : Fields) (name : String) :
    get? (setAll fs more) name = (get? more.reverse name).or (get? fs name) := by
  induction more generalizing fs with
  | nil => simp [setAll, get?]
  | cons e more ih =>
    have last : get? (e :: more).reverse name = (get? more.reverse name).or (get? [e] name) := by
      rw [reverse_cons]
      exact lookup_append
    have step : setAll fs (e :: more) = setAll (set fs e.1 e.2) more := rfl
    rw [last, step, ih, get?_set, get?_cons, Option.or_assoc]
    split
    · rfl
    · simp [get?]

theorem isSome_get?_setAll (there : (get? fs name).isSome ∨ name ∈ keys more) : (get? (setAll fs more) name).isSome := by
  rw [get?_setAll, Option.isSome_or, Bool.or_eq_true]
  refine there.symm.imp (fun inside => mem_keys.1 ?_) id
  rw [keys, map_reverse]
  exact mem_reverse.2 inside

end Folio.Fields

namespace Folio.Value

open Option

variable {key : String} {v w : Value}

theorem get?_set_self (object : v.isObject) (key : String) (w : Value) : (v.set key w).get? key = some w := by
  cases v with
  | object fs => simp [set, get?, Fields.get?_set]
  | _ => cases object

theorem get?_set_ne (v : Value) (ne : name ≠ key) (w : Value) : (v.set key w).get? name = v.get? name := by
  cases v with
  | object fs => simp [set, get?, Fields.get?_set, ne]
  | _ => rfl

theorem getOrNull_set_self (object : v.isObject) (key : String) (w : Value) : (v.set key w).getOrNull key = w := by
  rw [getOrNull, get?_set_self object, getD_some]

theorem getOrNull_set_ne (v : Value) (ne : name ≠ key) (w : Value) : (v.set key w).getOrNull name = v.getOrNull name := by
  rw [getOrNull, get?_set_ne v ne, getOrNull]

theorem set_getOrNull (there : (v.getOrNull key).isObject) : v.set key (v.getOrNull key) = v := by
  cases v with
  | object fs =>
    cases found : Fields.get? fs key with
    | none =>
      rw [getOrNull, get?, found] at there
      cases there
    | some w =>
      rw [getOrNull, get?, found, getD_some, set, Fields.set_of_get? found]
  | _ => rfl

@[simp] theorem isObject_set (v : Value) (key : String) (w : Value) : (v.set key w).isObject = v.isObject := by
  cases v <;> rfl

theorem get?_erase (v : Value) (key name : String) :
    (v.erase key).get? name = if name = key then none else v.get? name := by
  cases v with
  | object fs => simp [erase, get?, Fields.get?_erase]
  | _ => simp [erase, get?]

theorem isObject_of_get? (found : v.get? key = some w) : v.isObject := by
  cases v with
  | object fs => rfl
  | _ => cases found

theorem fieldD_of_isObject (object : v.isObject) (key : String) (w : Value) :
    v.fieldD key w = .ok ((v.get? key).getD w) := by
  cases v with
  | object fs => rfl
  | _ => cases object

theorem set_of_get? (there : v.get? key = some w) : v.set key w = v := by
  cases v with
  | object fs => rw [set, Fields.set_of_get? there]
  | _ => cases there

theorem set_set (v : Value) (key : String) (u w : Value) : (v.set key u).set key w = v.set key w := by
  cases v with
  | object fs => exact congrArg _ (Fields.set_set fs key u w)
  | _ => rfl

theorem get?_of_isObject (object : (v.getOrNull key).isObject) : v.get? key = some (v.getOrNull key) := by
  unfold getOrNull at object ⊢
  cases found : v.get? key with
  | none => simp [found, isObject] at object
  | some w => rfl

theorem field_of_isObject (object : (v.getOrNull key).isObject) : v.field key = .ok (v.getOrNull key) := by
  have found := get?_of_isObject object
  cases v with
  | object fs =>
    rw [get?] at found
    simp [field, found]
  | _ => cases found

theorem get?_of_field (found : v.field key = .ok w) : v.get? key = some w := by
  cases v with
  | object fs =>
    rw [get?]
    cases there : Fields.get? fs key with
    | none => simp [field, there] at found
    | some u => simpa [field, there] using found
  | _ => cases found

theorem isObject_of_fieldD {u : Value} (found : v.fieldD key w = .ok u) : v.isObject := by
  cases v with
  | object fs => rfl
  | _ => cases found

theorem getOrNull_of_fieldD (read : v.fieldD key .null = .ok w) : v.getOrNull key = w := by
  cases v with
  | object fs => exact Except.ok.inj read
  | _ => cases read

theorem isNull_of_isObject (object : v.isObject) : v.isNull = false := by
  cases v with
  | object fs => rfl
  | _ => cases object

/-! ## Values by path -/

/-- The value under a path of names. -/
def at? (v : Value) : List String → Option Value
  | [] => some v
  | key :: path => (v.get? key).bind (at? · path)

theorem at?_pair (v : Value) (key name : String) : v.at? [key, name] = (v.get? key).bind (·.get? name) := by
  simp [at?]

open List

/-- Whether one element precedes another; being neither before nor behind is transitive. -/
structure Ranks {α : Type} (lt : α → α → Bool) : Prop where
  asymm : ∀ {a b}, lt a b → lt b a = false
  apart : ∀ {a c} (b), lt a c → lt a b ∨ lt b c

variable {α : Type} {less : α → α → Except Fault Bool} {lt : α → α → Bool} {x : α} {xs ys : List α}

theorem ranks_strings (key : α → String) : Ranks fun a b => decide (key a < key b) where
  asymm less := by simpa using String.lt_asymm (of_decide_eq_true less)
  apart {a c} b less := by
    simp only [decide_eq_true_eq] at less ⊢
    rw [or_iff_not_imp_left]
    exact fun behind => Std.lt_of_le_of_lt behind less

theorem insertBy_spec (ranks : Ranks lt) (decides : ∀ y ∈ ys, less x y = .ok (lt x y))
    (ordered : ys.Pairwise fun a b => lt b a = false) :
    ∃ front back, ys = front ++ back ∧ insertBy less x ys = .ok (front ++ x :: back) ∧
      (∀ y ∈ front, lt x y = false) ∧ ∀ y ∈ back, lt x y := by
  induction ys with
  | nil => exact ⟨[], [], rfl, rfl, nofun, nofun⟩
  | cons y ys ih =>
    obtain ⟨here, later⟩ := forall_mem_cons.1 decides
    obtain ⟨first, rest⟩ := pairwise_cons.1 ordered
    rw [insertBy, here]
    cases precedes : lt x y with
    | true =>
      refine ⟨[], y :: ys, rfl, rfl, nofun, forall_mem_cons.2 ⟨precedes, fun z member => ?_⟩⟩
      exact (ranks.apart z precedes).resolve_right (by simp [first z member])
    | false =>
      obtain ⟨front, back, rfl, inserted, below, beyond⟩ := ih later rest
      refine ⟨y :: front, back, rfl, ?_, forall_mem_cons.2 ⟨precedes, below⟩, beyond⟩
      rw [inserted]
      rfl

/-- A list in order, with the elements of another one, of which those that tie stand as they do there. -/
structure Sorts (lt : α → α → Bool) (xs ys : List α) : Prop where
  perm : ys.Perm xs
  ordered : ys.Pairwise fun a b => lt b a = false
  stable : ∀ p : α → Bool, (∀ a b, p a → p b → lt a b = false) → ys.filter p = xs.filter p

theorem Sorts.insert (ranks : Ranks lt) (sorts : Sorts lt xs ys) (decides : ∀ y ∈ xs, less x y = .ok (lt x y)) :
    ∃ zs, insertBy less x ys = .ok zs ∧ Sorts lt (xs ++ [x]) zs := by
  obtain ⟨front, back, rfl, inserted, below, beyond⟩ :=
    insertBy_spec ranks (fun y member => decides y (sorts.perm.mem_iff.1 member)) sorts.ordered
  refine ⟨_, inserted, ?_, ?_, fun p ties => ?_⟩
  · exact perm_middle.trans ((sorts.perm.cons x).trans (perm_append_singleton x xs).symm)
  · obtain ⟨before, after, across⟩ := pairwise_append.1 sorts.ordered
    refine pairwise_append.2 ⟨before, pairwise_cons.2 ⟨fun y member => ranks.asymm (beyond y member), after⟩, ?_⟩
    exact fun y member => forall_mem_cons.2 ⟨below y member, across y member⟩
  · rw [filter_append, filter_append, ← sorts.stable p ties]
    by_cases own : p x
    · have none_ : back.filter p = [] := filter_eq_nil_iff.2 fun y member held => by
        simpa [beyond y member] using ties x y own held
      simp [own, none_]
    · simp [own]

theorem sortBy_spec (less : α → α → Except Fault Bool) (ranks : Ranks lt) (decides : ∀ a ∈ xs, ∀ b ∈ xs, less a b = .ok (lt a b)) :
    ∃ ys, sortBy less xs = .ok ys ∧ Sorts lt xs ys := by
  suffices gathered : ∀ more done ys, (∀ a ∈ done ++ more, ∀ b ∈ done ++ more, less a b = .ok (lt a b)) → Sorts lt done ys →
      ∃ zs, more.foldlM (fun ys x => insertBy less x ys) ys = .ok zs ∧ Sorts lt (done ++ more) zs from
    gathered xs [] [] decides ⟨.refl _, .nil, fun _ _ => rfl⟩
  intro more
  induction more with
  | nil => exact fun done ys _ sorts => ⟨ys, rfl, (append_nil done).symm ▸ sorts⟩
  | cons x more ih =>
    intro done ys decides sorts
    obtain ⟨zs, inserted, sorts'⟩ := sorts.insert ranks fun y member =>
      decides x (mem_append_right _ mem_cons_self) y (mem_append_left _ member)
    rw [append_cons] at decides ⊢
    obtain ⟨all, folded, sorted_⟩ := ih _ zs decides sorts'
    exact ⟨all, by rw [foldlM_cons, inserted]; exact folded, sorted_⟩

open Or

variable {s : String} {v : Value} {xs ys : List String}

def textItems (names : List String) : List Value := names.map .text

@[simp] theorem textItems_cons (x : String) (xs : List String) : textItems (x :: xs) = .text x :: textItems xs := rfl

@[simp] theorem textItems_append (xs ys : List String) : textItems (xs ++ ys) = textItems xs ++ textItems ys := map_append

theorem mem_textItems : v ∈ textItems xs ↔ ∃ x ∈ xs, v = .text x := by
  simp [textItems, eq_comm]

theorem text_beq (x y : String) : (text x == text y) = (x == y) := by
  show same (.text x) (.text y) = (x == y)
  rw [same]

theorem eq_of_text? (is : v.text? = some s) : v = .text s := by
  cases v with
  | text t => exact congrArg text (Option.some.inj is)
  | _ => cases is

theorem eq_text_of_beq (same : (v == .text s) ∨ (text s == v)) : v = .text s := by
  cases v with
  | text t =>
    rcases same with same | same
    · have equal : t == s := same
      rw [beq_iff_eq.1 equal]
    · have equal : s == t := same
      rw [beq_iff_eq.1 equal]
  | _ => rcases same with same | same <;> cases same

theorem contains_textItems (xs : List String) (x : String) : (textItems xs).contains (.text x) = xs.contains x := by
  induction xs with
  | nil => rfl
  | cons y xs ih => rw [textItems_cons, contains_cons, contains_cons, ih, text_beq]

theorem members_textItems (xs : List String) :
    ∃ ys, members (textItems xs) = .ok (textItems ys) ∧ ∀ y, y ∈ ys ↔ y ∈ xs := by
  have keys : (textItems xs).find? (!·.isKey) = none := by
    rw [find?_eq_none]
    intro v member
    obtain ⟨x, -, rfl⟩ := mem_textItems.1 member
    simp [isKey]
  have gathered (xs : List String) : ∀ seen : List String,
      (textItems xs).foldl (fun seen x => if seen.contains x then seen else seen ++ [x]) (textItems seen) =
        textItems (xs.foldl (fun seen x => if seen.contains x then seen else seen ++ [x]) seen) := by
    induction xs with
    | nil => exact fun _ => rfl
    | cons x xs ih =>
      intro seen
      rw [textItems_cons, foldl_cons, foldl_cons, contains_textItems, ← ih]
      split
      · rfl
      · rw [textItems_append]
        rfl
  refine ⟨Text.unique xs, ?_, fun y => by rw [(Text.unique_perm_dedup xs).mem_iff, mem_dedup]⟩
  rw [members, keys]
  exact congrArg Except.ok (gathered xs [])

/-- Texts in order, equal ones side by side. -/
def InOrder (xs : List String) : Prop := xs.Pairwise fun a b => ¬ b < a

theorem sorted_textItems (xs : List String) :
    ∃ ys, sorted (textItems xs) = .ok (textItems ys) ∧ ys.Perm xs ∧ InOrder ys := by
  obtain ⟨vs, run, sorts⟩ := sortBy_spec before (ranks_strings textOrEmpty) fun v first w second => by
    obtain ⟨x, -, rfl⟩ := mem_textItems.1 first
    obtain ⟨y, -, rfl⟩ := mem_textItems.1 second
    rfl
  have texts : textItems (vs.map textOrEmpty) = vs := by
    rw [textItems, List.map_map]
    refine (map_congr_left (g := id) fun v member => ?_).trans (map_id vs)
    obtain ⟨x, -, rfl⟩ := mem_textItems.1 (sorts.perm.mem_iff.1 member)
    rfl
  refine ⟨vs.map textOrEmpty, ?_, ?_, pairwise_map.2 (sorts.ordered.imp fun behind => by simpa using behind)⟩
  · rw [texts]
    exact run
  · have back : (textItems xs).map textOrEmpty = xs := by
      rw [textItems, List.map_map]
      exact map_id xs
    exact back ▸ sorts.perm.map textOrEmpty

theorem sorted_of_inOrder (ordered : InOrder xs) : sorted (textItems xs) = .ok (textItems xs) := by
  obtain ⟨ys, run, perm, ordered'⟩ := sorted_textItems xs
  rw [run, perm.eq_of_pairwise (fun _ _ _ _ first second => String.le_antisymm first second) ordered' ordered]

theorem sortedElements_again {xs : List Value} (listed : v = .null ∨ ∃ names, v = .texts names)
    (sorted_ : v.sortedElements = .ok xs) : (list xs).sortedElements = .ok xs := by
  have nothing : (list []).sortedElements = .ok [] := rfl
  rcases listed with rfl | ⟨names, rfl⟩
  · cases sorted_
    exact nothing
  · obtain ⟨ys, done, -, ordered⟩ := sorted_textItems names
    cases names with
    | nil =>
      cases sorted_
      exact nothing
    | cons n names =>
      obtain rfl : textItems ys = xs := Except.ok.inj (done.symm.trans sorted_)
      cases ys with
      | nil => exact nothing
      | cons y ys => exact sorted_of_inOrder ordered

end Folio.Value

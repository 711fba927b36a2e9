/-
# Proofs.Cv.Names -- entries of different names

Entries are addressed by their names, so two entries of one part should not have the same name.  Adding an entry looks
for its name first, and every other edit but one leaves the names alone or takes some away.  The one that does not is
setting the name of an entry: the names stay different exactly when no entry gets the name of another one, for one edit
(`Document.distinct_edited`) and for a run of operations (`distinct_along`).
-/
import Folio.Proofs.Cv.Coherence

namespace Folio.Cv

open Action Document Editing Fields List Value

variable {d' : Document} {e : Edit} {i : Nat} {kept v x x' : Value} {key name : String} {o : Operation}
  {p : Part} {s : Document × Workspace} {xs : List Value}

/-! ## Names -/

/-- Two names that no comparison takes for the same. -/
def Apart (a b : Value) : Prop := (a == b) = false ∧ (b == a) = false

instance (a b : Value) : Decidable (Apart a b) := inferInstanceAs (Decidable (_ ∧ _))

theorem Apart.symm {a b : Value} (apart : Apart a b) : Apart b a := ⟨apart.2, apart.1⟩

theorem apart_text {s : String} (other : (text s == v) = false) : Apart v (.text s) := by
  refine ⟨?_, other⟩
  cases same : v == text s with
  | false => rfl
  | true =>
    rw [eq_text_of_beq (Or.inl same)] at other
    simp [BEq.beq, Value.same] at other

def namesOf (p : Part) (xs : List Value) : List Value := xs.map fun x => x.getOrNull p.nameField

theorem names_eq {ns : List Value} (run : names p xs = .ok ns) : ns = namesOf p xs := by
  induction xs generalizing ns with
  | nil => exact (Except.ok.inj run).symm
  | cons x xs ih =>
    rw [names, mapM_cons] at run
    obtain ⟨name, first, run⟩ := ok_of_bind run
    obtain ⟨rest, others, run⟩ := ok_of_bind run
    cases run
    have read : x.getOrNull p.nameField = name := by
      split at first
      · exact getOrNull_of_fieldD first
      · rw [getOrNull, get?_of_field first, Option.getD_some]
    rw [namesOf, map_cons, read]
    exact congrArg _ (ih others)

theorem found_at {name : Value} (found : find? p name xs = .ok (some i)) : ∃ x, xs[i]? = some x ∧ x.isObject := by
  induction xs generalizing i with
  | nil => cases found
  | cons x xs ih =>
    obtain ⟨read, first, found⟩ := ok_of_bind found
    split at found
    · cases found
      exact ⟨x, rfl, isObject_of_fieldD first⟩
    · obtain ⟨later, rest, found⟩ := ok_of_bind found
      cases later with
      | none => cases found
      | some j =>
        obtain rfl : j + 1 = i := by simpa using Except.ok.inj found
        exact ih rest

/-! ## Entries and their names -/

theorem get?_filter {fs : Fields} {keep : String × Value → Bool}
    (found : get? fs key = some v) (kept : keep (key, v)) : get? (fs.filter keep) key = some v := by
  induction fs with
  | nil => cases found
  | cons f rest ih =>
    obtain ⟨k, w⟩ := f
    rw [get?_cons] at found
    by_cases here : key = k
    · rw [if_pos here] at found
      obtain rfl := Option.some.inj found
      subst here
      rw [filter_cons_of_pos kept, get?_cons, if_pos rfl]
    · rw [if_neg here] at found
      rw [filter_cons]
      split
      · rw [get?_cons, if_neg here, ih found]
      · exact ih found

theorem name_of_record {entry : Fields}
    (named : get? entry p.nameField = some (.text name)) (recorded : p.record entry = .ok kept) :
    kept.getOrNull p.nameField = .text name := by
  have present : get? (present entry) p.nameField = some (.text name) := get?_filter named rfl
  cases p with
  | awards =>
    obtain ⟨fields, award, recorded⟩ := ok_of_bind recorded
    cases recorded
    suffices get? fields "name" = some (.text name) by simp [getOrNull, Value.get?, this, Part.nameField]
    have without : get? ((Cv.present entry).filter fun f => f.1 != "website") "name" = some (.text name) :=
      get?_filter present (by simp)
    unfold awardRecord at award
    dsimp only at award
    split at award
    · cases award
      exact without
    · obtain ⟨highlights, -, award⟩ := ok_of_bind award
      cases award
      rw [get?_set, if_neg (by decide), without]
  | _ =>
    cases recorded
    simp [getOrNull, Value.get?, present]

theorem nameField_mem_editable (named : p.distinct) : p.nameField ∈ p.editable := by
  cases p with
  | experience => cases named
  | _ => simp [Part.nameField, Part.editable, Part.fields]

theorem eq_text_of_editable {field : Value} (valid : (p.editable.map text).contains field) : ∃ f, field = .text f := by
  rw [contains_eq_any_beq, any_eq_true] at valid
  obtain ⟨v, member, same⟩ := valid
  obtain ⟨f, -, rfl⟩ := mem_map.1 member
  exact ⟨f, eq_text_of_beq (Or.inl same)⟩

theorem name_of_assigned {value : Value} {field : String} (object : x.isObject)
    (set : assigned p x (.text field) value = .ok x') :
    x'.getOrNull p.nameField = if field = p.nameField then value else x.getOrNull p.nameField := by
  unfold assigned at set
  split at set
  · rename_i website
    obtain ⟨award, site⟩ := Bool.and_eq_true_iff.1 website
    obtain rfl : p = .awards := by simpa using award
    obtain rfl : field = "website" := by simpa [BEq.beq, Value.same] using site
    obtain ⟨highlights, -, set⟩ := ok_of_bind set
    obtain ⟨links, -, set⟩ := ok_of_bind set
    cases set
    exact getOrNull_set_ne _ (by decide) _
  · cases set
    split
    · rename_i own
      subst own
      exact getOrNull_set_self object _ _
    · rename_i other
      exact getOrNull_set_ne _ (Ne.symm other) _

theorem name_of_renewed {value : Value} (set : renewed p x value = .ok x') :
    x'.getOrNull p.nameField = x.getOrNull p.nameField := by
  cases p with
  | skills =>
    cases set
    exact getOrNull_set_ne _ (by decide) _
  | _ =>
    obtain ⟨text, -, set⟩ := ok_of_bind set
    cases set
    exact getOrNull_set_ne _ (by decide) _

/-- Different names stay different after an entry was replaced, exactly when the new one is none of the others. -/
theorem pairwise_set (there : xs[i]? = some x) (apart : (namesOf p xs).Pairwise Apart) :
    (namesOf p (xs.set i x')).Pairwise Apart ↔ ∀ j y, j ≠ i → xs[j]? = some y →
      Apart (x'.getOrNull p.nameField) (y.getOrNull p.nameField) := by
  obtain ⟨inside, rfl⟩ := List.getElem?_eq_some_iff.1 there
  rw [namesOf, pairwise_map, pairwise_iff_getElem] at apart ⊢
  constructor
  · intro pairs j y other there
    obtain ⟨within, rfl⟩ := List.getElem?_eq_some_iff.1 there
    rcases Nat.lt_or_gt_of_ne other with before | later
    · have pair := pairs j i (by simpa using within) (by simpa using inside) before
      simpa [Ne.symm other] using pair.symm
    · have pair := pairs i j (by simpa using inside) (by simpa using within) later
      simpa [Ne.symm other] using pair
  · intro free a b aIn bIn before
    rw [length_set] at aIn bIn
    have first := free a xs[a]
    have second := free b xs[b]
    by_cases atFirst : i = a
    · subst atFirst
      have apart := second (by omega) (getElem?_eq_getElem bIn)
      simpa [show i ≠ b by omega] using apart
    · by_cases atSecond : i = b
      · subst atSecond
        have apart := first (by omega) (getElem?_eq_getElem aIn)
        simpa [atFirst] using apart.symm
      · simpa [atFirst, atSecond] using apart a b aIn bIn before

theorem namesOf_set_self (there : xs[i]? = some x)
    (same : x'.getOrNull p.nameField = x.getOrNull p.nameField) : namesOf p (xs.set i x') = namesOf p xs := by
  obtain ⟨inside, rfl⟩ := List.getElem?_eq_some_iff.1 there
  have within : i < (namesOf p xs).length := by simpa [namesOf] using inside
  have own : (namesOf p xs)[i] = xs[i].getOrNull p.nameField := by simp [namesOf]
  rw [namesOf, map_set, same, ← own]
  exact set_getElem_self _

theorem pairwise_append (pairs : (namesOf p xs).Pairwise Apart) (named : kept.getOrNull p.nameField = .text name)
    (free : (namesOf p xs).contains (.text name) = false) : (namesOf p (xs ++ [kept])).Pairwise Apart := by
  rw [namesOf, map_append, List.pairwise_append]
  refine ⟨pairs, by simp, ?_⟩
  intro a member b new
  obtain rfl : b = .text name := by simpa [named] using new
  refine apart_text ?_
  rw [contains_eq_any_beq, any_eq_false] at free
  simpa using free a member

/-! ## Documents -/

namespace Document

variable {d : Document}

/-- The entries of a part have different names. -/
def Distinct (d : Document) (p : Part) : Prop := ∀ xs, d.list p = .ok (.list xs) → (namesOf p xs).Pairwise Apart

def distinct? (d : Document) (p : Part) : Bool :=
  match d.list p with
  | .ok (.list xs) => decide ((namesOf p xs).Pairwise Apart)
  | _ => true

theorem distinct?_iff : d.distinct? p ↔ d.Distinct p := by
  unfold distinct? Distinct
  split
  · rename_i xs list
    rw [decide_eq_true_iff, list]
    exact ⟨fun pairs ys same => by cases same; exact pairs, fun distinct => distinct xs rfl⟩
  · rename_i none_
    exact ⟨fun _ xs list => absurd list (none_ xs), fun _ => rfl⟩

instance (d : Document) (p : Part) : Decidable (d.Distinct p) := decidable_of_iff _ distinct?_iff

/-- An edit that gives an entry of a part the name of another one. -/
def Collides (d : Document) (p : Part) (e : Edit) : Prop :=
  ∃ name value xs i j y, e = .modify p name (.text p.nameField) value ∧ d.list p = .ok (.list xs) ∧
    find? p name xs = .ok (some i) ∧ j ≠ i ∧ xs[j]? = some y ∧ ¬ Apart value (y.getOrNull p.nameField)

def edited (d : Document) (e : Edit) : Document :=
  match d.apply e with
  | .error _ => d
  | .ok x => x.document

theorem distinct_iff (tended : d.Tended) (adopted : p ∈ adopted d.kind)
    (entries : d.entries p = .list xs) : d.Distinct p ↔ (namesOf p xs).Pairwise Apart := by
  obtain ⟨list, -⟩ := answers_of_entries tended.record (allowed_of_adopted tended.record adopted) entries
  unfold Distinct
  rw [list]
  exact ⟨fun distinct => distinct xs rfl, fun pairs ys same => by cases same; exact pairs⟩

theorem apply_rename {name : Value} (named : p.distinct)
    (allowed : d.needs p = .ok ()) (entries : d.entries p = .list xs) (found : find? p name xs = .ok (some i)) :
    d.apply (.modify p name (.text p.nameField) v) =
      .ok ⟨d.putEntries p (.list (xs.set i ((xs.getD i .null).set p.nameField v))),
        .outcome p (.changed (.text p.nameField)), true⟩ := by
  have valid : (p.editable.map text).contains (.text p.nameField) := by
    rw [contains_eq_any_beq, any_eq_true]
    exact ⟨_, mem_map_of_mem (nameField_mem_editable named), by simp [BEq.beq, Value.same]⟩
  have set : assigned p (xs.getD i .null) (.text p.nameField) v = .ok ((xs.getD i .null).set p.nameField v) := by
    cases p <;> rfl
  simp only [apply, modifyEntry, allowed, valid, entries, elements, found, set, Bind.bind, Except.bind]
  rfl

/-! ## Entries after an edit -/

theorem entries_congr (live : d.sections = .live) (live' : d'.sections = .live)
    (lists : listOf d'.data p = listOf d.data p) (slots : d'.slots p = d.slots p) : d'.entries p = d.entries p := by
  rw [entries_live live, entries_live live', lists, slots]

theorem Tended.entries_install (tended : d.Tended) (p q : Part) (v : Value) :
    (d.install p v).entries q = if q = p then v else d.entries q := by
  rw [install_live tended.live, entries_live tended.live, entries_live (by exact tended.live)]
  simp only [listOf_withList tended.record]
  by_cases here : q = p <;> simp [here]

theorem Tended.entries_putEntries (tended : d.Tended) (p q : Part) (v : Value) :
    (d.putEntries p v).entries q = if q = p then v else d.entries q := by
  cases slot : d.slots p with
  | live =>
    rw [putEntries_live tended.live slot, entries_live tended.live, entries_live (by exact tended.live)]
    simp only [listOf_withList tended.record]
    by_cases here : q = p
    · simp [here, slot]
    · simp [here]
  | kept old =>
    rw [putEntries_kept slot, entries_live tended.live, entries_live (by exact tended.live)]
    by_cases here : q = p <;> simp [here]

theorem Tended.entries_dropSection (tended : d.Tended) (other : name ≠ "summary") (p : Part) :
    (d.dropSection name).entries p = d.entries p := by
  rw [dropSection_live tended.live other]
  by_cases gone : p.inHeader = false ∧ p.key = name
  · rw [entries_live (by exact tended.live)]
    simp [if_pos gone]
  · exact entries_congr tended.live tended.live (listOf_erased tended.record gone) (if_neg gone)

theorem entries_of_elements {ys : List Value} (entries : d.entries p = .list xs)
    (elements : (d.entries p).elements = .ok ys) : xs = ys := by
  rw [entries] at elements
  exact Except.ok.inj elements

theorem Tended.entries_ready (tended : d.Tended)
    (ready : d.Ready p d') (list : d'.entries p = .list xs) : xs = [] ∨ d.entries p = .list xs := by
  rcases ready with ⟨-, rfl⟩ | ⟨-, rfl⟩
  · exact Or.inr list
  · rw [tended.entries_install, if_pos rfl] at list
    cases list
    exact Or.inl rfl

theorem Effect.pairwise {x : Edited} (effect : Effect d e x) (tended : d.Tended)
    (adopted : p ∈ adopted d.kind) (named : p.distinct)
    (entries : d.entries p = .list xs) (pairs : (namesOf p xs).Pairwise Apart) (free : ¬ d.Collides p e) :
    ∃ ys, x.document.entries p = .list ys ∧ (namesOf p ys).Pairwise Apart := by
  have same : x.document.entries p = d.entries p →
      ∃ ys, x.document.entries p = .list ys ∧ (namesOf p ys).Pairwise Apart :=
    fun same => ⟨xs, same.trans entries, pairs⟩
  have put {q : Part} {zs : List Value} (now : x.document.entries p = if p = q then .list zs else d.entries p)
      (own : p = q → (namesOf p zs).Pairwise Apart) :
      ∃ ys, x.document.entries p = .list ys ∧ (namesOf p ys).Pairwise Apart := by
    by_cases here : p = q
    · exact ⟨zs, by rw [now, if_pos here], own here⟩
    · exact same (by rw [now, if_neg here])
  cases effect with
  | nothing => exact same rfl
  | contact fields =>
    exact same (entries_congr tended.live tended.live
      (listOf_withHeader tended.record (same_withContact tended.record fields) p) rfl)
  | theme => exact same (entries_congr tended.live tended.live (listOf_withDesign _ p) rfl)
  | @summary text sections _ found =>
    have written : (object (set sections "summary" (.list [text]))) =
        (sectionsOf d.data).set "summary" (.list [text]) := by
      rw [← sectionsValue_live tended.live, sectionsValue_of_fields found]
      rfl
    rw [written, putSections_live tended.live] at same ⊢
    exact same (entries_congr tended.live tended.live (listOf_withSummary tended.record _ p) rfl)
  | made => exact put (tended.entries_install _ p _) fun _ => .nil
  | @added q _ _ _ d' zs others kept _ _ ready list called known new recorded =>
    have now := (tended.ready ready).1.entries_putEntries q p (.list (zs ++ [kept]))
    by_cases here : p = q
    · subst here
      refine ⟨_, by rw [now, if_pos rfl], ?_⟩
      rw [takenNames, if_pos named, list] at known
      rw [names_eq known] at new
      refine pairwise_append ?_ (name_of_record called recorded) new
      rcases tended.entries_ready ready list with rfl | old
      · exact .nil
      · rw [old] at entries
        cases entries
        exact pairs
    · refine same ?_
      rw [now, if_neg here]
      rcases ready with ⟨-, rfl⟩ | ⟨-, rfl⟩
      · rfl
      · rw [tended.entries_install, if_neg here]
  | @modified _ _ _ _ _ _ i _ allowed valid list found set =>
    refine put (tended.entries_putEntries _ p _) fun here => ?_
    subst here
    obtain rfl := entries_of_elements entries list
    obtain ⟨y, there, object⟩ := found_at found
    obtain ⟨f, rfl⟩ := eq_text_of_editable valid
    rw [getD_eq_getElem?_getD, there] at set
    have called := name_of_assigned object set
    by_cases own : f = p.nameField
    · subst own
      rw [if_pos rfl] at called
      rw [pairwise_set there pairs, called]
      intro j z other third
      by_contra collision
      have list := (answers_of_entries tended.record allowed entries).1
      exact free ⟨_, _, xs, _, j, z, rfl, list, found, other, third, collision⟩
    · rw [if_neg own] at called
      rw [namesOf_set_self there called]
      exact pairs
  | renewed _ allowed list found set =>
    refine put (tended.entries_putEntries _ p _) fun here => ?_
    subst here
    obtain rfl := entries_of_elements entries list
    obtain ⟨y, there, -⟩ := found_at found
    rw [getD_eq_getElem?_getD, there] at set
    rw [namesOf_set_self there (name_of_renewed set)]
    exact pairs
  | removed _ _ list =>
    refine put (tended.entries_putEntries _ p _) fun here => ?_
    subst here
    obtain rfl := entries_of_elements entries list
    exact pairs.sublist ((eraseIdx_sublist xs _).map _)
  | emptied => exact put (tended.entries_putEntries _ p _) fun _ => .nil
  | replaced => exact put (tended.entries_install _ p _) fun _ => .nil
  | dropped _ found later => exact same (tended.entries_dropSection (ne_summary_of_later tended found later) p)

theorem distinct_edited (tended : d.Tended) (named : p.distinct) (before : d.Distinct p)
    (e : Edit) : (d.edited e).Distinct p ↔ ¬ d.Collides p e := by
  constructor
  · rintro after ⟨name, value, xs, i, j, y, rfl, list, found, other, there, collision⟩
    by_cases adopted : p ∈ adopted d.kind
    · have allowed := allowed_of_adopted tended.record adopted
      obtain ⟨ys, entries⟩ := (tended.held p adopted).entries tended.live
      obtain rfl : ys = xs := by
        rw [(answers_of_entries tended.record allowed entries).1] at list
        cases list
        rfl
      have pairs := (distinct_iff tended adopted entries).1 before
      obtain ⟨x, own, object⟩ := found_at found
      have applied := apply_rename (v := value) named allowed entries found
      have effect := effect_of_apply applied
      have now := tended.entries_putEntries p p (.list (ys.set i ((ys.getD i .null).set p.nameField value)))
      rw [if_pos rfl] at now
      rw [edited, applied] at after
      have renamed := (distinct_iff (effect.tended tended) (by rwa [(effect.akin tended.live).kind]) now).1 after
      rw [getD_eq_getElem?_getD, own, Option.getD_some, pairwise_set own pairs, getOrNull_set_self object] at renamed
      exact collision (renamed j y other there)
    · rw [(answers_of_not_adopted tended.record adopted).1] at list
      cases list
  · intro free
    unfold edited
    cases applied : d.apply e with
    | error f => exact before
    | ok x =>
      have effect := effect_of_apply applied
      have kind := (effect.akin tended.live).kind
      by_cases adopted : p ∈ adopted d.kind
      · obtain ⟨xs, entries⟩ := (tended.held p adopted).entries tended.live
        have pairs := (distinct_iff tended adopted entries).1 before
        obtain ⟨ys, now, pairs⟩ := effect.pairwise tended adopted named entries pairs free
        exact (distinct_iff (effect.tended tended) (by rwa [kind]) now).2 pairs
      · intro ys list
        rw [(answers_of_not_adopted (effect.tended tended).record (by rwa [kind])).1] at list
        cases list

end Document

/-! ## Operations -/

variable {d : Document} {w : Workspace}

theorem tended_edit (tended : d.Tended) : ((edit e).outcome (d, w)).2.1.Tended := by
  rw [document_edit]
  cases applied : d.apply e with
  | error f => exact tended
  | ok x => exact (effect_of_apply applied).tended tended

theorem tended_after (os : List Operation) (tended : s.1.Tended) : (after os s).1.Tended :=
  keeps_after (P := fun s => s.1.Tended) (fun _ _ _ => id) (fun _ _ _ _ _ _ => tended_edit) tended

def Operation.Collides (o : Operation) (d : Document) (p : Part) : Prop := ∃ e, o = .edit e ∧ d.Collides p e

/-- An operation that sets no single field of an entry which says but one thing. -/
def Operation.Offered (o : Operation) : Prop :=
  ∀ p name field value, o = .edit (.modify p name field value) → p.saysOneThing = false

theorem Operation.not_collides_of_offered (offered : o.Offered) (one : p.saysOneThing) : ¬ o.Collides d p := by
  rintro ⟨e, rfl, name, value, xs, i, j, y, rfl, -⟩
  have other := offered p name _ value rfl
  rw [one] at other
  cases other

theorem Operation.distinct_run (tended : d.Tended) (named : p.distinct)
    (before : d.Distinct p) : (o.run.outcome (d, w)).2.1.Distinct p ↔ ¬ o.Collides d p := by
  cases o with
  | edit e =>
    have same : ((Operation.edit e).run.outcome (d, w)).2.1 = d.edited e := document_edit e
    rw [same, distinct_edited tended named before]
    constructor
    · rintro free ⟨_, same, collision⟩
      cases same
      exact free collision
    · exact fun free collision => free ⟨e, rfl, collision⟩
  | fromModel path =>
    refine ⟨?_, fun _ => ?_⟩
    · rintro - ⟨e, same, -⟩
      cases same
    refine (Operation.keeps (P := fun s => s.1.Tended ∧ s.1.Distinct p) (fun _ _ _ => id) ?_ ⟨tended, before⟩).2
    rintro e ⟨given, rfl⟩ d w ⟨tended, before⟩
    refine ⟨tended_edit tended, ?_⟩
    rw [document_edit]
    refine (distinct_edited tended named before (.add .projects given)).2 ?_
    rintro ⟨_, _, _, _, _, _, same, -⟩
    cases same

theorem distinct_along (os : List Operation) (tended : s.1.Tended)
    (named : p.distinct) (before : s.1.Distinct p) : (∀ n : Nat, (after (os.take n) s).1.Distinct p) ↔
      ∀ (n : Nat) (o : Operation), os[n]? = some o → ¬ o.Collides (after (os.take n) s).1 p := by
  have step {n : Nat} {o : Operation} (there : os[n]? = some o) (now : (after (os.take n) s).1.Distinct p) :
      (after (os.take (n + 1)) s).1.Distinct p ↔ ¬ o.Collides (after (os.take n) s).1 p := by
    have next : after (os.take (n + 1)) s = (o.run.outcome (after (os.take n) s)).2 := by
      simp [after, take_add_one, there]
    rw [next]
    exact Operation.distinct_run (tended_after _ tended) named now
  constructor
  · intro distinct n o there
    exact (step there (distinct n)).1 (distinct (n + 1))
  · intro free n
    induction n with
    | zero => exact before
    | succ n ih =>
      cases there : os[n]? with
      | some o => exact (step there ih).2 (free n o there)
      | none =>
        have all : os.length ≤ n := getElem?_eq_none_iff.1 there
        rw [take_of_length_le (by omega)]
        rwa [take_of_length_le all] at ih

/-! ## New documents -/

theorem pairwise_template (kind : Kind) (name : String) (theme : Value)
    (list : listOf (Template.record kind name theme) p = some (.list xs)) : (namesOf p xs).Pairwise Apart := by
  cases kind <;> cases p <;> cases list <;> decide

theorem distinct_new {overwrite : Bool} {s' : Document × Workspace}
    (generated : (generate name overwrite).outcome (d, w) = (.ok true, s))
    (loaded : (load none).outcome s = (.ok v, s')) (p : Part) : s'.1.Distinct p := by
  have tended := tended_new generated loaded
  obtain ⟨kind, -, -, -, opened, -⟩ := opened_new generated loaded
  by_cases adopted : p ∈ adopted s'.1.kind
  · obtain ⟨xs, entries⟩ := (tended.held p adopted).entries tended.live
    refine (distinct_iff tended adopted entries).2 ?_
    rw [opened.kind] at adopted
    rw [entries_live tended.live, opened.slots p adopted, opened.record,
      listOf_filled (isRecord_template _ _ _)] at entries
    cases list : listOf (Template.record d.kind (fileName name) d.theme) p with
    | none =>
      simp only [list] at entries
      cases entries
      exact .nil
    | some v =>
      simp only [list] at entries
      cases entries
      exact pairwise_template _ _ _ list
  · intro xs list
    rw [(answers_of_not_adopted tended.record adopted).1] at list
    cases list

/-- In a document that was made, loaded and then edited by any operations, the entries of a part have
different names all along, exactly when no operation gives an entry the name of another one.  Connections
and skills, of which no operation on offer sets the name, always have different names. -/
theorem distinct_unless_renamed {name : String} {overwrite : Bool} {v : Value} {s s' : Document × Workspace}
    (generated : (Editing.generate name overwrite).outcome (d, w) = (.ok true, s))
    (loaded : (Editing.load none).outcome s = (.ok v, s')) (os : List Operation) :
    (∀ p : Part, p.distinct = true →
      ((∀ n : Nat, (after (os.take n) s').1.Distinct p) ↔
        ∀ (n : Nat) (o : Operation), os[n]? = some o → ¬ o.Collides (after (os.take n) s').1 p)) ∧
    ((∀ o ∈ os, o.Offered) → ∀ p ∈ [Part.connections, Part.skills], ∀ n : Nat, (after (os.take n) s').1.Distinct p) := by
  have tended := tended_new generated loaded
  have along {p : Part} (named : p.distinct = true) :=
    distinct_along os tended named (distinct_new generated loaded p)
  refine ⟨fun p named => along named, fun offered p member => ?_⟩
  have one : p.saysOneThing = true ∧ p.distinct = true := by
    revert member p
    decide
  exact (along one.2).2 fun n o there => o.not_collides_of_offered (offered o (List.mem_of_getElem? there)) one.1

/-- A second project, an award, and no sample skill. -/
def distinctEdits : List Operation := [.edit (.add .projects [("name", .text "B")]),
  .edit (.add .awards [("name", .text "Prize")]), .edit (.remove .skills (.text "Tools"))]

theorem distinctEdits_distinct :
    (after distinctEdits newResume).1.count .projects = .ok 2 ∧
      (after (distinctEdits.take 3) newResume).1.Distinct .skills ∧
      ((∀ n : Nat, (after (distinctEdits.take n) newResume).1.Distinct .projects) ↔
        ∀ (n : Nat) (o : Operation), distinctEdits[n]? = some o →
          ¬ o.Collides (after (distinctEdits.take n) newResume).1 .projects) := by
  obtain ⟨v, loaded⟩ := loaded_newResume
  have offered : ∀ o ∈ distinctEdits, o.Offered := by
    intro o member p name field value same
    subst same
    simp [distinctEdits] at member
  obtain ⟨renamed, always⟩ := distinct_unless_renamed generated_madeResume loaded distinctEdits
  exact ⟨by decide +kernel, always offered .skills (by decide) 3, renamed .projects rfl⟩

def twice : List Operation := [.edit (.add .projects [("name", .text "B")]),
  .edit (.modify .projects (.text "B") (.text "name") (.text "Project Name"))]

theorem renamed_project_repeats : ¬ (after twice newResume).1.Distinct .projects := by
  decide +kernel

end Folio.Cv

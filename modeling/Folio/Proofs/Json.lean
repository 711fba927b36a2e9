/-
# Proofs.Json -- documents that can be written, and that strict reading gives

Writing times as texts works field by field (`get?_withTextTimes`).

The strict layout writes a document as `finite` has it: numbers without a written form become nothing, moments become
texts.  What it wrote it writes the same again (`finite_finite`), and whatever the strict reader takes from a text has
this form already (`finite_of_parseStrict`), by induction on the reader's three loops at once.
-/
import Folio.Disk
import Folio.Duration
import Folio.Proofs.Value

namespace Folio.Json

open Fields

variable {fs : Fields} {key : String} {v : Value}

theorem isPlainItems_eq_all (xs : List Value) : isPlainItems xs = xs.all isPlain := by
  induction xs with
  | nil => rfl
  | cons x xs ih => exact congrArg (isPlain x && ·) ih

theorem isPlainFields_eq_all (fs : Fields) : isPlainFields fs = fs.all (isPlain ·.2) := by
  induction fs with
  | nil => rfl
  | cons e fs ih => exact congrArg (isPlain e.2 && ·) ih

theorem isPlainItems_append (xs ys : List Value) : isPlainItems (xs ++ ys) = (isPlainItems xs && isPlainItems ys) := by
  simp [isPlainItems_eq_all]

theorem isPlainItems_iff {xs : List Value} : isPlainItems xs ↔ ∀ x ∈ xs, isPlain x := by
  rw [isPlainItems_eq_all, List.all_eq_true]

theorem isPlainFields_iff : isPlainFields fs ↔ ∀ e ∈ fs, isPlain e.2 := by
  rw [isPlainFields_eq_all, List.all_eq_true]

theorem isPlainItems_textItems (xs : List String) : isPlainItems (Value.textItems xs) := by
  induction xs with
  | nil => rfl
  | cons x xs ih => exact ih

theorem isPlain_texts (xs : List String) : isPlain (.texts xs) := isPlainItems_textItems xs

theorem isPlainFields_set (fs : Fields) (key : String) (v : Value) :
    isPlainFields (set fs key v) = (isPlain v && isPlainFields (set fs key .null)) := by
  induction fs with
  | nil => simp [Fields.set, isPlainFields, isPlain]
  | cons f rest ih =>
    obtain ⟨k, old⟩ := f
    by_cases here : k = key
    · simp [Fields.set, here, isPlainFields, isPlain]
    · simp only [Fields.set, beq_eq_false_iff_ne.2 here, Bool.false_eq_true, if_false, isPlainFields, ih]
      exact Bool.and_left_comm _ _ _

theorem isPlainFields_replace {old : Value} (there : get? fs key = some old)
    (alike : isPlain v = isPlain old) : isPlainFields (set fs key v) = isPlainFields fs := by
  rw [isPlainFields_set, alike, ← isPlainFields_set, set_of_get? there]

theorem isPlain_of_get? (plain : isPlainFields fs) (there : get? fs key = some v) : isPlain v := by
  rw [← set_of_get? there, isPlainFields_set, Bool.and_eq_true] at plain
  exact plain.1

theorem isPlain_getOrNull (plain : isPlain v) (key : String) : isPlain (v.getOrNull key) := by
  cases v with
  | object fs =>
    cases found : get? fs key with
    | none => rw [Value.getOrNull, Value.get?, found]; rfl
    | some w =>
      rw [Value.getOrNull, Value.get?, found]
      exact isPlain_of_get? plain found
  | _ => rfl

theorem isPlainFields_replace_set {other : String} {old : Value} (ne : other ≠ key)
    (there : get? fs key = some old) (alike : isPlain v = isPlain old) (u : Value) :
    isPlainFields (set (set fs key v) other u) = isPlainFields (set fs other u) := by
  induction fs with
  | nil => simp [get?] at there
  | cons f rest ih =>
    obtain ⟨k, x⟩ := f
    rw [get?_cons] at there
    by_cases here : k = key
    · subst here
      obtain rfl : x = old := by simpa using there
      simp [Fields.set, beq_eq_false_iff_ne.2 (Ne.symm ne), isPlainFields, alike]
    · rw [if_neg (Ne.symm here)] at there
      by_cases second : k = other
      · simp [Fields.set, second, ne, isPlainFields, isPlainFields_replace there alike]
      · simp [Fields.set, here, second, isPlainFields, ih there]

end Folio.Json

namespace Folio.Value

open Json

/-! ## Times as texts -/

theorem withTextTimesItems_textItems (xs : List String) : withTextTimesItems (textItems xs) = textItems xs := by
  induction xs with
  | nil => rfl
  | cons x xs ih => simp [withTextTimesItems, withTextTimes, ih]

theorem withTextTimes_texts (xs : List String) : (texts xs).withTextTimes = .texts xs := by
  exact congrArg list (withTextTimesItems_textItems xs)

theorem get?_withTextTimesFields (fs : Fields) (key : String) :
    Fields.get? (withTextTimesFields fs) key = (Fields.get? fs key).map withTextTimes := by
  induction fs with
  | nil => rfl
  | cons f fs ih =>
    rw [withTextTimesFields, Fields.get?_cons, Fields.get?_cons, ih]
    split
    · rfl
    · rfl

theorem get?_withTextTimes (v : Value) (key : String) : v.withTextTimes.get? key = (v.get? key).map withTextTimes := by
  cases v with
  | object fs =>
    exact get?_withTextTimesFields fs key
  | _ => simp [withTextTimes, get?]

theorem getOrNull_withTextTimes (v : Value) (key : String) :
    v.withTextTimes.getOrNull key = (v.getOrNull key).withTextTimes := by
  rw [getOrNull, get?_withTextTimes, getOrNull]
  cases v.get? key with
  | none => simp [withTextTimes]
  | some w => rfl

end Folio.Value

namespace Folio.Json

open Fields List Option Value

variable {fs : Fields} {v : Value}

/-! ## Parts of a document -/

variable (name : String → String) (change : Value → Value)

theorem transformItems_eq_map (xs : List Value) : transformItems name change xs = xs.map (transform name change) := by
  induction xs with
  | nil => rfl
  | cons x xs ih => rw [transformItems, ih, map_cons]

theorem transformFields_eq_map (fs : Fields) :
    transformFields name change fs = fs.map fun f => (name f.1, transform name change f.2) := by
  induction fs with
  | nil => rfl
  | cons f fs ih =>
    rw [transformFields, ih, map_cons]

@[simp] theorem finite_list (xs : List Value) : finite (.list xs) = .list (xs.map finite) := by
  rw [finite, transform, transformItems_eq_map]

@[simp] theorem finite_object (fs : Fields) : finite (.object fs) = .object (fs.map fun f => (f.1, finite f.2)) := by
  rw [finite, transform, transformFields_eq_map]
  rfl

@[simp] theorem finite_text (s : String) : finite (.text s) = .text s := rfl

@[simp] theorem finite_bool (b : Bool) : finite (.bool b) = .bool b := rfl

@[simp] theorem finite_null : finite .null = .null := rfl

@[simp] theorem finite_int (i : Int) : finite (.int i) = .int i := rfl

@[simp] theorem finite_span (d : Span) : finite (.span d) = .span d := rfl

@[simp] theorem finite_moment (t : Moment) : finite (.moment t) = .text t.iso := rfl

theorem finite_real (x : Float) : finite (.real x) = if isNumber x then .real x else .null := rfl

theorem finite_list_of {xs : List Value} (each : ∀ x ∈ xs, finite x = x) : finite (.list xs) = .list xs := by
  rw [finite_list, map_congr_left each, List.map_id']

theorem finite_object_of (each : ∀ f ∈ fs, finite f.2 = f.2) : finite (.object fs) = .object fs := by
  rw [finite_object, map_congr_left (g := id) fun f member => by rw [each f member]; rfl, List.map_id]

theorem finite_set (whole : finite (.object fs) = .object fs) (own : finite v = v)
    (key : String) : finite (.object (set fs key v)) = .object (set fs key v) := by
  refine finite_object_of fun f member => ?_
  rcases mem_set member with rfl | old
  · exact own
  · rw [finite_object, object.injEq] at whole
    have same := map_inj_left.mp (whole.trans (List.map_id fs).symm) f old
    exact congrArg Prod.snd same

mutual

theorem finite_finite : ∀ v : Value, finite (finite v) = finite v
  | .null | .bool _ | .int _ => by simp
  | .real x => by
      rw [finite_real]
      split
      · rename_i number
        rw [finite_real, if_pos number]
      · simp
  | .text _ => by simp
  | .list xs => by rw [finite_list, finite_list, finite_finite_items xs]
  | .object fs => by rw [finite_object, finite_object, finite_finite_fields fs]
  | .moment _ | .span _ => by simp

theorem finite_finite_items : ∀ xs : List Value, (xs.map finite).map finite = xs.map finite
  | [] => rfl
  | x :: xs => by rw [map_cons, map_cons, finite_finite x, finite_finite_items xs]

theorem finite_finite_fields : ∀ fs : List (String × Value),
    (fs.map fun f => (f.1, finite f.2)).map (fun f => (f.1, finite f.2)) = fs.map fun f => (f.1, finite f.2)
  | [] => rfl
  | (k, v) :: fs => by rw [map_cons, map_cons, finite_finite v, finite_finite_fields fs]

end

/-! ## What the strict reader takes -/

theorem finite_of_double {x : Float} (read : double? true x = some v) : finite v = v := by
  unfold double? at read
  split at read
  · cases read
  · rename_i number
    cases read
    rw [finite_real, if_pos (by simpa using number)]

theorem finite_of_numeral {n : Numeral} (read : n.value? true = some v) : finite v = v := by
  have whole {i : Int} (read : (if true && !(-0x8000000000000000 ≤ i && i < 0x10000000000000000) then
      double? true (Decimal.ofInt i) else some (.int i)) = some v) : finite v = v := by
    split at read
    · exact finite_of_double read
    · obtain rfl := some.inj read
      exact finite_int i
  unfold Numeral.value? at read
  split at read
  · exact whole read
  · exact finite_of_double read

theorem finite_of_number {cs rest : List Char} (read : number? true cs = some (v, rest)) : finite v = v := by
  obtain ⟨⟨n, more⟩, -, here⟩ := bind_eq_some_iff.mp read
  obtain ⟨u, value, same⟩ := bind_eq_some_iff.mp here
  cases same
  exact finite_of_numeral value

theorem finite_of_keyword {cs rest : List Char} (read : keyword? true cs = some (v, rest)) : finite v = v := by
  have word {w : String} {u : Value} (own : finite u = u)
      (read : (Text.dropHead? w.toList cs).map (fun r => (u, r)) = some (v, rest)) : finite v = v := by
    obtain ⟨_, -, same⟩ := map_eq_some_iff.mp read
    cases same
    exact own
  rcases or_eq_some_iff.mp (orElse_eq_or.symm.trans read) with null | ⟨-, read⟩
  · exact word finite_null null
  rcases or_eq_some_iff.mp (orElse_eq_or.symm.trans read) with true_ | ⟨-, read⟩
  · exact word (finite_bool true) true_
  rcases or_eq_some_iff.mp (orElse_eq_or.symm.trans read) with false_ | ⟨-, read⟩
  · exact word (finite_bool false) false_
  · cases read

/-- The reader's three loops at once: they give documents in strict form when what they have read so far is. -/
theorem finite_of_loops (fuel : Nat) : (∀ cs v rest, value? true fuel cs = some (v, rest) → finite v = v) ∧
    (∀ out cs v rest, (∀ x ∈ out, finite x = x) → items? true fuel out cs = some (v, rest) → finite v = v) ∧
    ∀ out cs v rest, finite (.object out) = .object out → fields? true fuel out cs = some (v, rest) → finite v = v := by
  induction fuel with
  | zero => exact ⟨by simp [value?], by simp [items?], by simp [fields?]⟩
  | succ fuel ih =>
    obtain ⟨value, items, fields⟩ := ih
    refine ⟨fun cs v rest read => ?_, fun out cs v rest known read => ?_, fun out cs v rest known read => ?_⟩
    · rw [value?.eq_def] at read
      dsimp only at read
      split at read
      · obtain ⟨r, -, same⟩ := map_eq_some_iff.mp read
        cases same
        exact finite_text _
      · split at read
        · cases read
          exact finite_list_of (by simp)
        · exact items [] _ v rest (by simp) read
      · split at read
        · cases read
          exact finite_object_of (by simp)
        · exact fields [] _ v rest (finite_object_of (by simp)) read
      · rcases or_eq_some_iff.mp (orElse_eq_or.symm.trans read) with word | ⟨-, number⟩
        · exact finite_of_keyword word
        · exact finite_of_number number
    · rw [items?.eq_def] at read
      dsimp only at read
      split at read
      · cases read
      · rename_i x more here
        have known' : ∀ y ∈ x :: out, finite y = y := forall_mem_cons.mpr ⟨value _ _ _ here, known⟩
        split at read
        · exact items _ _ v rest known' read
        · cases read
          exact finite_list_of fun y member => known' y (mem_reverse.mp member)
        · cases read
    · rw [fields?.eq_def] at read
      dsimp only at read
      split at read
      · split at read
        · cases read
        · rename_i key afterKey _
          split at read
          · split at read
            · cases read
            · rename_i x more here
              have known' := finite_set known (value _ _ _ here) key
              split at read
              · exact fields _ _ v rest known' read
              · cases read
                exact known'
              · cases read
          · cases read
      · cases read

theorem finite_of_parseStrict {s : String} (read : parseStrict s = .ok v) : finite v = v := by
  unfold parseStrict at read
  split at read
  · rename_i u taken
    cases read
    unfold parseStrict? parseWith? at taken
    dsimp only at taken
    split at taken
    · rename_i here
      split at taken
      · cases taken
        exact (finite_of_loops _).1 _ _ _ here
      · cases taken
    · cases taken
  · cases read

end Folio.Json

namespace Folio.Disk

open Json

theorem finite_of_strictDocument {d : Disk} {p : Path} (read : d.strictDocument p = .ok v) : finite v = v := by
  unfold strictDocument at read
  cases held : d.content p with
  | error f => rw [held] at read; cases read
  | ok c =>
    simp only [held, Bind.bind, Except.bind] at read
    split at read
    · split at read
      · cases read
        exact finite_finite _
      · exact finite_of_parseStrict read
    · split at read
      · exact finite_of_parseStrict read
      · cases read

end Folio.Disk

/-
# Proofs.Duration -- durations and their texts

A whole number of seconds is told in days, hours, minutes and seconds (`amounts`).  A text tells it: going through the
characters, digits make up a number, and the first letter of a unit adds so many seconds for each (`tally`).  So no two
such durations have the same text.

The times that an estimate rests on are those of the files of a hierarchy at any depth (`Files`), and it is the distance
between the first and the last of them (`Spans`).
-/
import Folio.Duration
import Folio.Proofs.Value
import Mathlib

namespace Folio.Decimal

theorem roundDiv_mul (k : Nat) {den : Nat} (positive : 0 < den) : roundDiv (k * den) den = k := by
  simp [roundDiv, positive]

/-- A whole quotient below `2 ^ 53` is a double. -/
theorem nearest_whole {n den : Nat} (positive : 0 < den) (small : n < 2 ^ 53) :
    let x := scaledFraction (nearest (n * den) den).1 (nearest (n * den) den).2 0
    x.1 / x.2 = n := by
  have low : leading (n * den) den ≤ 52 := by
    unfold leading
    split
    · rw [Nat.mul_div_cancel n positive]
      by_cases zero : n = 0
      · simp [zero]
      · have := (Nat.log2_lt zero).2 small
        omega
    · omega
  unfold nearest
  have sign : max (leading (n * den) den - 52) (-1074) ≤ 0 := by omega
  generalize max (leading (n * den) den - 52) (-1074) = exponent at sign
  match exponent with
  | .ofNat e =>
    obtain rfl : e = 0 := by simpa using sign
    simp [scaledFraction, roundDiv_mul n positive]
  | .negSucc e =>
    simp only [scaledFraction]
    rw [Nat.mul_right_comm, roundDiv_mul _ positive]
    simp

end Folio.Decimal

namespace Folio.Span

open List Nat

variable {n : Int} {parts : List (Nat × String)} {unit : String}

theorem wholeSeconds_whole (short : n.natAbs < 2 ^ 53) : wholeSeconds ⟨n * 1000000⟩ = n.natAbs := by
  have size : (n * 1000000).natAbs = n.natAbs * 1000000 := by omega
  simp only [wholeSeconds, size]
  exact Decimal.nearest_whole (by decide) short

def units : List String := ["day", "hour", "minute", "second"]

def secondsIn (unit : String) : Nat :=
  if unit = "day" then 86400 else if unit = "hour" then 3600 else if unit = "minute" then 60 else 1

/-- Amounts in falling units, none of them nothing or so much as a larger unit, that make a number of seconds. -/
structure Splits (parts : List (Nat × String)) (seconds : Nat) : Prop where
  falling : (parts.map (·.2)).Sublist units
  some_ : ∀ a ∈ parts, a.1 ≠ 0
  below : ∀ a ∈ parts, a.2 ≠ "day" → a.1 < if a.2 = "hour" then 24 else 60
  sum : (parts.map fun a => a.1 * secondsIn a.2).sum = seconds

theorem splits_amounts (n : Nat) : Splits (amounts n) n where
  falling := filter_sublist.map _
  some_ a member := by simpa using (mem_filter.1 member).2
  below a member := by
    have listed := (mem_filter.1 member).1
    simp only [mem_cons, not_mem_nil, or_false] at listed
    rcases listed with rfl | rfl | rfl | rfl <;> simp <;> omega
  sum := by
    have kept (xs : List (Nat × String)) : ((xs.filter fun a => a.1 != 0).map fun a => a.1 * secondsIn a.2).sum =
        (xs.map fun a => a.1 * secondsIn a.2).sum := by
      induction xs with
      | nil => rfl
      | cons a xs ih => by_cases none_ : a.1 = 0 <;> simp [none_, ih]
    rw [amounts, kept]
    simp [secondsIn]
    omega

/-! ## What a text tells -/

/-- The seconds that each of a number counts for when a character follows it; only units weigh anything. -/
def weight (c : Char) : Nat :=
  match c with
  | 'd' => 86400
  | 'h' => 3600
  | 'm' => 60
  | 's' => 1
  | _ => 0

/-- The seconds told so far and the number that no unit was told for yet, one character later. -/
def tally (told : Nat × Nat) (c : Char) : Nat × Nat :=
  if c.isDigit then (told.1, 10 * told.2 + (c.toNat - '0'.toNat))
  else (told.1 + told.2 * weight c, if weight c = 0 then told.2 else 0)

theorem tally_digits {cs : List Char} (digits : ∀ c ∈ cs, c.isDigit) (told : Nat × Nat) :
    cs.foldl tally told = (told.1, ofDigitChars 10 cs told.2) := by
  induction cs generalizing told with
  | nil => rfl
  | cons c cs ih =>
    rw [foldl_cons, ih fun x later => digits x (mem_cons_of_mem c later), tally, if_pos (digits c mem_cons_self)]
    rfl

theorem tally_amount (member : unit ∈ units) (n seconds : Nat) :
    (amount n unit).toList.foldl tally (seconds, 0) = (seconds + n * secondsIn unit, 0) := by
  have number : (toDigits 10 n).foldl tally (seconds, 0) = (seconds, n) := by
    rw [tally_digits fun c => isDigit_of_mem_toDigits (by decide) (by decide),
      ofDigitChars_toDigits (by decide) (by decide)]
  simp only [amount, String.toList_append, foldl_append, toString_eq_ofList_toDigits, String.toList_ofList, number]
  simp only [units, mem_cons, not_mem_nil, or_false] at member
  rcases member with rfl | rfl | rfl | rfl <;> split <;> simp [tally, weight, secondsIn]

theorem join_cons_cons (sep x y : String) (xs : List String) :
    (Text.join sep (x :: y :: xs)).toList = x.toList ++ (sep.toList ++ (Text.join sep (y :: xs)).toList) := by
  rw [Text.join, String.intercalate_cons_cons, String.toList_append, String.toList_append, append_assoc, ← Text.join]

/-- The text of amounts, and whether it is told with a minus. -/
def textOf (negative : Bool) (parts : List (Nat × String)) : String :=
  (if negative then "-" else "") ++ Text.join ", " (parts.map fun a => amount a.1 a.2)

theorem tally_joined (members : ∀ a ∈ parts, a.2 ∈ units) (seconds : Nat) :
    (Text.join ", " (parts.map fun a => amount a.1 a.2)).toList.foldl tally (seconds, 0) =
      (seconds + (parts.map fun a => a.1 * secondsIn a.2).sum, 0) := by
  induction parts generalizing seconds with
  | nil => rfl
  | cons a parts ih =>
    have first := tally_amount (members a mem_cons_self) a.1 seconds
    have rest := ih (fun b later => members b (mem_cons_of_mem a later)) (seconds + a.1 * secondsIn a.2)
    cases parts with
    | nil => simpa [Text.join] using first
    | cons b parts =>
      have comma (t : Nat) : ", ".toList.foldl tally (t, 0) = (t, 0) := by simp [tally]
      rw [map_cons] at rest ⊢
      rw [map_cons, join_cons_cons, foldl_append, foldl_append, first, comma, rest, Nat.add_assoc]
      rfl

theorem head?_joined (some_ : parts ≠ []) :
    (Text.join ", " (parts.map fun a => amount a.1 a.2)).toList.head? ≠ some '-' := by
  obtain ⟨a, rest, rfl⟩ := exists_cons_of_ne_nil some_
  obtain ⟨c, cs, first⟩ := exists_cons_of_ne_nil (toDigits_ne_nil (n := a.1) (b := 10))
  have digit : c.isDigit :=
    isDigit_of_mem_toDigits (by decide) (by decide) (first ▸ mem_cons_self : c ∈ toDigits 10 a.1)
  intro minus
  have same : c = '-' := by cases rest <;> simpa [Text.join, amount, first] using minus
  rw [same] at digit
  cases digit

theorem amounts_ne_nil {n : Nat} (some_ : n ≠ 0) : amounts n ≠ [] := by
  intro none_
  have sum := (splits_amounts n).sum
  rw [none_] at sum
  exact some_ sum.symm

theorem described_whole (short : n.natAbs < 2 ^ 53) (some_ : n ≠ 0) :
    described ⟨n * 1000000⟩ = textOf (n < 0) (amounts n.natAbs) := by
  have parts := isEmpty_eq_false_iff.2 (amounts_ne_nil (Int.natAbs_ne_zero.2 some_))
  have sign : n * 1000000 < 0 ↔ n < 0 := by omega
  have zero : (n * 1000000 == 0) = false := beq_eq_false_iff_ne.2 (by omega)
  simp only [described, describeSeconds, wholeSeconds_whole short, sign, zero, parts, Bool.false_eq_true, if_false]
  rw [if_neg (by simp [some_])]
  simp [textOf]

/-- The text of a whole number of seconds tells it: whether it is negative, and how many seconds it is. -/
theorem told_of_described (short : n.natAbs < 2 ^ 53) : ((described ⟨n * 1000000⟩).toList.head? = some '-' ↔ n < 0) ∧
      (described ⟨n * 1000000⟩).toList.foldl tally (0, 0) = (n.natAbs, 0) := by
  by_cases zero : n = 0
  · subst zero
    exact ⟨iff_of_false (by decide) (by decide), by decide +kernel⟩
  · have splits := splits_amounts n.natAbs
    have tallied := tally_joined (fun a member => splits.falling.subset (mem_map_of_mem member)) 0
    have head := head?_joined (amounts_ne_nil (Int.natAbs_ne_zero.2 zero))
    rw [splits.sum, Nat.zero_add] at tallied
    rw [described_whole short zero, textOf]
    by_cases negative : n < 0
    · simp only [negative, String.toList_append, foldl_append]
      exact ⟨by simp, tallied⟩
    · simp only [negative]
      exact ⟨iff_of_false head (by simp), tallied⟩

/-- The text of a whole number of seconds lists its amounts in falling units, none of them nothing, and no two such
numbers have the same text. -/
theorem described_unambiguous (short : n.natAbs < 2 ^ 53) :
    (n = 0 → described ⟨n * 1000000⟩ = "0 seconds") ∧
    (n ≠ 0 → ∃ parts, Splits parts n.natAbs ∧ described ⟨n * 1000000⟩ = (if n < 0 then "-" else "") ++
      Text.join ", " (parts.map fun a => toString a.1 ++ " " ++ a.2 ++ if a.1 = 1 then "" else "s")) ∧
    ((described ⟨n * 1000000⟩).toList.head? = some '-' ↔ n < 0) ∧
    ∀ m : Int, m.natAbs < 2 ^ 53 → described ⟨m * 1000000⟩ = described ⟨n * 1000000⟩ → m = n := by
  obtain ⟨sign, seconds⟩ := told_of_described short
  refine ⟨fun zero => by rw [zero]; rfl, fun some_ => ⟨_, splits_amounts n.natAbs, ?_⟩, sign, fun m short' same => ?_⟩
  · simpa [textOf, amount] using described_whole short some_
  · obtain ⟨sign', seconds'⟩ := told_of_described short'
    rw [same, seconds] at seconds'
    rw [same, sign] at sign'
    have size := (Prod.mk.inj seconds').1
    omega

/-- A day, an hour, a minute and a second back in time. -/
theorem described_back : (-90061 : Int).natAbs < 2 ^ 53 ∧
    described ⟨-90061 * 1000000⟩ = "-1 day, 1 hour, 1 minute, 1 second" ∧
    ∀ m : Int, m.natAbs < 2 ^ 53 → described ⟨m * 1000000⟩ = "-1 day, 1 hour, 1 minute, 1 second" → m = -90061 := by
  have short : (-90061 : Int).natAbs < 2 ^ 53 := by decide
  have text : described ⟨-90061 * 1000000⟩ = "-1 day, 1 hour, 1 minute, 1 second" := by decide +kernel
  exact ⟨short, text, text ▸ (described_unambiguous short).2.2.2⟩

end Folio.Span

namespace Folio.Duration

open List

/-! ## The files of a hierarchy -/

def Children (v : Value) (xs : List Value) : Prop := v.get? "children" = some (.list xs)

/-- A directory with some nodes in it. -/
def Holds (d : Value) (xs : List Value) : Prop := d.get? "type" = some (.text "DIR") ∧ Children d xs

/-- Nodes of a hierarchy and the times of the files among them and below them; the times are told with a zone, or all of
them without. -/
inductive Files (zoned : Bool) : List Value → List Moment → Prop
  | nil : Files zoned [] []
  | dated {x kind : Value} {xs : List Value} {t : Moment} {ts : List Moment} : x.get? "type" = some kind →
      kind ≠ .text "DIR" → x.getOrNull "modified" = .moment t → t.offset.isSome = zoned → Files zoned xs ts →
      Files zoned (x :: xs) (t :: ts)
  | undated {x kind : Value} {xs : List Value} {ts : List Moment} : x.get? "type" = some kind →
      kind ≠ .text "DIR" → (x.getOrNull "modified").truthy = false → Files zoned xs ts → Files zoned (x :: xs) ts
  | dir {d : Value} {inner xs : List Value} {ts us : List Moment} : Holds d inner → Files zoned inner ts →
      Files zoned xs us → Files zoned (d :: xs) (ts ++ us)

variable {zoned more : Bool} {v x d : Value} {xs ys : List Value} {ts us : List Moment}

theorem field_of_get? {key : String} (found : v.get? key = some x) : v.field key = .ok x := by
  cases v <;> simp_all [Value.get?, Value.field]

theorem marks_of_children (children : Children v xs) : marks v = marksOfItems xs := by
  cases v with
  | object fs =>
    change Fields.get? fs "children" = _ at children
    rw [marks]
    induction fs with
    | nil => cases children
    | cons f fs ih =>
      rw [Fields.get?_cons] at children
      rw [marksOfFields]
      split at children
      · rename_i own
        simp [← own, Option.some.inj children, marksOfChildren]
      · rename_i other
        simp [Ne.symm other, ih children]
  | _ => cases children

theorem marksOfItems_file {kind : Value} (typed : x.get? "type" = some kind) (file : kind ≠ .text "DIR") :
    marksOfItems (x :: xs) = (marksOfItems xs).map
      ((if (x.getOrNull "modified").truthy then [x.getOrNull "modified"] else []) ++ ·) := by
  have other : kind.same (.text "DIR") = false := by cases kind <;> simp_all [Value.same]
  have mark : x.fieldD "modified" .null = .ok (x.getOrNull "modified") := by cases x <;> first | rfl | cases typed
  rw [marksOfItems, field_of_get? typed]
  simp only [bind, Except.bind, other, mark]
  cases marksOfItems xs <;> rfl

theorem marksOfItems_of_files (files : Files zoned xs ts) : marksOfItems xs = .ok (ts.map .moment) := by
  induction files with
  | nil => rfl
  | dated typed file mark _ _ ih =>
    rw [marksOfItems_file typed file, ih, mark]
    rfl
  | undated typed file mark _ ih =>
    rw [marksOfItems_file typed file, ih, mark]
    rfl
  | dir holds _ _ ih ih' =>
    rw [marksOfItems, field_of_get? holds.1, marks_of_children holds.2, ih, ih', map_append]
    rfl

theorem zones_of_files (files : Files zoned xs ts) : ∀ t ∈ ts, t.offset.isSome = zoned := by
  induction files with
  | nil => simp
  | dated _ _ _ zone _ ih => exact forall_mem_cons.2 ⟨zone, ih⟩
  | undated _ _ _ _ ih => exact ih
  | dir _ _ _ ih ih' => exact forall_mem_append.2 ⟨ih, ih'⟩

/-! ## The first and the last of them -/

theorem firstBy_moments (less : Value → Value → Except Fault Bool) (key : Moment → Int) {best : Moment}
    (decides : ∀ s t : Moment, s.offset.isSome = zoned → t.offset.isSome = zoned →
      less (.moment s) (.moment t) = .ok (key s < key t)) (zones : ∀ t ∈ best :: ts, t.offset.isSome = zoned) :
    ∃ first ∈ best :: ts, firstBy less (.moment best) (ts.map .moment) = .ok (.moment first) ∧
      ∀ t ∈ best :: ts, key first ≤ key t := by
  induction ts generalizing best with
  | nil => exact ⟨best, mem_cons_self, rfl, by simp⟩
  | cons x ts ih =>
    have next : firstBy less (.moment best) ((x :: ts).map .moment) =
        firstBy less (.moment (if key x < key best then x else best)) (ts.map .moment) := by
      rw [map_cons, firstBy, decides x best (zones x (by simp)) (zones best (by simp))]
      by_cases earlier : key x < key best <;> simp [earlier, bind, Except.bind]
    rw [next]
    obtain ⟨first, member, run, least⟩ := @ih (if key x < key best then x else best) (by grind)
    exact ⟨first, by grind, run, by grind⟩

/-- An estimate is the distance between the first and the last of some times, and fails without any. -/
def Spans (ts : List Moment) : Except Fault Estimate → Prop
  | .error _ => ts = []
  | .ok e => ∃ first ∈ ts, ∃ last ∈ ts, e.delta = ⟨last.instant - first.instant⟩ ∧
      ∀ t ∈ ts, first.instant ≤ t.instant ∧ t.instant ≤ last.instant

theorem spans_estimate (children : Children v xs) (files : Files zoned xs ts) : Spans ts (estimate v) := by
  have zones := zones_of_files files
  rw [estimate, ends, marks_of_children children, marksOfItems_of_files files]
  cases ts with
  | nil => rfl
  | cons t ts =>
    obtain ⟨first, own, firstRun, least⟩ := firstBy_moments Value.before Moment.instant
      (fun s t zone zone' => by simp [Value.before, zone, zone']) zones
    obtain ⟨last, own', lastRun, greatest⟩ := firstBy_moments (fun a b => Value.before b a) (fun t => -t.instant)
      (fun s t zone zone' => by simp [Value.before, zone, zone']) zones
    simp only [map_cons, firstRun, lastRun, bind, Except.bind]
    exact ⟨first, own, last, own', rfl, fun t member => ⟨least t member, Int.neg_le_neg_iff.1 (greatest t member)⟩⟩

variable {run run' : Except Fault Estimate}

theorem Spans.grows (spans : Spans ts run) (spans' : Spans us run')
    (within_ : ts ⊆ us) {e : Estimate} (ok : run = .ok e) : ∃ e', run' = .ok e' ∧ e.delta.micros ≤ e'.delta.micros := by
  subst ok
  obtain ⟨first, own, last, own', delta, -⟩ := spans
  cases run' with
  | error f => exact absurd (within_ own) (by simp [show us = [] from spans'])
  | ok e' =>
    obtain ⟨first', -, last', -, delta', extreme⟩ := spans'
    refine ⟨e', rfl, ?_⟩
    have before := extreme first (within_ own)
    have after := extreme last (within_ own')
    simp only [delta, delta']
    omega

theorem Spans.eq (spans : Spans ts run) (spans' : Spans us run')
    (within_ : ts ⊆ us) (within' : us ⊆ ts) : run'.toOption.map (·.delta) = run.toOption.map (·.delta) := by
  cases run with
  | error f =>
    cases run' with
    | error g => rfl
    | ok e' =>
      obtain ⟨_, ⟨⟩, -⟩ := spans'.grows spans within' rfl
  | ok e =>
    obtain ⟨e', rfl, longer⟩ := spans.grows spans' within_ rfl
    obtain ⟨_, ⟨⟩, shorter⟩ := spans'.grows spans within' rfl
    exact congrArg (fun n => some (Span.mk n)) (Int.le_antisymm shorter longer)

/-! ## Other hierarchies of the same files -/

/-- Nodes are put elsewhere: in another order, into a directory of their own, and inside of directories.  Others may be
added. -/
inductive Moves (zoned more : Bool) : List Value → List Value → Prop
  | order {xs ys : List Value} : xs.Perm ys → Moves zoned more xs ys
  | wrap {d : Value} {xs ys : List Value} : Holds d xs → Moves zoned more (xs ++ ys) (d :: ys)
  | inside {d d' : Value} {xs ys zs : List Value} : Holds d xs → Holds d' ys → Moves zoned more xs ys →
      Moves zoned more (d :: zs) (d' :: zs)
  | add {x : Value} {xs : List Value} {ts : List Moment} : more → Files zoned [x] ts → Moves zoned more xs (x :: xs)
  | trans {xs ys zs : List Value} : Moves zoned more xs ys → Moves zoned more ys zs → Moves zoned more xs zs

theorem files_append : Files zoned (xs ++ ys) ts ↔ ∃ as bs, Files zoned xs as ∧ Files zoned ys bs ∧ ts = as ++ bs := by
  constructor
  · intro files
    induction xs generalizing ts with
    | nil => exact ⟨[], ts, .nil, files, rfl⟩
    | cons x xs ih =>
      cases files with
      | dated typed file mark zone rest =>
        obtain ⟨as, bs, first, second, rfl⟩ := ih rest
        exact ⟨_ :: as, bs, .dated typed file mark zone first, second, rfl⟩
      | undated typed file mark rest =>
        obtain ⟨as, bs, first, second, rfl⟩ := ih rest
        exact ⟨as, bs, .undated typed file mark first, second, rfl⟩
      | @dir _ _ _ own _ holds inner rest =>
        obtain ⟨as, bs, first, second, rfl⟩ := ih rest
        exact ⟨own ++ as, bs, .dir holds inner first, second, (append_assoc ..).symm⟩
  · rintro ⟨as, bs, first, second, rfl⟩
    induction first with
    | nil => exact second
    | dated typed file mark zone _ ih => exact .dated typed file mark zone ih
    | undated typed file mark _ ih => exact .undated typed file mark ih
    | dir holds inner _ _ ih =>
      rw [append_assoc]
      exact .dir holds inner ih

theorem files_perm (perm : xs.Perm ys) (files : Files zoned xs ts) : ∃ us, Files zoned ys us ∧ ts.Perm us := by
  have cut {x : Value} {zs : List Value} := @files_append zoned [x] zs
  induction perm generalizing ts with
  | nil => exact ⟨ts, files, .refl _⟩
  | cons x _ ih =>
    obtain ⟨as, bs, first, rest, rfl⟩ := cut.1 files
    obtain ⟨us, files', perm'⟩ := ih rest
    exact ⟨as ++ us, cut.2 ⟨as, us, first, files', rfl⟩, perm'.append_left as⟩
  | swap x y zs =>
    obtain ⟨as, _, first, others, rfl⟩ := cut.1 files
    obtain ⟨bs, cs, second, rest, rfl⟩ := cut.1 others
    refine ⟨bs ++ (as ++ cs), cut.2 ⟨bs, _, second, cut.2 ⟨as, cs, first, rest, rfl⟩, rfl⟩, ?_⟩
    rw [← append_assoc, ← append_assoc]
    exact perm_append_comm.append_right cs
  | trans _ _ ih ih' =>
    obtain ⟨us, files', perm⟩ := ih files
    obtain ⟨vs, files'', perm'⟩ := ih' files'
    exact ⟨vs, files'', perm.trans perm'⟩

theorem Moves.files (moves : Moves zoned more xs ys) (files : Files zoned xs ts) :
    ∃ us, Files zoned ys us ∧ ts ⊆ us ∧ (more = false → us ⊆ ts) := by
  induction moves generalizing ts with
  | order perm =>
    obtain ⟨us, files', perm'⟩ := files_perm perm files
    exact ⟨us, files', perm'.subset, fun _ => perm'.symm.subset⟩
  | wrap holds =>
    obtain ⟨as, bs, inner, rest, rfl⟩ := files_append.1 files
    exact ⟨as ++ bs, .dir holds inner rest, List.Subset.refl _, fun _ => List.Subset.refl _⟩
  | inside holds holds' _ ih =>
    cases files with
    | dated typed file | undated typed file => exact absurd (Option.some.inj (typed.symm.trans holds.1)) file
    | dir found inner rest =>
      cases holds.2.symm.trans found.2
      obtain ⟨us, files', grows, same⟩ := ih inner
      refine ⟨_, .dir holds' files' rest, ?_, fun nothing => ?_⟩
      · exact append_subset.2 ⟨subset_append_of_subset_left _ grows, subset_append_right _ _⟩
      · exact append_subset.2 ⟨subset_append_of_subset_left _ (same nothing), subset_append_right _ _⟩
  | add more_ own =>
    exact ⟨_, (@files_append zoned [_] _ _).2 ⟨_, ts, own, files, rfl⟩, subset_append_right _ _, by simp [more_]⟩
  | trans _ _ ih ih' =>
    obtain ⟨us, files', grows, same⟩ := ih files
    obtain ⟨vs, files'', grows', same'⟩ := ih' files'
    exact ⟨vs, files'', List.Subset.trans grows grows', fun nothing => List.Subset.trans (same' nothing) (same nothing)⟩

/-- The estimate is the distance between the first and the last change of the files, and fails if none has a time.  So
it stays as it is when nodes are put elsewhere, and does not shrink when files are added. -/
theorem estimate_spans_files (children : Children v xs) (files : Files zoned xs ts) :
    Spans ts (estimate v) ∧ (∀ e, estimate v = .ok e → 0 ≤ e.delta.micros) ∧
    ∀ v' ys more, Children v' ys → Moves zoned more xs ys →
      (more = false → (estimate v').toOption.map (·.delta) = (estimate v).toOption.map (·.delta)) ∧
      ∀ e, estimate v = .ok e → ∃ e', estimate v' = .ok e' ∧ e.delta.micros ≤ e'.delta.micros := by
  have spans := spans_estimate children files
  refine ⟨spans, fun e ok => ?_, fun v' ys more listed moves => ?_⟩
  · obtain ⟨first, own, last, -, delta, extreme⟩ := ok ▸ spans
    have := extreme first own
    simp only [delta]
    omega
  · obtain ⟨us, files', grows, same⟩ := moves.files files
    have spans' := spans_estimate listed files'
    exact ⟨fun nothing => spans.eq spans' grows (same nothing), fun e => spans.grows spans' grows⟩

def dated (modified : Value) : Value := .object [("type", .text "py"), ("modified", modified)]

def folder (xs : List Value) : Value := .object [("type", .text "DIR"), ("children", .list xs)]

/-- A file, one without a time, and one further down. -/
def threeFiles : List Value := [dated (.moment ⟨5, none⟩), dated .null, folder [dated (.moment ⟨2, none⟩)]]

theorem three_files_span : Files false threeFiles [⟨5, none⟩, ⟨2, none⟩] ∧
    Spans [⟨5, none⟩, ⟨2, none⟩] (estimate (folder threeFiles)) ∧
    (estimate (folder threeFiles)).toOption.map (·.delta) = some ⟨3⟩ := by
  have other : (.text "py" : Value) ≠ .text "DIR" := by simp
  have holds (xs : List Value) : Holds (folder xs) xs := ⟨rfl, rfl⟩
  have below : Files false [dated (.moment ⟨2, none⟩)] [⟨2, none⟩] := .dated rfl other rfl rfl .nil
  have files : Files false threeFiles [⟨5, none⟩, ⟨2, none⟩] :=
    .dated rfl other rfl rfl (.undated rfl other rfl (.dir (holds _) below .nil))
  exact ⟨files, (estimate_spans_files (holds _).2 files).1, by decide +kernel⟩

end Folio.Duration

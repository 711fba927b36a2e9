/-
# Proofs.Calendar -- days, dates and moments that are written and read back

Dates and clocks are written with leading zeros and read by their width (`digits?_zeroPadded`).  `dateOf` cuts a number
of days into eras of 400 years, centuries, groups of four years and single years, and goes through the months.  No piece
is too long (`pieces_of`), so what is found is a date of the calendar, and counting the days up to it gives the number
back (`dateOf_spec`).  So moments of universal time, and those without a zone, are read back (`ofIso?_textWith`).
-/
import Folio.Calendar
import Mathlib.Algebra.Group.Nat.Defs
import Mathlib.Data.List.Basic

namespace Folio

open List Nat

/-! ## Numbers of a fixed width -/

variable {width n : Nat} {c : Char}

theorem toList_zeroPadded (width n : Nat) :
    (zeroPadded width n).toList = replicate (width - (toDigits 10 n).length) '0' ++ toDigits 10 n := by
  rw [zeroPadded, Text.padStart, toString_eq_ofList_toDigits]
  simp

theorem isDigit_of_mem_zeroPadded (member : c ∈ (zeroPadded width n).toList) : c.isDigit := by
  rw [toList_zeroPadded] at member
  rcases mem_append.1 member with pad | digit
  · rw [eq_of_mem_replicate pad]
    rfl
  · exact isDigit_of_mem_toDigits (by decide) (by decide) digit

theorem length_zeroPadded (some_ : 0 < width) (fits : n < 10 ^ width) : (zeroPadded width n).toList.length = width := by
  have short := (length_toDigits_le_iff (by decide) some_).2 fits
  rw [toList_zeroPadded, length_append, length_replicate]
  omega

namespace Moment

theorem digits?_append (cs rest : List Char) (digits : ∀ c ∈ cs, c.isDigit) (value : Nat) :
    digits? cs.length value (cs ++ rest) = some (ofDigitChars 10 cs value, rest) := by
  induction cs generalizing value with
  | nil => rfl
  | cons c cs ih =>
    rw [length_cons, cons_append, digits?, if_pos (digits c mem_cons_self),
      ih (fun x member => digits x (mem_cons_of_mem _ member)), mul_comm]
    rfl

theorem digits?_zeroPadded (some_ : 0 < width) (fits : n < 10 ^ width) (rest : List Char) :
    digits? width 0 ((zeroPadded width n).toList ++ rest) = some (n, rest) := by
  have read := digits?_append (zeroPadded width n).toList rest (fun _ => isDigit_of_mem_zeroPadded) 0
  rw [length_zeroPadded some_ fits] at read
  have zeros (k : Nat) : ofDigitChars 10 (replicate k '0') 0 = 0 := by
    induction k with
    | zero => rfl
    | succ k ih => exact ih
  rw [read, toList_zeroPadded, ofDigitChars_append, zeros, ofDigitChars_toDigits (by decide) (by decide)]

end Moment

end Folio

namespace Folio.Calendar

set_option autoImplicit false

variable {year n : Nat}

/-! ## The months of a year -/

theorem daysInMonth_le (year month : Nat) : daysInMonth year month ≤ 31 := by
  unfold daysInMonth
  split
  · split <;> decide
  all_goals decide

theorem daysBeforeMonth_succ (year : Nat) {month : Nat} (some_ : 0 < month) :
    daysBeforeMonth year (month + 1) = daysBeforeMonth year month + daysInMonth year month := by
  obtain ⟨k, rfl⟩ := Nat.exists_eq_succ_of_ne_zero (Nat.ne_of_gt some_)
  simp [daysBeforeMonth, List.range_succ]

theorem daysBeforeMonth_all (year : Nat) : daysBeforeMonth year 13 = if isLeap year then 366 else 365 := by
  cases leap : isLeap year <;> simp [daysBeforeMonth, List.range_succ, daysInMonth, leap]

theorem monthAndDay_spec (year fuel : Nat) : ∀ month n, 0 < month → month + fuel = 12 →
    daysBeforeMonth year month + n < daysBeforeMonth year 13 →
    ∃ m d, monthAndDay year month fuel n = (m, d) ∧ (1 ≤ m ∧ m ≤ 12) ∧ (1 ≤ d ∧ d ≤ daysInMonth year m) ∧
      daysBeforeMonth year m + (d - 1) = daysBeforeMonth year month + n := by
  induction fuel with
  | zero =>
    intro month n some_ last short
    obtain rfl : month = 12 := last
    have total : daysBeforeMonth year 13 = daysBeforeMonth year 12 + daysInMonth year 12 :=
      daysBeforeMonth_succ year some_
    refine ⟨12, n + 1, rfl, ?_⟩
    omega
  | succ fuel ih =>
    intro month n some_ left short
    have next := daysBeforeMonth_succ year some_
    by_cases here : n < daysInMonth year month
    · refine ⟨month, n + 1, if_pos here, ?_⟩
      omega
    · obtain ⟨m, d, found, inYear, inMonth, whole⟩ :=
        ih (month + 1) (n - daysInMonth year month) (by omega) (by omega) (by omega)
      refine ⟨m, d, (if_neg here).trans found, inYear, inMonth, ?_⟩
      omega

/-! ## The years -/

theorem isLeap_iff : isLeap year ↔ year % 4 = 0 ∧ (year % 100 ≠ 0 ∨ year % 400 = 0) := by
  simp [isLeap]

/-- A number of days in pieces: eras, centuries, groups of four years, single years and days of the last one. -/
structure Pieces (n era century quad single inYear : Nat) : Prop where
  whole : era * 146097 + century * 36524 + quad * 1461 + single * 365 + inYear = n
  centuries : century ≤ 3
  quads : quad ≤ 24
  singles : single ≤ 3
  days : inYear ≤ 365
  /-- Only a leap year has one day more. -/
  leap : inYear = 365 → single = 3 ∧ (quad ≤ 23 ∨ century = 3)

def yearOf (era century quad single : Nat) : Nat := era * 400 + century * 100 + quad * 4 + single + 1

namespace Pieces

variable {era century quad single inYear : Nat} (pieces : Pieces n era century quad single inYear)

include pieces

theorem before : daysBeforeYear (yearOf era century quad single) + inYear = n := by
  obtain ⟨whole, centuries, quads, singles, -, -⟩ := pieces
  simp only [daysBeforeYear, yearOf]
  omega

theorem inYear_lt : inYear < daysBeforeMonth (yearOf era century quad single) 13 := by
  obtain ⟨-, centuries, quads, -, days, leap⟩ := pieces
  rw [daysBeforeMonth_all]
  split
  · omega
  · rename_i common
    rw [isLeap_iff, yearOf] at common
    rcases Nat.lt_or_ge inYear 365 with short | long
    · exact short
    · omega

end Pieces

theorem min_three (a : Nat) : Nat.min a 3 ≤ 3 ∧ Nat.min a 3 ≤ a ∧ (Nat.min a 3 = a ∨ Nat.min a 3 = 3) :=
  ⟨Nat.min_le_right a 3, Nat.min_le_left a 3, by rcases Nat.le_total a 3 with h | h <;> simp [h]⟩

theorem pieces_of (n : Nat) : ∃ era century quad single inYear, Pieces n era century quad single inYear ∧
      dateOf n = ⟨yearOf era century quad single, (monthAndDay (yearOf era century quad single) 1 11 inYear).1,
        (monthAndDay (yearOf era century quad single) 1 11 inYear).2⟩ := by
  refine ⟨_, _, _, _, _, ?_, rfl⟩
  have centuries := min_three (n % 146097 / 36524)
  generalize Nat.min (n % 146097 / 36524) 3 = century at *
  have singles := min_three ((n % 146097 - century * 36524) % 1461 / 365)
  constructor
  all_goals omega

theorem dateOf_spec (n : Nat) :
    ∃ y m d, dateOf n = ⟨y, m, d⟩ ∧ 1 ≤ y ∧ daysBeforeYear y ≤ n ∧ (1 ≤ m ∧ m ≤ 12) ∧ (1 ≤ d ∧ d ≤ daysInMonth y m) ∧
      dayNumber ⟨y, m, d⟩ = n := by
  obtain ⟨era, century, quad, single, inYear, pieces, date⟩ := pieces_of n
  have before := pieces.before
  have short := pieces.inYear_lt
  have none_ : daysBeforeMonth (yearOf era century quad single) 1 = 0 := rfl
  obtain ⟨m, d, found, months, days, whole⟩ := monthAndDay_spec (yearOf era century quad single) 11 1 inYear
    (by decide) rfl (by omega)
  rw [found] at date
  refine ⟨_, m, d, date, Nat.le_add_left _ _, by omega, months, days, ?_⟩
  simp only [dayNumber]
  omega

theorem isDate_dateOf (early : n < 3652059) : isDate (dateOf n).year (dateOf n).month (dateOf n).day := by
  obtain ⟨y, m, d, found, some_, before, inYear, inMonth, -⟩ := dateOf_spec n
  have bound : y ≤ 9999 := by
    simp only [daysBeforeYear] at before
    omega
  simp [found, isDate, some_, bound, inYear, inMonth]

theorem dayNumber_dateOf (n : Nat) : dayNumber (dateOf n) = n := by
  obtain ⟨y, m, d, found, -, -, -, -, same⟩ := dateOf_spec n
  rw [found, same]

end Folio.Calendar

namespace Folio

open Calendar List Nat String

variable {c : Char} {n : Nat}

/-! ## Numbers of two, four and six digits -/

namespace Moment

theorem digits?_two (fits : n < 100) : ∃ a b, (zeroPadded 2 n).toList = [a, b] ∧ (a.isDigit ∧ b.isDigit) ∧
      ∀ rest, digits? 2 0 (a :: b :: rest) = some (n, rest) := by
  obtain ⟨a, b, same⟩ := length_eq_two.1 (length_zeroPadded (by decide) fits)
  have digit (c : Char) (member : c ∈ [a, b]) : c.isDigit := isDigit_of_mem_zeroPadded (same ▸ member)
  refine ⟨a, b, same, ⟨digit a (by simp), digit b (by simp)⟩, fun rest => ?_⟩
  have read := digits?_zeroPadded (show 0 < 2 by decide) fits rest
  rwa [same] at read

theorem digits?_four (fits : n < 10000) :
    ∃ a b c d, (zeroPadded 4 n).toList = [a, b, c, d] ∧ ∀ rest, digits? 4 0 (a :: b :: c :: d :: rest) = some (n, rest) := by
  obtain ⟨a, b, c, d, same⟩ := length_eq_four.1 (length_zeroPadded (by decide) fits)
  refine ⟨a, b, c, d, same, fun rest => ?_⟩
  have read := digits?_zeroPadded (show 0 < 4 by decide) fits rest
  rwa [same] at read

theorem digits?_six (fits : n < 1000000) :
    (zeroPadded 6 n).toList.length = 6 ∧ digits? 6 0 (zeroPadded 6 n).toList = some (n, []) := by
  refine ⟨length_zeroPadded (by decide) fits, ?_⟩
  have read := digits?_zeroPadded (show 0 < 6 by decide) fits []
  rwa [append_nil] at read

/-! ## The parts of a moment -/

variable {t : Moment}

theorem days_and_rest (nonneg : 0 ≤ t.ticks) :
    ∃ n : Nat, t.ticks = (n : Int) ∧ t.date = dateOf (n / 86400000000) ∧ t.ofDay = n % 86400000000 := by
  obtain ⟨n, same⟩ := Int.eq_ofNat_of_zero_le nonneg
  have day : microsPerDay = 86400000000 := rfl
  have whole : (t.ticks.fdiv microsPerDay).toNat = n / 86400000000 := by
    rw [day, Int.fdiv_eq_ediv_of_nonneg _ (by decide)]
    omega
  have rest : (t.ticks.fmod microsPerDay).toNat = n % 86400000000 := by
    rw [same, day, Int.fmod_eq_emod_of_nonneg _ (by decide)]
    omega
  exact ⟨n, same, congrArg dateOf whole, rest⟩

theorem parts_lt (t : Moment) (nonneg : 0 ≤ t.ticks) :
    t.hour < 24 ∧ t.minute < 60 ∧ t.second < 60 ∧ t.micro < 1000000 := by
  obtain ⟨n, -, -, rest⟩ := days_and_rest nonneg
  simp only [hour, minute, second, micro]
  omega

theorem ofClock_parts (nonneg : 0 ≤ t.ticks) : (ofClock t.date t.hour t.minute t.second t.micro).ticks = t.ticks := by
  obtain ⟨n, same, days, rest⟩ := days_and_rest nonneg
  simp only [ofClock, days, dayNumber_dateOf, hour, minute, second, micro, microsPerDay, microsPerSecond]
  omega

theorem isDate_date (nonneg : 0 ≤ t.ticks) (early : t.ticks ≤ lastTick) :
    isDate t.date.year t.date.month t.date.day := by
  obtain ⟨n, same, days, -⟩ := days_and_rest nonneg
  have last : n / 86400000000 < 3652059 := by
    simp only [lastTick, microsPerDay] at early
    omega
  rw [days]
  exact isDate_dateOf last

/-! ## Reading -/

theorem ne_of_isDigit {x : Char} (digit : c.isDigit) (other : x.isDigit = false) : c ≠ x := by
  rintro rfl
  rw [digit] at other
  cases other

theorem opensZone_of_isDigit (digit : c.isDigit) : opensZone c = false := by
  simp [opensZone, ne_of_isDigit digit (show ('+').isDigit = false from rfl),
    ne_of_isDigit digit (show ('-').isDigit = false from rfl), ne_of_isDigit digit (show ('Z').isDigit = false from rfl)]

theorem dateOfChars?_dateText (nonneg : 0 ≤ t.ticks) (early : t.ticks ≤ lastTick) (rest : List Char) :
    dateSize (t.dateText.toList ++ rest) = 10 ∧ t.dateText.toList.length = 10 ∧ dateOfChars? t.dateText.toList = some t.date := by
  have isDate := isDate_date nonneg early
  have bounds := isDate
  simp only [Calendar.isDate, Bool.and_eq_true, decide_eq_true_eq] at bounds
  have inMonth := daysInMonth_le t.date.year t.date.month
  obtain ⟨y₁, y₂, y₃, y₄, year, readYear⟩ := digits?_four (n := t.date.year) (by omega)
  obtain ⟨m₁, m₂, month, ⟨digit, -⟩, readMonth⟩ := digits?_two (n := t.date.month) (by omega)
  obtain ⟨d₁, d₂, day, -, readDay⟩ := digits?_two (n := t.date.day) (by omega)
  have noWeek : m₁ ≠ 'W' := ne_of_isDigit digit rfl
  have text : t.dateText.toList = [y₁, y₂, y₃, y₄, '-', m₁, m₂, '-', d₁, d₂] := by
    simp [dateText, year, month, day]
  rw [text]
  refine ⟨?_, rfl, ?_⟩
  · simp [dateSize, noWeek]
  · simp [dateOfChars?, readYear, readMonth, readDay, isDate, noWeek]

def clockChars (t : Moment) : List Char :=
  t.clockText.toList ++ (if t.micro == 0 then "" else "." ++ zeroPadded 6 t.micro).toList

theorem clockOfChars?_clockChars (nonneg : 0 ≤ t.ticks) :
    clockOfChars? 3 true true [] t.clockChars = some ([t.hour, t.minute, t.second], t.micro, false) := by
  obtain ⟨hours, minutes, seconds, micros⟩ := parts_lt t nonneg
  obtain ⟨h₁, h₂, hour_, -, readHour⟩ := digits?_two (n := t.hour) (by omega)
  obtain ⟨m₁, m₂, minute_, -, readMinute⟩ := digits?_two (n := t.minute) (by omega)
  obtain ⟨s₁, s₂, second_, -, readSecond⟩ := digits?_two (n := t.second) (by omega)
  have text : t.clockText.toList = [h₁, h₂, ':', m₁, m₂, ':', s₁, s₂] := by
    simp [clockText, hour_, minute_, second_]
  rw [clockChars, text]
  by_cases none_ : t.micro = 0
  · simp [clockOfChars?, readHour, readMinute, readSecond, none_]
  · obtain ⟨six, readMicro⟩ := digits?_six micros
    have some_ : zeroPadded 6 t.micro ≠ "" := by
      intro empty
      rw [empty] at six
      cases six
    simp [clockOfChars?, readHour, readMinute, readSecond, none_, fractionOfChars?, six, readMicro, some_]

theorem not_opensZone_of_mem_clockChars (member : c ∈ t.clockChars) : opensZone c = false := by
  have digits {width n : Nat} (digit : c ∈ (zeroPadded width n).toList) : opensZone c = false :=
    opensZone_of_isDigit (isDigit_of_mem_zeroPadded digit)
  have colon {s : String} (mark : s = ":" ∨ s = ".") (own : c ∈ s.toList) : opensZone c = false := by
    rcases mark with rfl | rfl
    · obtain rfl : c = ':' := by simpa using own
      rfl
    · obtain rfl : c = '.' := by simpa using own
      rfl
  rw [clockChars, clockText] at member
  simp only [toList_append, mem_append] at member
  rcases member with ((((hour_ | mark) | minute_) | mark) | second_) | fraction
  · exact digits hour_
  · exact colon (Or.inl rfl) mark
  · exact digits minute_
  · exact colon (Or.inl rfl) mark
  · exact digits second_
  · split at fraction
    · simp at fraction
    · rw [toList_append, mem_append] at fraction
      rcases fraction with mark | micro_
      · exact colon (Or.inr rfl) mark
      · exact digits micro_

theorem take_drop_of_length {xs : List Char} (long : xs.length = n) (c : Char) (ys : List Char) :
    (xs ++ c :: ys).take n = xs ∧ (xs ++ c :: ys).drop (n + 1) = ys := by
  subst long
  exact ⟨take_left, by rw [drop_length_add_append]; rfl⟩

theorem length_le_utf8ByteSize (s : String) : s.toList.length ≤ s.utf8ByteSize := by
  obtain ⟨cs, rfl⟩ : ∃ cs, s = ofList cs := ⟨s.toList, ofList_toList.symm⟩
  rw [toList_ofList]
  induction cs with
  | nil => simp
  | cons c cs ih =>
    rw [ofList_cons, utf8ByteSize_append, utf8ByteSize_singleton, length_cons]
    have := c.utf8Size_pos
    omega

theorem ofIso?_textWith (c : Char) (nonneg : 0 ≤ t.ticks) (early : t.ticks ≤ lastTick)
    (zone : t.offset = none ∨ t.offset = some 0) : ofIso? (t.textWith (singleton c)) = some t := by
  obtain ⟨ending, written, offset_, opens⟩ : ∃ ending : List Char,
      (t.textWith (singleton c)).toList = t.dateText.toList ++ (c :: (t.clockChars ++ ending)) ∧
      zoneOfChars? ending = some t.offset ∧ ∀ x ∈ ending.head?, opensZone x := by
    rcases zone with none_ | universal
    · exact ⟨[], by simp [textWith, none_, clockChars], by rw [none_]; rfl, by simp⟩
    · have zero : offsetText 0 = "+00:00" := by decide
      exact ⟨"+00:00".toList, by simp [textWith, universal, zero, clockChars], by rw [universal]; decide, by simp [opensZone]⟩
  obtain ⟨size, ten, date_⟩ := dateOfChars?_dateText nonneg early (c :: (t.clockChars ++ ending))
  have long : ¬ (t.textWith (singleton c)).utf8ByteSize < 7 := by
    have bytes := length_le_utf8ByteSize (t.textWith (singleton c))
    rw [written, List.length_append] at bytes
    omega
  obtain ⟨hours, minutes, seconds, -⟩ := parts_lt t nonneg
  obtain ⟨head, tail⟩ := take_drop_of_length ten c (t.clockChars ++ ending)
  have clock : ∀ c ∈ t.clockChars, (!opensZone c) := fun c member => by
    rw [not_opensZone_of_mem_clockChars member, Bool.not_false]
  have before : (t.clockChars ++ ending).takeWhile (!opensZone ·) = t.clockChars := by
    rw [takeWhile_append_of_pos clock]
    cases ending <;> simp_all
  have after : (t.clockChars ++ ending).dropWhile (!opensZone ·) = ending := by
    rw [dropWhile_append_of_pos clock]
    cases ending <;> simp_all
  have some_ : (t.clockChars ++ ending).isEmpty = false := by
    simp [clockChars, clockText]
  have fits : (decide (t.hour > 23) || decide (t.minute > 59) || decide (t.second > 59)) = false := by
    simp only [Bool.or_eq_false_iff, decide_eq_false_iff_not]
    omega
  have same : mk (ofClock t.date t.hour t.minute t.second t.micro).ticks t.offset = t := by
    rw [ofClock_parts nonneg]
  rw [ofIso?, written]
  simp only [long, size, head, tail, before, after, date_, offset_, clockOfChars?_clockChars nonneg, some_, if_false,
    Option.bind_eq_bind, Option.bind_some, Bool.false_eq_true, Bool.false_and, getD_cons_zero, getD_cons_succ,
    fits, same]

theorem ofIso?_iso (nonneg : 0 ≤ t.ticks) (early : t.ticks ≤ lastTick) (universal : t.offset = some 0) :
    ofIso? t.iso = some t := ofIso?_textWith 'T' nonneg early (Or.inr universal)

end Moment

end Folio

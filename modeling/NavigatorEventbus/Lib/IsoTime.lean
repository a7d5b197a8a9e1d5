import NavigatorEventbus.Lib.Json

/-!
# Dates and times as text

Dates and times of day with an optional offset from UTC, and their ISO 8601 text: the writer leaves the
microseconds out when there are none, and the reader of that form inverts it (`read_isoformat`).
-/

namespace IsoTime

open Json

/-- The number of days of a month. -/
def daysInMonth (year month : ℕ) : ℕ :=
  if month = 2 then if year % 4 = 0 ∧ (year % 100 ≠ 0 ∨ year % 400 = 0) then 29 else 28
  else if month = 4 ∨ month = 6 ∨ month = 9 ∨ month = 11 then 30
  else 31

/-- A day of the calendar and a time of the day, with the offset from UTC in microseconds; without one
the time is naive. -/
structure DateTime where
  year : ℕ
  month : ℕ
  day : ℕ
  hour : ℕ
  minute : ℕ
  second : ℕ
  microsecond : ℕ
  offset : Option ℤ
  date_ok : 1 ≤ year ∧ year ≤ 9999 ∧ 1 ≤ month ∧ month ≤ 12 ∧ 1 ≤ day ∧ day ≤ daysInMonth year month
  time_ok : hour < 24 ∧ minute < 60 ∧ second < 60 ∧ microsecond < 1000000
  offset_ok : ∀ o ∈ offset, o.natAbs < 86400000000
  deriving DecidableEq

theorem midnight_ok : 0 < 24 ∧ 0 < 60 ∧ 0 < 60 ∧ 0 < 1000000 := by decide

theorem utc_ok : ∀ o ∈ some (0 : ℤ), o.natAbs < 86400000000 := by simp

/-- The beginning of 2024, in UTC. -/
def newYear : DateTime := ⟨2024, 1, 1, 0, 0, 0, 0, some 0, by decide, midnight_ok, utc_ok⟩

/-- The time is aware of its offset. -/
def DateTime.Aware (t : DateTime) : Prop := t.offset.isSome

instance (t : DateTime) : Decidable t.Aware := inferInstanceAs (Decidable (_ = true))

/-- The number of days before a year. -/
def daysBeforeYear (year : ℕ) : ℕ :=
  365 * (year - 1) + (year - 1) / 4 - (year - 1) / 100 + (year - 1) / 400

/-- The number of days of a year before a month. -/
def daysBeforeMonth (year month : ℕ) : ℕ :=
  ((List.range (month - 1)).map fun m => daysInMonth year (m + 1)).sum

/-- The microseconds from the beginning of the year 1 to a time, in UTC. A naive time is taken to be so. -/
def DateTime.micros (t : DateTime) : ℤ :=
  let days := daysBeforeYear t.year + daysBeforeMonth t.year t.month + (t.day - 1)
  (((days * 24 + t.hour) * 60 + t.minute) * 60 + t.second) * 1000000 + t.microsecond - t.offset.getD 0

/-- `w` decimal digits. -/
def padded : ℕ → ℕ → List Char
  | 0, _ => []
  | w + 1, n => padded w (n / 10) ++ [decimalDigit (n % 10)]

/-- The fraction of a second. -/
def fraction (microsecond : ℕ) : List Char :=
  if microsecond = 0 then [] else '.' :: padded 6 microsecond

/-- An offset from UTC. -/
def formatOffset (o : ℤ) : List Char :=
  (if o < 0 then '-' else '+') :: (padded 2 (o.natAbs / 3600000000) ++
    ':' :: (padded 2 (o.natAbs / 60000000 % 60) ++
      if o.natAbs % 60000000 = 0 then []
      else ':' :: (padded 2 (o.natAbs / 1000000 % 60) ++ fraction (o.natAbs % 1000000))))

/-- `datetime.isoformat`. -/
def DateTime.isoformat (t : DateTime) : List Char :=
  padded 4 t.year ++ '-' :: (padded 2 t.month ++ '-' :: (padded 2 t.day ++ 'T' ::
    (padded 2 t.hour ++ ':' :: (padded 2 t.minute ++ ':' :: (padded 2 t.second ++
      (fraction t.microsecond ++ (t.offset.map formatOffset).getD []))))))

/-! ## Reading -/

/-- A number of `w` decimal digits. -/
def readDigits (w : ℕ) (s : List Char) : Option (ℕ × List Char) :=
  if (s.take w).length = w ∧ (s.take w).all Char.isDigit then some (ofDecimal (s.take w), s.drop w)
  else none

/-- A character, after which `read` reads on. -/
def after {α : Type} (c : Char) (read : List Char → Option α) : List Char → Option α
  | [] => none
  | a :: s => if a = c then read s else none

/-- A fraction of a second, if there is one. -/
def readFraction : List Char → Option (ℕ × List Char)
  | '.' :: s => readDigits 6 s
  | s => some (0, s)

/-- The seconds of an offset, if there are any. -/
def readSeconds : List Char → Option (ℕ × ℕ)
  | [] => some (0, 0)
  | s => do
    let (second, s) ← after ':' (readDigits 2) s
    let (microsecond, s) ← readFraction s
    if s = [] then some (second, microsecond) else none

/-- An offset from UTC, if there is one. -/
def readOffset : List Char → Option (Option ℤ)
  | [] => some none
  | sign :: s => do
    if sign ≠ '+' ∧ sign ≠ '-' then none
    let (hour, s) ← readDigits 2 s
    let (minute, s) ← after ':' (readDigits 2) s
    let (second, microsecond) ← readSeconds s
    let o : ℤ := (((hour * 60 + minute) * 60 + second) * 1000000 + microsecond : ℕ)
    return some (if sign = '-' then -o else o)

/-- The date and time with these parts, if there is one. -/
def DateTime.ofParts (year month day hour minute second microsecond : ℕ) (offset : Option ℤ) :
    Option DateTime :=
  if h : (1 ≤ year ∧ year ≤ 9999 ∧ 1 ≤ month ∧ month ≤ 12 ∧ 1 ≤ day ∧ day ≤ daysInMonth year month) ∧
      (hour < 24 ∧ minute < 60 ∧ second < 60 ∧ microsecond < 1000000) ∧
      ∀ o ∈ offset, o.natAbs < 86400000000 then
    some ⟨year, month, day, hour, minute, second, microsecond, offset, h.1, h.2.1, h.2.2⟩
  else none

/-- A date and time as `isoformat` writes it. -/
def read (s : List Char) : Option DateTime := do
  let (year, s) ← readDigits 4 s
  let (month, s) ← after '-' (readDigits 2) s
  let (day, s) ← after '-' (readDigits 2) s
  let (hour, s) ← after 'T' (readDigits 2) s
  let (minute, s) ← after ':' (readDigits 2) s
  let (second, s) ← after ':' (readDigits 2) s
  let (microsecond, s) ← readFraction s
  let offset ← readOffset s
  DateTime.ofParts year month day hour minute second microsecond offset

/-! ## Round trip -/

theorem length_padded (w n : ℕ) : (padded w n).length = w := by
  induction w generalizing n with
  | zero => rfl
  | succ w ih => simp [padded, ih]

theorem isDigit_padded {w n : ℕ} {c : Char} (hc : c ∈ padded w n) : c.isDigit = true := by
  induction w generalizing n with
  | zero => cases hc
  | succ w ih =>
    simp only [padded, List.mem_append, List.mem_singleton] at hc
    rcases hc with hc | rfl
    · exact ih hc
    · exact (decimal_digit (Nat.mod_lt n (by decide))).2.1

theorem ofDecimal_append (l : List Char) (c : Char) :
    ofDecimal (l ++ [c]) = ofDecimal l * 10 + decimalValue c := by
  simp only [ofDecimal, List.reverse_append, List.reverse_singleton, List.singleton_append, List.map_cons,
    Nat.ofDigits_cons]
  omega

theorem ofDecimal_padded {w n : ℕ} (h : n < 10 ^ w) : ofDecimal (padded w n) = n := by
  induction w generalizing n with
  | zero =>
    obtain rfl : n = 0 := by simpa using h
    rfl
  | succ w ih =>
    have fits : n / 10 < 10 ^ w := by
      rw [Nat.div_lt_iff_lt_mul (by decide), ← Nat.pow_succ]
      exact h
    rw [padded, ofDecimal_append, ih fits, (decimal_digit (Nat.mod_lt n (by decide))).1]
    omega

theorem readDigits_padded {w n : ℕ} (h : n < 10 ^ w) (rest : List Char) :
    readDigits w (padded w n ++ rest) = some (n, rest) := by
  have take : (padded w n ++ rest).take w = padded w n := List.take_left' (length_padded w n)
  have drop : (padded w n ++ rest).drop w = rest := List.drop_left' (length_padded w n)
  have digits : (padded w n).all Char.isDigit = true := List.all_eq_true.2 fun _ => isDigit_padded
  rw [readDigits, take, drop, if_pos ⟨length_padded w n, digits⟩, ofDecimal_padded h]

theorem after_padded {w n : ℕ} (h : n < 10 ^ w) (c : Char) (rest : List Char) :
    after c (readDigits w) (c :: (padded w n ++ rest)) = some (n, rest) := by
  rw [after, if_pos rfl, readDigits_padded h]

/-- What follows a fraction does not begin with a point. -/
theorem readFraction_fraction {n : ℕ} (h : n < 1000000) {rest : List Char} (hrest : ∀ s, rest ≠ '.' :: s) :
    readFraction (fraction n ++ rest) = some (n, rest) := by
  unfold fraction
  split_ifs with hn
  · subst hn
    rw [List.nil_append]
    unfold readFraction
    split
    · exact absurd rfl (hrest _)
    · rfl
  · exact readDigits_padded h rest

theorem readSeconds_nil : readSeconds [] = some (0, 0) := rfl

theorem readSeconds_cons {second microsecond : ℕ} (hs : second < 60) (hm : microsecond < 1000000) :
    readSeconds (':' :: (padded 2 second ++ fraction microsecond)) = some (second, microsecond) := by
  have fits : second < 10 ^ 2 := by omega
  have whole : readFraction (fraction microsecond ++ []) = some (microsecond, []) :=
    readFraction_fraction hm fun s h => by cases h
  rw [List.append_nil] at whole
  simp [readSeconds, after_padded fits, whole]

/-- Reading an offset inverts writing it. -/
theorem readOffset_formatOffset {o : ℤ} (h : o.natAbs < 86400000000) :
    readOffset (formatOffset o) = some (some o) := by
  have sign : ∀ {c : Char}, c = (if o < 0 then '-' else '+') → ¬ (c ≠ '+' ∧ c ≠ '-') ∧
      (c = '-' ↔ o < 0) := by
    rintro c rfl
    split_ifs with neg <;> simp [neg]
  obtain ⟨signed, minus⟩ := sign rfl
  have hour : o.natAbs / 3600000000 < 10 ^ 2 := by omega
  have minute : o.natAbs / 60000000 % 60 < 10 ^ 2 := by omega
  have seconds : readSeconds (if o.natAbs % 60000000 = 0 then []
      else ':' :: (padded 2 (o.natAbs / 1000000 % 60) ++ fraction (o.natAbs % 1000000))) =
      some (o.natAbs / 1000000 % 60, o.natAbs % 1000000) := by
    split_ifs with none
    · rw [readSeconds_nil]
      have zero : o.natAbs / 1000000 % 60 = 0 ∧ o.natAbs % 1000000 = 0 := by omega
      rw [zero.1, zero.2]
    · exact readSeconds_cons (Nat.mod_lt _ (by decide)) (Nat.mod_lt _ (by decide))
  have total : ((o.natAbs / 3600000000 * 60 + o.natAbs / 60000000 % 60) * 60 +
      o.natAbs / 1000000 % 60) * 1000000 + o.natAbs % 1000000 = o.natAbs := by omega
  have value : (if o < 0 then -((o.natAbs : ℕ) : ℤ) else (o.natAbs : ℕ)) = o := by
    split_ifs <;> omega
  simp only [readOffset, formatOffset, signed, if_false, readDigits_padded hour, Option.bind_eq_bind,
    Option.bind_some, after_padded minute, seconds, total, minus]
  exact congrArg (fun x => some (some x)) value

/-- An offset does not begin with a point. -/
theorem formatOffset_ne (o : Option ℤ) (s : List Char) : (o.map formatOffset).getD [] ≠ '.' :: s := by
  cases o with
  | none => exact nofun
  | some o =>
    simp only [formatOffset, Option.map_some, Option.getD_some]
    split_ifs <;> simp

/-- Reading a date and time inverts writing it. -/
theorem read_isoformat (t : DateTime) : read t.isoformat = some t := by
  obtain ⟨year, month, day, hour, minute, second, microsecond, offset, date, time, within⟩ := t
  have days : daysInMonth year month ≤ 31 := by
    unfold daysInMonth
    split_ifs <;> decide
  have fits : year < 10 ^ 4 ∧ month < 10 ^ 2 ∧ day < 10 ^ 2 ∧ hour < 10 ^ 2 ∧ minute < 10 ^ 2 ∧
      second < 10 ^ 2 := by omega
  have hoffset : readOffset ((offset.map formatOffset).getD []) = some offset := by
    cases offset with
    | none => rfl
    | some o => exact readOffset_formatOffset (within o rfl)
  simp only [read, DateTime.isoformat, readDigits_padded fits.1, after_padded fits.2.1,
    after_padded fits.2.2.1, after_padded fits.2.2.2.1, after_padded fits.2.2.2.2.1,
    after_padded fits.2.2.2.2.2, Option.bind_eq_bind, Option.bind_some,
    readFraction_fraction time.2.2.2 (formatOffset_ne offset), hoffset]
  rw [DateTime.ofParts, dif_pos ⟨date, time, within⟩]

end IsoTime

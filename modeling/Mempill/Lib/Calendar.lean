import Mathlib.Algebra.Order.Ring.Int
import Mathlib.Data.Nat.Find
import Mathlib.Order.Basic

set_option autoImplicit false

/-!
# Calendar

The proleptic Gregorian calendar: dates, and the days they are, counted from the first
day of the year 0.
-/
namespace Calendar

section Lengths

def IsLeap (year : ℤ) : Prop := year % 4 = 0 ∧ (year % 100 ≠ 0 ∨ year % 400 = 0)

instance (year : ℤ) : Decidable (IsLeap year) := inferInstanceAs (Decidable (_ ∧ _))

/-- The days from the start of the year 0 to the start of a year. -/
def daysBeforeYear (year : ℤ) : ℤ :=
  365 * year + (year + 3) / 4 - (year + 99) / 100 + (year + 399) / 400

theorem daysBeforeYear_succ (year : ℤ) :
    daysBeforeYear (year + 1) = daysBeforeYear year + if IsLeap year then 366 else 365 := by
  unfold daysBeforeYear IsLeap
  split_ifs <;> omega

theorem daysBeforeYear_mono {year year' : ℤ} (h : year ≤ year') :
    daysBeforeYear year ≤ daysBeforeYear year' := by
  induction year', h using Int.leInduction with
  | base => exact le_rfl
  | succ year' _ ih =>
    rw [daysBeforeYear_succ]
    split_ifs <;> omega

/-- The days of a year before a month; the month 13 is the next year's first. -/
def daysBeforeMonth (year : ℤ) (month : ℕ) : ℕ :=
  let leap := if IsLeap year then 1 else 0
  match month with
  | 0 | 1 => 0
  | 2 => 31
  | 3 => 59 + leap
  | 4 => 90 + leap
  | 5 => 120 + leap
  | 6 => 151 + leap
  | 7 => 181 + leap
  | 8 => 212 + leap
  | 9 => 243 + leap
  | 10 => 273 + leap
  | 11 => 304 + leap
  | 12 => 334 + leap
  | _ => 365 + leap

def daysInMonth (year : ℤ) (month : ℕ) : ℕ :=
  daysBeforeMonth year (month + 1) - daysBeforeMonth year month

theorem daysBeforeMonth_mono (year : ℤ) : Monotone (daysBeforeMonth year) := by
  refine monotone_nat_of_le_succ fun month => ?_
  unfold daysBeforeMonth
  rcases month with _ | _ | _ | _ | _ | _ | _ | _ | _ | _ | _ | _ | _ | month <;>
    split_ifs <;> simp

theorem daysInMonth_le (year : ℤ) {month : ℕ} (h : month ≤ 12) : daysInMonth year month ≤ 31 := by
  unfold daysInMonth daysBeforeMonth
  rcases month with _ | _ | _ | _ | _ | _ | _ | _ | _ | _ | _ | _ | _ | month <;>
    split_ifs <;> simp

theorem daysBeforeMonth_last (year : ℤ) :
    daysBeforeYear (year + 1) = daysBeforeYear year + daysBeforeMonth year 13 := by
  rw [daysBeforeYear_succ]
  change _ = daysBeforeYear year + ((365 + if IsLeap year then 1 else 0 : ℕ) : ℤ)
  split_ifs <;> rfl

end Lengths

section Dates

/-- A date of the calendar. -/
@[ext] structure Date where
  year : ℤ
  month : ℕ
  day : ℕ
  month_pos : 1 ≤ month
  month_le : month ≤ 12
  day_pos : 1 ≤ day
  day_le : day ≤ daysInMonth year month
  deriving DecidableEq

/-- The date of the three numbers, if the calendar has it. -/
def ofYmd (year : ℤ) (month day : ℕ) : Option Date :=
  if h : (1 ≤ month ∧ month ≤ 12) ∧ 1 ≤ day ∧ day ≤ daysInMonth year month then
    some ⟨year, month, day, h.1.1, h.1.2, h.2.1, h.2.2⟩
  else none

theorem ofYmd_eq_some {year : ℤ} {month day : ℕ} {d : Date} :
    ofYmd year month day = some d ↔ d.year = year ∧ d.month = month ∧ d.day = day := by
  unfold ofYmd
  constructor
  · intro h
    split at h
    · cases h
      exact ⟨rfl, rfl, rfl⟩
    · cases h
  · rintro ⟨rfl, rfl, rfl⟩
    rw [dif_pos ⟨⟨d.month_pos, d.month_le⟩, d.day_pos, d.day_le⟩]

def Date.dayNumber (d : Date) : ℤ :=
  daysBeforeYear d.year + daysBeforeMonth d.year d.month + (d.day - 1)

theorem Date.dayNumber_lt_nextMonth (d : Date) :
    d.dayNumber < daysBeforeYear d.year + daysBeforeMonth d.year (d.month + 1) := by
  have hday := d.day_le
  have hmono := daysBeforeMonth_mono d.year (Nat.le_succ d.month)
  have hpos := d.day_pos
  unfold daysInMonth at hday
  unfold Date.dayNumber
  omega

theorem Date.dayNumber_lt_nextYear (d : Date) : d.dayNumber < daysBeforeYear (d.year + 1) := by
  have hlast := daysBeforeMonth_mono d.year (show d.month + 1 ≤ 13 from Nat.succ_le_succ d.month_le)
  have hmonth := d.dayNumber_lt_nextMonth
  rw [daysBeforeMonth_last]
  omega

theorem Date.daysBeforeYear_le (d : Date) : daysBeforeYear d.year ≤ d.dayNumber := by
  have hpos := d.day_pos
  unfold Date.dayNumber
  omega

/-- Dates by year, then month, then day. -/
def Date.Before (d d' : Date) : Prop :=
  d.year < d'.year ∨ d.year = d'.year ∧ (d.month < d'.month ∨ d.month = d'.month ∧ d.day < d'.day)

theorem Date.dayNumber_lt {d d' : Date} (h : d.Before d') : d.dayNumber < d'.dayNumber := by
  rcases h with hyear | ⟨hyear, hmonth | ⟨hmonth, hday⟩⟩
  · calc
      d.dayNumber < daysBeforeYear (d.year + 1) := d.dayNumber_lt_nextYear
      _ ≤ daysBeforeYear d'.year := daysBeforeYear_mono hyear
      _ ≤ d'.dayNumber := d'.daysBeforeYear_le
  · have hnext := d.dayNumber_lt_nextMonth
    have hmono := daysBeforeMonth_mono d.year (show d.month + 1 ≤ d'.month from hmonth)
    have hpos := d'.day_pos
    simp only [Date.dayNumber] at hnext ⊢
    rw [← hyear]
    omega
  · simp only [Date.dayNumber, hyear, hmonth]
    omega

theorem Date.before_trichotomy (d d' : Date) : d.Before d' ∨ d = d' ∨ d'.Before d := by
  by_cases hyear : d.year = d'.year
  · by_cases hmonth : d.month = d'.month
    · by_cases hday : d.day = d'.day
      · exact .inr (.inl (Date.ext hyear hmonth hday))
      · unfold Date.Before
        omega
    · unfold Date.Before
      omega
  · unfold Date.Before
    omega

theorem Date.before_iff {d d' : Date} : d.Before d' ↔ d.dayNumber < d'.dayNumber := by
  refine ⟨Date.dayNumber_lt, fun h => ?_⟩
  rcases d.before_trichotomy d' with hlt | heq | hgt
  · exact hlt
  · exact absurd h (heq ▸ lt_irrefl _)
  · exact absurd h (lt_asymm (Date.dayNumber_lt hgt))

theorem Date.dayNumber_injective : Function.Injective Date.dayNumber := by
  intro d d' h
  rcases d.before_trichotomy d' with hlt | heq | hgt
  · exact absurd h (Date.dayNumber_lt hlt).ne
  · exact heq
  · exact absurd h (Date.dayNumber_lt hgt).ne'

end Dates

section Days

/-- The year of a day, within the cycle of 400 years. -/
def yearOfDay (n : ℤ) : ℤ :=
  let rest := n % 146097
  400 * (n / 146097) +
    Nat.findGreatest (fun y => daysBeforeYear y ≤ rest) (rest.toNat / 365)

theorem daysBeforeYear_cycle (cycles year : ℤ) :
    daysBeforeYear (400 * cycles + year) = 146097 * cycles + daysBeforeYear year := by
  unfold daysBeforeYear
  omega

theorem yearOfDay_spec (n : ℤ) :
    daysBeforeYear (yearOfDay n) ≤ n ∧ n < daysBeforeYear (yearOfDay n + 1) := by
  have hrest : 0 ≤ n % 146097 := Int.emod_nonneg n (by omega)
  let P : ℕ → Prop := fun y => daysBeforeYear y ≤ n % 146097
  let bound := (n % 146097).toNat / 365
  have hlow : P (Nat.findGreatest P bound) :=
    Nat.findGreatest_spec (P := P) (Nat.zero_le bound) (show daysBeforeYear 0 ≤ _ from hrest)
  have hhigh : n % 146097 < daysBeforeYear (Nat.findGreatest P bound + 1 : ℕ) := by
    rcases Nat.lt_or_ge (Nat.findGreatest P bound) bound with hlt | hge
    · exact lt_of_not_ge (Nat.findGreatest_is_greatest (Nat.lt_succ_self _) hlt)
    · have hle : Nat.findGreatest P bound ≤ bound := Nat.findGreatest_le bound
      rw [Nat.le_antisymm hle hge]
      unfold daysBeforeYear
      omega
  have hsplit : n = 146097 * (n / 146097) + n % 146097 := (Int.mul_ediv_add_emod n 146097).symm
  change daysBeforeYear (400 * (n / 146097) + (Nat.findGreatest P bound : ℕ)) ≤ n ∧
    n < daysBeforeYear (400 * (n / 146097) + (Nat.findGreatest P bound : ℕ) + 1)
  rw [add_assoc, daysBeforeYear_cycle, daysBeforeYear_cycle]
  rw [Nat.cast_succ] at hhigh
  constructor
  · have := hlow
    simp only [P] at this
    omega
  · omega

def dayOfYear (n : ℤ) : ℕ := (n - daysBeforeYear (yearOfDay n)).toNat

def monthOfDay (n : ℤ) : ℕ :=
  Nat.findGreatest (fun m => daysBeforeMonth (yearOfDay n) m ≤ dayOfYear n) 12

theorem monthOfDay_spec (n : ℤ) :
    (1 ≤ monthOfDay n ∧ monthOfDay n ≤ 12) ∧
      daysBeforeMonth (yearOfDay n) (monthOfDay n) ≤ dayOfYear n ∧
      dayOfYear n < daysBeforeMonth (yearOfDay n) (monthOfDay n + 1) := by
  let P : ℕ → Prop := fun m => daysBeforeMonth (yearOfDay n) m ≤ dayOfYear n
  have hfirst : P 1 := Nat.zero_le _
  have hle : monthOfDay n ≤ 12 := Nat.findGreatest_le 12
  refine ⟨⟨Nat.le_findGreatest (by omega) hfirst, hle⟩,
    Nat.findGreatest_spec (P := P) (show 1 ≤ 12 by omega) hfirst, ?_⟩
  rcases Nat.lt_or_ge (monthOfDay n) 12 with hlt | hge
  · exact lt_of_not_ge (Nat.findGreatest_is_greatest (P := P) (Nat.lt_succ_self _) hlt)
  · rw [Nat.le_antisymm hle hge]
    have hlast := daysBeforeMonth_last (yearOfDay n)
    have hspec := yearOfDay_spec n
    change (n - daysBeforeYear (yearOfDay n)).toNat < daysBeforeMonth (yearOfDay n) 13
    omega

/-- The date of a day. -/
def dateOfDay (n : ℤ) : Date where
  year := yearOfDay n
  month := monthOfDay n
  day := dayOfYear n - daysBeforeMonth (yearOfDay n) (monthOfDay n) + 1
  month_pos := (monthOfDay_spec n).1.1
  month_le := (monthOfDay_spec n).1.2
  day_pos := by omega
  day_le := by
    have hspec := (monthOfDay_spec n).2
    unfold daysInMonth
    omega

theorem dayNumber_dateOfDay (n : ℤ) : (dateOfDay n).dayNumber = n := by
  have hyear := yearOfDay_spec n
  have hmonth := monthOfDay_spec n
  simp only [Date.dayNumber, dateOfDay]
  unfold dayOfYear at hmonth ⊢
  omega

theorem dateOfDay_dayNumber (d : Date) : dateOfDay d.dayNumber = d :=
  Date.dayNumber_injective (dayNumber_dateOfDay d.dayNumber)

end Days

end Calendar

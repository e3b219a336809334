import Mathlib.Data.Nat.Digits.Defs
import Mempill.Lib.Calendar
import Mempill.Lib.DigitText

set_option autoImplicit false

/-!
# Timestamps

Instants in nanoseconds from 1970, the RFC 3339 texts that print them in UTC, and the
order of these texts.
-/
namespace Timestamp
open Calendar DigitText

section Instants

def nanosPerDay : ℤ := 86400 * 10 ^ 9

/-- The day number of 1 January 1970. -/
def epochDay : ℤ := 719528

def dayOf (t : ℤ) : ℤ := t / nanosPerDay + epochDay

def nanoOfDay (t : ℤ) : ℕ := (t % nanosPerDay).toNat

/-- The date that an instant falls on. -/
def dateOf (t : ℤ) : Date := dateOfDay (dayOf t)

def midnight (d : Date) : ℤ := (d.dayNumber - epochDay) * nanosPerDay

@[simp] theorem dateOf_midnight (d : Date) : dateOf (midnight d) = d := by
  have hday : dayOf (midnight d) = d.dayNumber := by
    rw [dayOf, midnight, Int.mul_ediv_cancel _ (show nanosPerDay ≠ 0 by decide)]
    omega
  rw [dateOf, hday, dateOfDay_dayNumber]

/-- The years that print as four digits. -/
def FourDigits (t : ℤ) : Prop := 0 ≤ (dateOf t).year ∧ (dateOf t).year ≤ 9999

instance (t : ℤ) : Decidable (FourDigits t) := inferInstanceAs (Decidable (_ ∧ _))

theorem year_le_iff {n year : ℤ} : year ≤ (dateOfDay n).year ↔ daysBeforeYear year ≤ n := by
  have hspec := yearOfDay_spec n
  constructor
  · exact fun h => (daysBeforeYear_mono h).trans hspec.1
  · intro h
    by_contra hlater
    exact absurd (hspec.2.trans_le (daysBeforeYear_mono (lt_of_not_ge hlater)))
      (not_lt_of_ge h)

theorem fourDigits_iff (t : ℤ) :
    FourDigits t ↔ -62167219200 * 10 ^ 9 ≤ t ∧ t < 253402300800 * 10 ^ 9 := by
  have hfirst : 0 ≤ (dateOf t).year ↔ 0 ≤ dayOf t := year_le_iff
  have hlast : 10000 ≤ (dateOf t).year ↔ 3652425 ≤ dayOf t := year_le_iff
  have hyears : (dateOf t).year ≤ 9999 ↔ ¬ 10000 ≤ (dateOf t).year := by omega
  rw [FourDigits, hfirst, hyears, hlast]
  unfold dayOf epochDay nanosPerDay
  omega

end Instants

section Texts

/-- Other years than those of four digits have a sign. -/
def yearText (year : ℤ) : List Char :=
  if 0 ≤ year ∧ year ≤ 9999 then digits 4 year.toNat
  else
    let number := Nat.toDigits 10 year.natAbs
    (if year < 0 then '-' else '+') :: (List.replicate (4 - number.length) '0' ++ number)

def dateText (d : Date) : List Char :=
  yearText d.year ++ '-' :: (digits 2 d.month ++ '-' :: digits 2 d.day)

/-- As many groups of three digits as are needed. -/
def fractionText (nanos : ℕ) : List Char :=
  if nanos = 0 then []
  else if nanos % 10 ^ 6 = 0 then '.' :: digits 3 (nanos / 10 ^ 6)
  else if nanos % 10 ^ 3 = 0 then '.' :: digits 6 (nanos / 10 ^ 3)
  else '.' :: digits 9 nanos

def timeText (nanoOfDay : ℕ) : List Char :=
  let secs := nanoOfDay / 10 ^ 9
  digits 2 (secs / 3600) ++ ':' :: (digits 2 (secs / 60 % 60) ++
    ':' :: (digits 2 (secs % 60) ++ fractionText (nanoOfDay % 10 ^ 9)))

def utcOffset : List Char := ['+', '0', '0', ':', '0', '0']

def rfc3339 (t : ℤ) : List Char :=
  dateText (dateOf t) ++ 'T' :: (timeText (nanoOfDay t) ++ utcOffset)

example : String.ofList (rfc3339 0) = "1970-01-01T00:00:00+00:00" := by decide

example : String.ofList (rfc3339 (1704067199 * 10 ^ 9 + 120 * 10 ^ 6)) =
    "2023-12-31T23:59:59.120+00:00" := by decide

end Texts

section Order

theorem dateText_length {d : Date} (h : 0 ≤ d.year ∧ d.year ≤ 9999) :
    (dateText d).length = 10 := by
  rw [dateText, yearText, if_pos h]
  simp

theorem dateText_lt {d d' : Date} (h : 0 ≤ d.year ∧ d.year ≤ 9999)
    (h' : 0 ≤ d'.year ∧ d'.year ≤ 9999) (hlt : d.dayNumber < d'.dayNumber) :
    dateText d < dateText d' := by
  have hfits : ∀ d : Date, d.month < 10 ^ 2 ∧ d.day < 10 ^ 2 := fun d =>
    ⟨d.month_le.trans_lt (by decide),
      (d.day_le.trans (daysInMonth_le d.year d.month_le)).trans_lt (by decide)⟩
  rw [dateText, dateText, yearText, yearText, if_pos h, if_pos h']
  refine append_lt_of_lex (by simp) ?_
  rcases Date.before_iff.mpr hlt with hyear | ⟨hyear, hrest⟩
  · exact .inl (digits_lt (by omega) (by omega))
  · refine .inr ⟨by rw [hyear], List.cons_lt_cons_iff.mpr (.inr ⟨rfl, ?_⟩)⟩
    refine append_lt_of_lex (by simp) ?_
    rcases hrest with hmonth | ⟨hmonth, hday⟩
    · exact .inl (digits_lt hmonth (hfits d').1)
    · exact .inr ⟨by rw [hmonth], List.cons_lt_cons_iff.mpr
        (.inr ⟨rfl, digits_lt hday (hfits d').2⟩)⟩

/-- The groups that are left to print, and the offset. -/
def groups : ℕ → ℕ → List Char
  | 0, _ => utcOffset
  | k + 1, nanos =>
    if nanos % 1000 ^ (k + 1) = 0 then utcOffset
    else digits 3 (nanos / 1000 ^ k) ++ groups k nanos

theorem utcOffset_lt_digits (n : ℕ) (cs : List Char) : utcOffset < digits 3 n ++ cs := by
  obtain ⟨d, ds, hd, hcons⟩ := exists_digit_cons 2 n
  have hall : ∀ d < 10, '+' < Nat.digitChar d := by decide
  rw [hcons, List.cons_append]
  exact List.cons_lt_cons_iff.mpr (.inl (hall d hd))

/-- A text that stops early goes on with the sign of the offset, which sorts before every
    digit. -/
theorem groups_lt {k a b : ℕ} (h : a % 1000 ^ k < b % 1000 ^ k) : groups k a < groups k b := by
  induction k with
  | zero => simp [Nat.mod_one] at h
  | succ k ih =>
    rw [groups, groups, if_neg (show b % 1000 ^ (k + 1) ≠ 0 by omega)]
    split
    · exact utcOffset_lt_digits _ _
    · refine append_lt_of_lex (by simp) ?_
      rw [Nat.mod_pow_succ, Nat.mod_pow_succ] at h
      have hrest : a % 1000 ^ k < 1000 ^ k := Nat.mod_lt a (Nat.pow_pos (by omega))
      have hrest' : b % 1000 ^ k < 1000 ^ k := Nat.mod_lt b (Nat.pow_pos (by omega))
      rcases lt_trichotomy (a / 1000 ^ k % 1000) (b / 1000 ^ k % 1000) with hlt | heq | hgt
      · exact .inl (digits_lt_of_mod hlt)
      · rw [heq] at h
        refine .inr ⟨?_, ih (by omega)⟩
        rw [← digits_mod 3 (a / 1000 ^ k), ← digits_mod 3 (b / 1000 ^ k)]
        exact congrArg (digits 3) heq
      · have hle := Nat.mul_le_mul_left (1000 ^ k) (Nat.succ_le_of_lt hgt)
        rw [Nat.mul_succ] at hle
        omega

theorem fractionText_append {nanos : ℕ} (h : nanos < 10 ^ 9) :
    fractionText nanos ++ utcOffset = if nanos = 0 then utcOffset else '.' :: groups 3 nanos := by
  unfold fractionText
  split_ifs with hzero hmillis hmicros
  · rfl
  · rw [groups, if_neg (by omega), groups, if_pos (by omega)]
    rfl
  · rw [groups, if_neg (by omega), groups, if_neg (by omega), groups, if_pos (by omega),
      digits_add 3 3, Nat.div_div_eq_div_mul, List.cons_append, List.append_assoc]
    rfl
  · rw [groups, if_neg (by omega), groups, if_neg (by omega), groups, if_neg (by omega),
      digits_add 3 6, digits_add 3 3, List.cons_append, List.append_assoc, List.append_assoc]
    rw [pow_zero, Nat.div_one]
    rfl

theorem fractionText_lt {a b : ℕ} (h : a < b) (hb : b < 10 ^ 9) :
    fractionText a ++ utcOffset < fractionText b ++ utcOffset := by
  rw [fractionText_append (h.trans hb), fractionText_append hb, if_neg (by omega : b ≠ 0)]
  split
  · exact List.cons_lt_cons_iff.mpr (.inl (by decide))
  · refine List.cons_lt_cons_iff.mpr (.inr ⟨rfl, groups_lt ?_⟩)
    rwa [Nat.mod_eq_of_lt (by omega), Nat.mod_eq_of_lt (by omega)]

theorem timeText_lt {a b : ℕ} (h : a < b) (hb : b < 86400 * 10 ^ 9) :
    timeText a ++ utcOffset < timeText b ++ utcOffset := by
  have hsplit : ∀ n, timeText n ++ utcOffset = digits 2 (n / 10 ^ 9 / 3600) ++
      ':' :: (digits 2 (n / 10 ^ 9 / 60 % 60) ++ ':' :: (digits 2 (n / 10 ^ 9 % 60) ++
        (fractionText (n % 10 ^ 9) ++ utcOffset))) := by
    intro n
    simp only [timeText, List.append_assoc, List.cons_append]
  rw [hsplit, hsplit]
  refine append_lt_of_lex (by simp) ?_
  rcases Nat.lt_or_ge (a / 10 ^ 9 / 3600) (b / 10 ^ 9 / 3600) with hhour | hhour
  · exact .inl (digits_lt hhour (by omega))
  refine .inr ⟨by rw [show a / 10 ^ 9 / 3600 = b / 10 ^ 9 / 3600 by omega],
    List.cons_lt_cons_iff.mpr (.inr ⟨rfl, append_lt_of_lex (by simp) ?_⟩)⟩
  rcases Nat.lt_or_ge (a / 10 ^ 9 / 60 % 60) (b / 10 ^ 9 / 60 % 60) with hminute | hminute
  · exact .inl (digits_lt hminute (by omega))
  refine .inr ⟨by rw [show a / 10 ^ 9 / 60 % 60 = b / 10 ^ 9 / 60 % 60 by omega],
    List.cons_lt_cons_iff.mpr (.inr ⟨rfl, append_lt_of_lex (by simp) ?_⟩)⟩
  rcases Nat.lt_or_ge (a / 10 ^ 9 % 60) (b / 10 ^ 9 % 60) with hsecond | hsecond
  · exact .inl (digits_lt hsecond (by omega))
  · exact .inr ⟨by rw [show a / 10 ^ 9 % 60 = b / 10 ^ 9 % 60 by omega],
      fractionText_lt (by omega) (Nat.mod_lt b (by omega))⟩

/-- Texts of four-digit years sort as their instants. -/
theorem rfc3339_lt {t u : ℤ} (ht : FourDigits t) (hu : FourDigits u) (h : t < u) :
    rfc3339 t < rfc3339 u := by
  refine append_lt_of_lex ((dateText_length ht).trans (dateText_length hu).symm) ?_
  have hdays : dayOf t < dayOf u ∨ dayOf t = dayOf u ∧ nanoOfDay t < nanoOfDay u := by
    unfold dayOf nanoOfDay nanosPerDay
    omega
  rcases hdays with hday | ⟨hday, hnano⟩
  · refine .inl (dateText_lt ht hu ?_)
    rwa [dateOf, dateOf, dayNumber_dateOfDay, dayNumber_dateOfDay]
  · refine .inr ⟨by rw [dateOf, hday, dateOf], List.cons_lt_cons_iff.mpr (.inr ⟨rfl, ?_⟩)⟩
    refine timeText_lt hnano ?_
    unfold nanoOfDay nanosPerDay
    omega

theorem rfc3339_lt_iff {t u : ℤ} (ht : FourDigits t) (hu : FourDigits u) :
    rfc3339 t < rfc3339 u ↔ t < u := by
  refine ⟨fun h => ?_, rfc3339_lt ht hu⟩
  by_contra hle
  rcases (not_lt.mp hle).eq_or_lt with heq | hlt
  · exact absurd h (heq ▸ lt_irrefl _)
  · exact absurd h (lt_asymm (rfc3339_lt hu ht hlt))

theorem rfc3339_inj {t u : ℤ} (ht : FourDigits t) (hu : FourDigits u) :
    rfc3339 t = rfc3339 u ↔ t = u := by
  refine ⟨fun h => ?_, congrArg rfc3339⟩
  rcases lt_trichotomy t u with hlt | heq | hgt
  · exact absurd h (rfc3339_lt ht hu hlt).ne
  · exact heq
  · exact absurd h (rfc3339_lt hu ht hgt).ne'

/-- A text with a sign sorts before all of four-digit years. -/
theorem rfc3339_lt_of_signed {t u : ℤ} (ht : ¬ FourDigits t) (hu : FourDigits u) :
    rfc3339 t < rfc3339 u := by
  have hdigits : ∀ d < 10, '+' < Nat.digitChar d ∧ '-' < Nat.digitChar d := by decide
  have hyear : yearText (dateOf u).year = digits 4 (dateOf u).year.toNat := if_pos hu
  have hsigned : yearText (dateOf t).year = _ := if_neg ht
  obtain ⟨d, ds, hd, hcons⟩ := exists_digit_cons 3 (dateOf u).year.toNat
  rw [rfc3339, rfc3339, dateText, dateText, hyear, hsigned, hcons]
  refine List.cons_lt_cons_iff.mpr (.inl ?_)
  split
  · exact (hdigits d hd).2
  · exact (hdigits d hd).1

theorem isAscii_digits {width n : ℕ} : ∀ c ∈ digits width n, IsAscii c :=
  fun _ hc => (isDigit_of_mem_digits hc).isAscii

theorem isAscii_fractionText (nanos : ℕ) : ∀ c ∈ fractionText nanos, IsAscii c := by
  unfold fractionText
  split_ifs
  · exact fun _ hc => absurd hc List.not_mem_nil
  all_goals exact List.forall_mem_cons.mpr ⟨by decide, isAscii_digits⟩

theorem isAscii_rfc3339 {t : ℤ} (h : FourDigits t) : ∀ c ∈ rfc3339 t, IsAscii c := by
  have hdash : IsAscii '-' := by decide
  have hcolon : IsAscii ':' := by decide
  have htee : IsAscii 'T' := by decide
  have hoffset : ∀ c ∈ utcOffset, IsAscii c := List.forall_iff_forall_mem.mp (by decide)
  have hyear : yearText (dateOf t).year = digits 4 (dateOf t).year.toNat := if_pos h
  rw [rfc3339, dateText, hyear, timeText]
  simp only [List.forall_mem_append, List.forall_mem_cons]
  exact ⟨⟨isAscii_digits, hdash, isAscii_digits, hdash, isAscii_digits⟩, htee,
    ⟨isAscii_digits, hcolon, isAscii_digits, hcolon, isAscii_digits, isAscii_fractionText _⟩,
    hoffset⟩

/-- The bytes of the texts sort as the instants, too. -/
theorem utf8_rfc3339_lt_iff {t u : ℤ} (ht : FourDigits t) (hu : FourDigits u) :
    utf8 (rfc3339 t) < utf8 (rfc3339 u) ↔ t < u :=
  (utf8_lt_iff (isAscii_rfc3339 ht) (isAscii_rfc3339 hu)).trans (rfc3339_lt_iff ht hu)

end Order

end Timestamp

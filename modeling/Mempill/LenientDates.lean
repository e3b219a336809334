import Mempill.Lib.DateText
import Mempill.Lib.Timestamp
import Mempill.Queries

set_option autoImplicit false

/-!
# Lenient dates

The texts that a bound of a valid-time window is taken in, and when they are the documented
ones.
-/
namespace Mempill.LenientDates
open Mempill.Types Mempill.Persistence Mempill.Queries
open DateText DigitText Calendar Timestamp

section Parsing

/-- What `chrono` does with texts: `DateTime::<Utc>::from_str`, `parse_from_rfc3339`,
    `NaiveDate::parse_from_str` and `format`. -/
structure Chrono where
  parseInstant : List Char → Option Instant
  parseFromRfc3339 : List Char → Option Instant
  parseDate : List Char → String → Option Date
  format : Instant → String → List Char

variable (chrono : Chrono)

/-- The parser of instants takes a relaxed form of RFC 3339, never without a time of day. -/
structure Documented : Prop where
  relaxed : ∀ s t, chrono.parseFromRfc3339 s = some t → chrono.parseInstant s = some t
  timed : ∀ s t, chrono.parseInstant s = some t → ':' ∈ s
  date : ∀ s, byteLength s ≤ 10 → chrono.parseDate s "%Y-%m-%d" = readDate s
  year : ∀ t, chrono.format t "%Y" = yearText (dateOf t).year
  yearMonth : ∀ t, chrono.format t "%Y-%m" =
    yearText (dateOf t).year ++ '-' :: digits 2 (dateOf t).month
  yearMonthDay : ∀ t, chrono.format t "%Y-%m-%d" = dateText (dateOf t)

/-- `YYYY-MM-DD`. -/
def parseDay (s : List Char) : Option Date :=
  if byteLength s = 10 ∧ s[4]? = some '-' ∧ s[7]? = some '-' then chrono.parseDate s "%Y-%m-%d"
  else none

/-- `YYYY-MM`, as the first day of the month. -/
def parseMonth (s : List Char) : Option Date :=
  if byteLength s = 7 ∧ s[4]? = some '-' then
    chrono.parseDate (s ++ ['-', '0', '1']) "%Y-%m-%d"
  else none

/-- `YYYY`, as the first day of the year. -/
def parseYear (s : List Char) : Option Date :=
  if byteLength s = 4 ∧ s.all (IsDigit ·) then ofYmd (value s) 1 1 else none

def parseValidTimeDate (input : String) : Option (Instant × DateGranularity) :=
  let s := trim input.toList
  ((chrono.parseInstant s).map fun t => (t, .instant)).or
    (((parseDay chrono s).map fun d => (midnight d, .day)).or
      (((parseMonth chrono s).map fun d => (midnight d, .month)).or
        ((parseYear s).map fun d => (midnight d, .year))))

/-- The text of an endpoint that is to be shown. -/
def endpointText (endpoint : EndpointText) : String :=
  String.ofList <| chrono.format endpoint.date <|
    match endpoint.precision with
    | .year => "%Y"
    | .month => "%Y-%m"
    | .day | .instant => "%Y-%m-%d"

end Parsing

section Forms

/-- The documented forms, each with the start of its period. -/
inductive Denotes (chrono : Chrono) : List Char → Instant → DateGranularity → Prop
  | instant {s : List Char} {t : Instant} (h : chrono.parseFromRfc3339 s = some t) :
    Denotes chrono s t .instant
  | day {y m n : ℕ} {d : Date} (hy : y < 10 ^ 4) (h : ofYmd y m n = some d) :
    Denotes chrono (digits 4 y ++ '-' :: (digits 2 m ++ '-' :: digits 2 n)) (midnight d) .day
  | month {y m : ℕ} {d : Date} (hy : y < 10 ^ 4) (h : ofYmd y m 1 = some d) :
    Denotes chrono (digits 4 y ++ '-' :: digits 2 m) (midnight d) .month
  | year {y : ℕ} {d : Date} (hy : y < 10 ^ 4) (h : ofYmd y 1 1 = some d) :
    Denotes chrono (digits 4 y) (midnight d) .year

/-- The dates that pass the checks on lengths and dashes. Of four characters of a year the
    first may be a sign; blanks may pad a month and a day. -/
inductive Loose : List Char → Date → DateGranularity → Prop
  | day {y m f : List Char} {d : Date} (hy : YearText y d.year) (hm : FieldText m d.month)
    (hf : FieldText f d.day) (hyear : y.length = 4) (hmonth : m.length = 2)
    (hbytes : byteLength m + byteLength f = 4) : Loose (y ++ '-' :: (m ++ '-' :: f)) d .day
  | month {y m : List Char} {d : Date} (hy : YearText y d.year) (hm : FieldText m d.month)
    (hday : d.day = 1) (hyear : y.length = 4) (hbytes : byteLength m = 2) :
    Loose (y ++ '-' :: m) d .month
  | year {y : List Char} {d : Date} (hdigits : ∀ c ∈ y, IsDigit c) (hyear : y.length = 4)
    (h : ofYmd (value y) 1 1 = some d) : Loose y d .year

/-- A sign in front, or a blank. -/
def Untidy (s : List Char) : Prop := (∃ c ∈ s, IsBlank c) ∨ ∃ c ∈ s.head?, c = '+' ∨ c = '-'

instance (s : List Char) : Decidable (Untidy s) :=
  decidable_of_iff (s.any (IsBlank ·) ∨ s.head?.any fun c => decide (c = '+' ∨ c = '-')) <| by
    simp [Untidy, Option.any_eq_true]

/-- The first day of the period of a date. -/
def truncate (d : Date) : DateGranularity → Date
  | .year => ⟨d.year, 1, 1, Nat.le_refl 1, by omega, Nat.le_refl 1, by
      simp [daysInMonth, daysBeforeMonth]⟩
  | .month => ⟨d.year, d.month, 1, d.month_pos, d.month_le, Nat.le_refl 1,
      d.day_pos.trans d.day_le⟩
  | .day | .instant => d

variable (chrono : Chrono) (input : String)

/-- A text is taken exactly if it has a documented form, for what the form denotes, and a
    partial date is shown as it was given. -/
structure Exact : Prop where
  accepts : ∀ t g, parseValidTimeDate chrono input = some (t, g) ↔
    Denotes chrono (trim input.toList) t g
  shows : ∀ t g, parseValidTimeDate chrono input = some (t, g) → g ≠ .instant →
    (formatValidTimeEndpoint (some t) (some g)).map (endpointText chrono) =
      some (String.ofList (trim input.toList))

/-- Only RFC 3339 is taken for an instant, and no date with a sign or a blank. -/
structure Strict : Prop where
  instant : ∀ t, chrono.parseInstant (trim input.toList) = some t →
    chrono.parseFromRfc3339 (trim input.toList) = some t
  date : Untidy (trim input.toList) → ∀ d g, ¬ Loose (trim input.toList) d g

end Forms

section Shapes

variable {chrono : Chrono} {s : List Char} {d : Date} {g : DateGranularity}

theorem dash_not_mem_field {f : List Char} {n : ℕ} (h : FieldText f n) : '-' ∉ f := fun hdash =>
  (h.mem '-' hdash).elim (by decide) (by decide)

theorem dash_not_mem_tail {y : List Char} {year : ℤ} (h : YearText y year) : '-' ∉ y.tail :=
  fun hdash => absurd (h.tail '-' hdash) (by decide)

/-- A dash behind the first character ends the year or stands after it. -/
theorem dash_at {y r : List Char} {year : ℤ} {i : ℕ} (hy : YearText y year)
    (h : (y ++ '-' :: r)[i + 1]? = some '-') :
    i + 1 = y.length ∨ ∃ j, i + 1 = y.length + 1 + j ∧ r[j]? = some '-' := by
  obtain ⟨c, cs, rfl⟩ := List.exists_cons_of_ne_nil hy.ne_nil
  rw [List.cons_append, List.getElem?_cons_succ] at h
  rw [List.length_cons]
  rcases separator_at (dash_not_mem_tail hy) h with rfl | ⟨j, rfl, hr⟩
  · exact .inl rfl
  · exact .inr ⟨j, by rw [List.tail_cons]; omega, hr⟩

theorem byteLength_year {y : List Char} {year : ℤ} (hy : YearText y year) :
    byteLength y = y.length :=
  byteLength_of_isAscii fun c hc => by
    rcases hy.mem c hc with hdigit | rfl | rfl
    · exact hdigit.isAscii
    · decide
    · decide

theorem utf8Size_dash : '-'.utf8Size = 1 := by decide

/-- The bytes that the check for a granularity counts. -/
def checkedBytes : DateGranularity → ℕ
  | .year => 4
  | .month => 7
  | .day => 10
  | .instant => 0

theorem Loose.bytes (h : Loose s d g) : byteLength s = checkedBytes g := by
  cases h with
  | day hy _ _ hyear _ hbytes | month hy _ _ hyear hbytes =>
    simp only [byteLength_append, byteLength_cons, utf8Size_dash, byteLength_year hy, checkedBytes]
    omega
  | year hdigits hyear _ =>
    exact (byteLength_of_isAscii fun c hc => (hdigits c hc).isAscii).trans hyear

/-- A trimmed text reads as a date from its first character. -/
theorem readDate_trimmed_iff (htrim : ∀ c ∈ s.head?, ¬ IsBlank c) : readDate s = some d ↔
    ∃ y m f, s = y ++ '-' :: (m ++ '-' :: f) ∧ YearText y d.year ∧ FieldText m d.month ∧
      FieldText f d.day := by
  rw [readDate_eq_some_iff]
  constructor
  · rintro ⟨blanks, y, m, f, rfl, hblanks, hy, hm, hf⟩
    cases blanks with
    | nil => exact ⟨y, m, f, rfl, hy, hm, hf⟩
    | cons c blanks => exact absurd (hblanks c List.mem_cons_self) (htrim c rfl)
  · rintro ⟨y, m, f, rfl, hy, hm, hf⟩
    exact ⟨[], y, m, f, rfl, by simp, hy, hm, hf⟩

theorem parseDay_eq_some_iff (hc : Documented chrono) (htrim : ∀ c ∈ s.head?, ¬ IsBlank c) :
    parseDay chrono s = some d ↔ Loose s d .day := by
  unfold parseDay
  constructor
  · intro h
    split at h
    · rename_i hchecks
      obtain ⟨hbytes, hfour, hseven⟩ := hchecks
      rw [hc.date s hbytes.le, readDate_trimmed_iff htrim] at h
      obtain ⟨y, m, f, rfl, hy, hm, hf⟩ := h
      -- Behind the first character only the separators are dashes, so the checks place both.
      have hdash : ∀ i, (y ++ '-' :: (m ++ '-' :: f))[i + 1]? = some '-' →
          i + 1 = y.length ∨ i + 1 = y.length + 1 + m.length := by
        intro i hi
        rcases dash_at hy hi with hyear | ⟨j, hj, hrest⟩
        · exact .inl hyear
        · rcases separator_at (dash_not_mem_field hm) hrest with rfl | ⟨k, _, hk⟩
          · exact .inr hj
          · exact absurd (List.mem_of_getElem? hk) (dash_not_mem_field hf)
      have hyear := hdash 3 hfour
      have hmonth := hdash 6 hseven
      have hlengths : y.length = 4 ∧ m.length = 2 := by omega
      simp only [byteLength_append, byteLength_cons, utf8Size_dash, byteLength_year hy] at hbytes
      exact .day hy hm hf hlengths.1 hlengths.2 (by omega)
    · cases h
  · intro h
    have htotal : byteLength s = 10 := h.bytes
    cases h with
    | day hy hm hf hyear hmonth hbytes =>
      rename_i y m f
      have hfour : (y ++ '-' :: (m ++ '-' :: f))[4]? = some '-' := by
        rw [List.getElem?_append_right (by omega), hyear]
        rfl
      have hseven : (y ++ '-' :: (m ++ '-' :: f))[7]? = some '-' := by
        rw [List.getElem?_append_right (by omega), hyear, List.getElem?_cons_succ,
          List.getElem?_append_right (by omega), hmonth]
        rfl
      rw [if_pos ⟨htotal, hfour, hseven⟩, hc.date _ htotal.le, readDate_trimmed_iff htrim]
      exact ⟨y, m, f, rfl, hy, hm, hf⟩

theorem parseMonth_eq_some_iff (hc : Documented chrono) (htrim : ∀ c ∈ s.head?, ¬ IsBlank c) :
    parseMonth chrono s = some d ↔ Loose s d .month := by
  have hfirst : FieldText ['0', '1'] 1 :=
    @FieldText.intro [] ['0', '1'] (by simp)
      ⟨List.forall_iff_forall_mem.mp (by decide), by decide, by decide⟩
  have hone : ∀ {n}, FieldText ['0', '1'] n → n = 1 := fun h =>
    (h.unpadded (List.forall_iff_forall_mem.mp (by decide))).2.trans (by decide)
  unfold parseMonth
  constructor
  · intro h
    split at h
    · rename_i hchecks
      obtain ⟨hbytes, hfour⟩ := hchecks
      have htrim' : ∀ c ∈ (s ++ ['-', '0', '1']).head?, ¬ IsBlank c := by
        cases s with
        | nil => cases hfour
        | cons c s => exact htrim
      have hpadded : byteLength (s ++ ['-', '0', '1']) ≤ 10 := by
        rw [byteLength_append, hbytes]
        decide
      rw [hc.date _ hpadded, readDate_trimmed_iff htrim'] at h
      obtain ⟨y, m, f, hs, hy, hm, hf⟩ := h
      -- The appended day is what follows the last dash.
      rw [← List.cons_append, ← List.append_assoc] at hs
      obtain ⟨rfl, rfl⟩ := separator_last (by decide) (dash_not_mem_field hf) hs
      have hyear : y.length = 4 := by
        rcases dash_at hy hfour with heq | ⟨j, _, hj⟩
        · exact heq.symm
        · exact absurd (List.mem_of_getElem? hj) (dash_not_mem_field hm)
      simp only [byteLength_append, byteLength_cons, utf8Size_dash, byteLength_year hy] at hbytes
      exact .month hy hm (hone hf) hyear (by omega)
    · cases h
  · intro h
    have htotal : byteLength s = 7 := h.bytes
    cases h with
    | month hy hm hday hyear hbytes =>
      rename_i y m
      have hfour : (y ++ '-' :: m)[4]? = some '-' := by
        rw [List.getElem?_append_right (by omega), hyear]
        rfl
      have hpadded : byteLength ((y ++ '-' :: m) ++ ['-', '0', '1']) ≤ 10 := by
        rw [byteLength_append, htotal]
        decide
      have hassoc : (y ++ '-' :: m) ++ ['-', '0', '1'] = y ++ '-' :: (m ++ '-' :: ['0', '1']) := by
        simp
      rw [if_pos ⟨htotal, hfour⟩, hc.date _ hpadded, hassoc, readDate_trimmed_iff hy.head]
      exact ⟨y, m, ['0', '1'], rfl, hy, hm, hday ▸ hfirst⟩

theorem parseYear_eq_some_iff : parseYear s = some d ↔ Loose s d .year := by
  have hall : (s.all (IsDigit ·) = true) ↔ ∀ c ∈ s, IsDigit c := by simp
  unfold parseYear
  constructor
  · intro h
    split at h
    · rename_i hchecks
      obtain ⟨hbytes, hchars⟩ := hchecks
      have hdigits := hall.mp hchars
      rw [byteLength_of_isAscii fun c hc => (hdigits c hc).isAscii] at hbytes
      exact .year hdigits hbytes h
    · cases h
  · intro h
    have hbytes : byteLength s = 4 := h.bytes
    cases h with
    | year hdigits _ h => rw [if_pos ⟨hbytes, hall.mpr hdigits⟩, h]

end Shapes

section Accepted

variable {chrono : Chrono} {s : List Char} {d : Date} {t : Instant} {g : DateGranularity}
variable {input : String}

/-- The length of a date tells its granularity. -/
theorem Loose.granularity {d' : Date} {g' : DateGranularity} (h : Loose s d g)
    (h' : Loose s d' g') : g = g' := by
  have hbytes := h.bytes.symm.trans h'.bytes
  cases g <;> cases g' <;> first | rfl | cases hbytes

theorem Loose.ne_instant (h : Loose s d g) : g ≠ .instant := by
  rintro rfl
  cases h

theorem Loose.mem (h : Loose s d g) :
    ∀ c ∈ s, IsDigit c ∨ IsBlank c ∨ c = '+' ∨ c = '-' := by
  intro c hc
  have hyear : ∀ {y : List Char} {year : ℤ}, YearText y year → c ∈ y →
      IsDigit c ∨ IsBlank c ∨ c = '+' ∨ c = '-' := fun hy hmem =>
    (hy.mem c hmem).imp_right .inr
  have hfield : ∀ {f : List Char} {n : ℕ}, FieldText f n → c ∈ f →
      IsDigit c ∨ IsBlank c ∨ c = '+' ∨ c = '-' := fun hf hmem =>
    (hf.mem c hmem).elim (fun h => .inr (.inl h)) .inl
  cases h with
  | day hy hm hf _ _ _ =>
    simp only [List.mem_append, List.mem_cons] at hc
    rcases hc with hmem | rfl | hmem | rfl | hmem
    · exact hyear hy hmem
    · exact .inr (.inr (.inr rfl))
    · exact hfield hm hmem
    · exact .inr (.inr (.inr rfl))
    · exact hfield hf hmem
  | month hy hm _ _ _ =>
    simp only [List.mem_append, List.mem_cons] at hc
    rcases hc with hmem | rfl | hmem
    · exact hyear hy hmem
    · exact .inr (.inr (.inr rfl))
    · exact hfield hm hmem
  | year hdigits _ _ => exact .inl (hdigits c hc)

/-- No date has a time of day. -/
theorem Loose.parseInstant (hc : Documented chrono) (h : Loose s d g) :
    chrono.parseInstant s = none := by
  by_contra hsome
  obtain ⟨t, ht⟩ := Option.ne_none_iff_exists'.mp hsome
  rcases h.mem ':' (hc.timed s t ht) with h | h | h | h
  all_goals exact absurd h (by decide)

/-- What is taken: instants, and dates that pass the checks. -/
theorem parseValidTimeDate_eq_some_iff (hc : Documented chrono) :
    parseValidTimeDate chrono input = some (t, g) ↔
      (chrono.parseInstant (trim input.toList) = some t ∧ g = .instant) ∨
        ∃ d, Loose (trim input.toList) d g ∧ t = midnight d := by
  have htrim : ∀ c ∈ (trim input.toList).head?, ¬ IsBlank c := fun c hc => head_trim hc
  unfold parseValidTimeDate
  dsimp only
  generalize trim input.toList = s at htrim
  have hday := fun d => parseDay_eq_some_iff (d := d) hc htrim
  have hmonth := fun d => parseMonth_eq_some_iff (d := d) hc htrim
  have hyear := fun d => parseYear_eq_some_iff (s := s) (d := d)
  cases hinstant : chrono.parseInstant s with
  | some t' =>
    rw [Option.map_some, Option.some_or, Option.some.injEq, Prod.mk.injEq]
    constructor
    · rintro ⟨rfl, rfl⟩
      exact .inl ⟨rfl, rfl⟩
    · rintro (⟨ht, rfl⟩ | ⟨d, hloose, _⟩)
      · exact ⟨Option.some.inj ht, rfl⟩
      · rw [hloose.parseInstant hc] at hinstant
        cases hinstant
  | none =>
    rw [Option.map_none, Option.none_or]
    constructor
    · intro h
      refine .inr ?_
      rw [Option.or_eq_some_iff, Option.or_eq_some_iff] at h
      simp only [Option.map_eq_some_iff, hday, hmonth, hyear, Prod.mk.injEq] at h
      rcases h with ⟨d, hd, rfl, rfl⟩ | ⟨_, ⟨d, hd, rfl, rfl⟩ | ⟨_, d, hd, rfl, rfl⟩⟩
      all_goals exact ⟨d, hd, rfl⟩
    · rintro (⟨ht, _⟩ | ⟨d, hd, rfl⟩)
      · cases ht
      · have hnone : ∀ {o : Option Date} {g'}, (∀ d, o = some d ↔ Loose s d g') → g' ≠ g →
            o = none := fun ho hne =>
          Option.eq_none_iff_forall_ne_some.mpr fun d' hd' =>
            hne (((ho d').mp hd').granularity hd)
        cases g with
        | instant => cases hd
        | day => rw [(hday d).mpr hd, Option.map_some, Option.some_or]
        | month =>
          rw [hnone hday (by decide), (hmonth d).mpr hd, Option.map_none, Option.none_or,
            Option.map_some, Option.some_or]
        | year =>
          rw [hnone hday (by decide), hnone hmonth (by decide), (hyear d).mpr hd, Option.map_none,
            Option.none_or, Option.map_none, Option.none_or, Option.map_some]

end Accepted

section Documented

variable {chrono : Chrono} {s : List Char} {d : Date} {t : Instant} {g : DateGranularity}
variable {input : String}

theorem numeral_digits {width : ℕ} (hwidth : 0 < width) (n : ℕ) :
    Numeral width (digits width n) where
  digits _ hc := isDigit_of_mem_digits hc
  ne_nil := List.ne_nil_of_length_pos (by rwa [length_digits])
  length_le := (length_digits width n).le

theorem yearText_digits {y : ℕ} (hy : y < 10 ^ 4) : YearText (digits 4 y) y := by
  have hplain := YearText.plain (numeral_digits (by decide) y : Numeral 4 (digits 4 y))
  rwa [value_digits hy] at hplain

theorem fieldText_digits {n : ℕ} (hn : n < 10 ^ 2) : FieldText (digits 2 n) n := by
  have hfield := @FieldText.intro [] (digits 2 n) (by simp) (numeral_digits (by decide) n)
  rwa [value_digits hn, List.nil_append] at hfield

theorem byteLength_digits (width n : ℕ) : byteLength (digits width n) = width :=
  (byteLength_of_isAscii isAscii_digits).trans (length_digits width n)

/-- A documented date passes the checks. -/
theorem Denotes.loose (h : Denotes chrono s t g) (hg : g ≠ .instant) :
    ∃ d, Loose s d g ∧ t = midnight d := by
  have hmonth : ∀ d : Date, d.month < 10 ^ 2 := fun d => d.month_le.trans_lt (by decide)
  have hday : ∀ d : Date, d.day < 10 ^ 2 := fun d =>
    (d.day_le.trans (daysInMonth_le d.year d.month_le)).trans_lt (by decide)
  cases h with
  | instant _ => exact absurd rfl hg
  | day hy h =>
    rename_i y m n d
    obtain ⟨hyear, rfl, rfl⟩ := ofYmd_eq_some.mp h
    refine ⟨d, .day (hyear ▸ yearText_digits hy) (fieldText_digits (hmonth d))
      (fieldText_digits (hday d)) (length_digits 4 y) (length_digits 2 d.month) ?_, rfl⟩
    rw [byteLength_digits, byteLength_digits]
  | month hy h =>
    rename_i y m d
    obtain ⟨hyear, rfl, hone⟩ := ofYmd_eq_some.mp h
    exact ⟨d, .month (hyear ▸ yearText_digits hy) (fieldText_digits (hmonth d)) hone
      (length_digits 4 y) (byteLength_digits 2 d.month), rfl⟩
  | year hy h =>
    rename_i y d
    refine ⟨d, .year (fun _ hc => isDigit_of_mem_digits hc) (length_digits 4 y) ?_, rfl⟩
    rwa [value_digits hy]

/-- A date that passes the checks is documented, unless it has a sign or a blank. -/
theorem Loose.denotes (h : Loose s d g) (htidy : ¬ Untidy s) : Denotes chrono s (midnight d) g := by
  have hunsigned : ∀ {y r : List Char} {year : ℤ}, YearText y year → s = y ++ r → y.length = 4 →
      ∃ n : ℕ, n < 10 ^ 4 ∧ y = digits 4 n ∧ year = n := by
    rintro y r year hy rfl hlength
    have hsign : ∀ c ∈ y.head?, ¬ (c = '+' ∨ c = '-') := fun c hc hsign =>
      htidy (.inr ⟨c, by rw [List.head?_append, Option.mem_def.mp hc]; rfl, hsign⟩)
    obtain ⟨hdigits, hyear⟩ := hy.unsigned hsign
    exact ⟨value y, hlength ▸ value_lt hdigits, hlength ▸ (digits_value hdigits).symm, hyear⟩
  have hunpadded : ∀ {f : List Char} {n : ℕ}, FieldText f n → (∀ c ∈ f, c ∈ s) →
      byteLength f = f.length ∧ (f.length = 2 → f = digits 2 n) := by
    intro f n hf hsub
    obtain ⟨hdigits, rfl⟩ := hf.unpadded fun c hc hblank => htidy (.inl ⟨c, hsub c hc, hblank⟩)
    exact ⟨byteLength_of_isAscii fun c hc => (hdigits c hc).isAscii, fun hlength =>
      hlength ▸ (digits_value hdigits).symm⟩
  cases h with
  | day hy hm hf hyear hmonth hbytes =>
    rename_i y m f
    obtain ⟨n, hn, rfl, hvalue⟩ := hunsigned hy rfl hyear
    obtain ⟨hmbytes, hmdigits⟩ := hunpadded hm (by simp +contextual)
    obtain ⟨hfbytes, hfdigits⟩ := hunpadded hf (by simp +contextual)
    rw [hmdigits hmonth, hfdigits (by omega)]
    exact .day hn (ofYmd_eq_some.mpr ⟨hvalue, rfl, rfl⟩)
  | month hy hm hday hyear hbytes =>
    rename_i y m
    obtain ⟨n, hn, rfl, hvalue⟩ := hunsigned hy rfl hyear
    obtain ⟨hmbytes, hmdigits⟩ := hunpadded hm (by simp +contextual)
    rw [hmdigits (by omega)]
    exact .month hn (ofYmd_eq_some.mpr ⟨hvalue, rfl, hday⟩)
  | year hdigits hyear h =>
    rw [← digits_value hdigits, hyear]
    exact .year (hyear ▸ value_lt hdigits) h

/-- A documented date has neither a sign nor a blank. -/
theorem Denotes.tidy (h : Denotes chrono s t g) (hg : g ≠ .instant) : ¬ Untidy s := by
  have htidy : ∀ {y : ℕ} {r : List Char}, (∀ c ∈ r, IsDigit c ∨ c = '-') →
      ¬ Untidy (digits 4 y ++ r) := by
    intro y r hr
    obtain ⟨n, cs, hn, hcons⟩ := exists_digit_cons 3 y
    rintro (⟨c, hc, hblank⟩ | ⟨c, hc, hsign⟩)
    · rcases List.mem_append.mp hc with hmem | hmem
      · exact IsDigit.not_isBlank (isDigit_of_mem_digits hmem) hblank
      · rcases hr c hmem with hdigit | rfl
        · exact IsDigit.not_isBlank hdigit hblank
        · exact absurd hblank (by decide)
    · have hdigit : IsDigit c := by
        rw [hcons] at hc
        rw [← Option.some.inj hc]
        exact isDigit_digitChar hn
      rcases hsign with rfl | rfl <;> exact absurd hdigit (by decide)
  cases h with
  | instant _ => exact absurd rfl hg
  | day _ _ =>
    refine htidy fun c hc => ?_
    simp only [List.mem_append, List.mem_cons] at hc
    rcases hc with hdash | hmem | hdash | hmem
    · exact .inr hdash
    · exact .inl (isDigit_of_mem_digits hmem)
    · exact .inr hdash
    · exact .inl (isDigit_of_mem_digits hmem)
  | month _ _ =>
    refine htidy fun c hc => ?_
    rcases List.mem_cons.mp hc with hdash | hmem
    · exact .inr hdash
    · exact .inl (isDigit_of_mem_digits hmem)
  | year _ _ =>
    rw [← List.append_nil (digits 4 _)]
    exact htidy (by simp)

/-- The start of a documented date is shown as the date. -/
theorem Denotes.shown (hc : Documented chrono) (h : Denotes chrono s t g) (hg : g ≠ .instant) :
    (formatValidTimeEndpoint (some t) (some g)).map (endpointText chrono) =
      some (String.ofList s) := by
  have hyear : ∀ {y : ℕ}, y < 10 ^ 4 → yearText (y : ℤ) = digits 4 y := by
    intro y hy
    rw [yearText, if_pos (by omega), Int.toNat_natCast]
  cases h with
  | instant _ => exact absurd rfl hg
  | day hy h =>
    obtain ⟨hvalue, rfl, rfl⟩ := ofYmd_eq_some.mp h
    simp [formatValidTimeEndpoint, endpointText, hc.yearMonthDay, dateText, hvalue, hyear hy]
  | month hy h =>
    obtain ⟨hvalue, rfl, _⟩ := ofYmd_eq_some.mp h
    simp [formatValidTimeEndpoint, endpointText, hc.yearMonth, hvalue, hyear hy]
  | year hy h =>
    obtain ⟨hvalue, _, _⟩ := ofYmd_eq_some.mp h
    simp [formatValidTimeEndpoint, endpointText, hc.year, hvalue, hyear hy]

end Documented

section Main

variable {chrono : Chrono} {input : String}

theorem denotes_instant_iff {s : List Char} {t : Instant} :
    Denotes chrono s t .instant ↔ chrono.parseFromRfc3339 s = some t := by
  refine ⟨fun h => ?_, .instant⟩
  cases h with
  | instant h => exact h

theorem exact_of_strict (hc : Documented chrono) (h : Strict chrono input) :
    Exact chrono input := by
  have haccepts : ∀ t g, parseValidTimeDate chrono input = some (t, g) ↔
      Denotes chrono (trim input.toList) t g := by
    intro t g
    rw [parseValidTimeDate_eq_some_iff hc]
    constructor
    · rintro (⟨ht, rfl⟩ | ⟨d, hloose, rfl⟩)
      · exact .instant (h.instant t ht)
      · exact hloose.denotes fun huntidy => h.date huntidy d g hloose
    · intro hdenotes
      by_cases hg : g = .instant
      · subst hg
        exact .inl ⟨hc.relaxed _ t (denotes_instant_iff.mp hdenotes), rfl⟩
      · exact .inr (hdenotes.loose hg)
  exact ⟨haccepts, fun t g htaken hg => ((haccepts t g).mp htaken).shown hc hg⟩

theorem strict_of_exact (hc : Documented chrono) (h : Exact chrono input) :
    Strict chrono input where
  instant t ht := by
    have htaken := (parseValidTimeDate_eq_some_iff hc).mpr (.inl ⟨ht, rfl⟩)
    exact denotes_instant_iff.mp ((h.accepts t .instant).mp htaken)
  date huntidy d g hloose := by
    have htaken := (parseValidTimeDate_eq_some_iff hc).mpr (.inr ⟨d, hloose, rfl⟩)
    exact ((h.accepts (midnight d) g).mp htaken).tidy hloose.ne_instant huntidy

/-- The start of a period in the years 0 to 9999 is shown as a text that is taken for it. -/
theorem shown_is_taken (hc : Documented chrono) {d : Date} (hd : 0 ≤ d.year ∧ d.year ≤ 9999)
    {g : DateGranularity} (hg : g ≠ .instant) :
    ((formatValidTimeEndpoint (some (midnight (truncate d g))) (some g)).map
      (endpointText chrono)).bind (parseValidTimeDate chrono) =
        some (midnight (truncate d g), g) := by
  have hyear : d.year = (d.year.toNat : ℤ) := (Int.toNat_of_nonneg hd.1).symm
  have hfits : d.year.toNat < 10 ^ 4 := by omega
  have hdenotes : ∃ s, Denotes chrono s (midnight (truncate d g)) g := by
    cases g with
    | year => exact ⟨_, .year hfits (ofYmd_eq_some.mpr ⟨hyear, rfl, rfl⟩)⟩
    | month => exact ⟨_, .month hfits (ofYmd_eq_some.mpr ⟨hyear, rfl, rfl⟩)⟩
    | day => exact ⟨_, .day hfits (ofYmd_eq_some.mpr ⟨hyear, rfl, rfl⟩)⟩
    | instant => exact absurd rfl hg
  obtain ⟨s, hs⟩ := hdenotes
  have hblank : ∀ c ∈ s, ¬ IsBlank c := fun c hmem hblank => hs.tidy hg (.inl ⟨c, hmem, hblank⟩)
  rw [hs.shown hc hg, Option.bind_some, parseValidTimeDate_eq_some_iff hc, String.toList_ofList,
    trim_of_no_blank hblank]
  exact .inr (hs.loose hg)

/-- Every text is taken and shown as documented exactly if no relaxed instant and no date with
    a sign or a blank is read in it; and every period of the years 0 to 9999 is read back. -/
theorem lenient_dates_exact_iff (hc : Documented chrono) :
    (∀ input, Exact chrono input ↔ Strict chrono input) ∧
      ∀ d : Date, 0 ≤ d.year ∧ d.year ≤ 9999 → ∀ g, g ≠ .instant →
        ((formatValidTimeEndpoint (some (midnight (truncate d g))) (some g)).map
          (endpointText chrono)).bind (parseValidTimeDate chrono) =
            some (midnight (truncate d g), g) :=
  ⟨fun _ => ⟨strict_of_exact hc, exact_of_strict hc⟩, fun _ hd _ hg => shown_is_taken hc hd hg⟩

end Main

section Sample

/-- Knows one instant, in RFC 3339 and with a blank in its date. -/
def sample : Chrono where
  parseInstant s :=
    if s = "2024-05-15T10:30:00Z".toList ∨ s = "2024- 05-15T10:30:00Z".toList then
      some (1715769000 * 10 ^ 9)
    else none
  parseFromRfc3339 s :=
    if s = "2024-05-15T10:30:00Z".toList then some (1715769000 * 10 ^ 9) else none
  parseDate s _ := readDate s
  format t pattern :=
    if pattern = "%Y" then yearText (dateOf t).year
    else if pattern = "%Y-%m" then yearText (dateOf t).year ++ '-' :: digits 2 (dateOf t).month
    else dateText (dateOf t)

theorem sample_documented : Documented sample where
  relaxed s t h := by
    unfold sample at h ⊢
    dsimp only at h ⊢
    split at h
    · rename_i hs
      rwa [if_pos (.inl hs)]
    · cases h
  timed s t h := by
    unfold sample at h
    dsimp only at h
    split at h
    · rename_i hs
      rcases hs with rfl | rfl <;> decide
    · cases h
  date _ _ := rfl
  year _ := rfl
  yearMonth _ := rfl
  yearMonthDay _ := rfl

/-- A month is shown as it was given, and read back. -/
theorem may_is_exact : Exact sample " 2024-05 " ∧ ∃ d, ofYmd 2024 5 15 = some d ∧
    ((formatValidTimeEndpoint (some (midnight (truncate d .month))) (some .month)).map
      (endpointText sample)).bind (parseValidTimeDate sample) =
        some (midnight (truncate d .month), .month) := by
  obtain ⟨hexact, hback⟩ := lenient_dates_exact_iff sample_documented
  refine ⟨(hexact " 2024-05 ").mpr ⟨fun t ht => ?_, fun h => absurd h (by decide)⟩, ?_⟩
  · have hnone : sample.parseInstant (trim " 2024-05 ".toList) = none := by decide
    rw [hnone] at ht
    cases ht
  · exact ⟨_, rfl, hback _ (by decide) .month (by decide)⟩

/-- Dates with blanks or a sign are taken, and an instant with a blank. -/
theorem padded_dates_are_taken :
    (parseValidTimeDate sample "2024- 5- 3" = some (1714694400 * 10 ^ 9, .day) ∧
      ¬ Exact sample "2024- 5- 3") ∧
    (parseValidTimeDate sample "-024-05" = some (-62914147200 * 10 ^ 9, .month) ∧
      ¬ Exact sample "-024-05") ∧
    parseValidTimeDate sample "2024- 05-15T10:30:00Z" =
        some (1715769000 * 10 ^ 9, .instant) ∧
      ¬ Exact sample "2024- 05-15T10:30:00Z" := by
  have hnot : ∀ {input : String} {t : Instant} {g : DateGranularity},
      parseValidTimeDate sample input = some (t, g) → g ≠ .instant →
        Untidy (trim input.toList) → ¬ Exact sample input := fun htaken hg huntidy h =>
    ((h.accepts _ _).mp htaken).tidy hg huntidy
  have hday : parseValidTimeDate sample "2024- 5- 3" = some (1714694400 * 10 ^ 9, .day) := by
    decide
  have hmonth : parseValidTimeDate sample "-024-05" =
      some (-62914147200 * 10 ^ 9, .month) := by decide
  have hinstant : parseValidTimeDate sample "2024- 05-15T10:30:00Z" =
      some (1715769000 * 10 ^ 9, .instant) := by decide
  refine ⟨⟨hday, hnot hday (by decide) (by decide)⟩, ⟨hmonth, hnot hmonth (by decide) (by decide)⟩,
    hinstant, fun h => ?_⟩
  have hrfc := denotes_instant_iff.mp ((h.accepts _ _).mp hinstant)
  exact absurd hrfc (by decide)

end Sample

end Mempill.LenientDates

import Mathlib.Data.List.DropRight
import Mempill.Lib.Calendar
import Mempill.Lib.DigitText

set_option autoImplicit false

/-!
# Dates in texts

What `%Y-%m-%d` reads: blanks may stand before a number, and a year may have a sign. Also
white space and lengths in bytes.
-/
namespace DateText
open DigitText Calendar

section Blanks

/-- The characters of the property `White_Space`. -/
def IsBlank (c : Char) : Prop :=
  (9 ≤ c.toNat ∧ c.toNat ≤ 13) ∨ (0x2000 ≤ c.toNat ∧ c.toNat ≤ 0x200A) ∨
    c.toNat ∈ [0x20, 0x85, 0xA0, 0x1680, 0x2028, 0x2029, 0x202F, 0x205F, 0x3000]

instance (c : Char) : Decidable (IsBlank c) := inferInstanceAs (Decidable (_ ∨ _ ∨ _))

def skipBlanks (s : List Char) : List Char := s.dropWhile (IsBlank ·)

/-- Without the blanks at both ends. -/
def trim (s : List Char) : List Char := (skipBlanks s).rdropWhile (IsBlank ·)

variable {s : List Char} {c : Char}

theorem IsDigit.not_isBlank (h : IsDigit c) : ¬ IsBlank c := by
  have hlow : 48 ≤ c.toNat := h.1
  have hhigh : c.toNat ≤ 57 := h.2
  simp only [IsBlank, List.mem_cons, List.not_mem_nil, or_false]
  omega

theorem head_skipBlanks (h : c ∈ (skipBlanks s).head?) : ¬ IsBlank c := by
  have hhead := List.head?_dropWhile_not (fun c => decide (IsBlank c)) s
  rw [← skipBlanks, Option.mem_def.mp h] at hhead
  simpa using hhead

theorem skipBlanks_of_head (h : ∀ c ∈ s.head?, ¬ IsBlank c) : skipBlanks s = s := by
  cases s with
  | nil => rfl
  | cons c s => exact List.dropWhile_cons_of_neg (by simpa using h c rfl)

theorem skipBlanks_append {blanks : List Char} (hblanks : ∀ c ∈ blanks, IsBlank c)
    (h : ∀ c ∈ s.head?, ¬ IsBlank c) : skipBlanks (blanks ++ s) = s := by
  rw [skipBlanks, List.dropWhile_append_of_pos (by simpa using hblanks)]
  exact skipBlanks_of_head h

theorem exists_blanks (s : List Char) :
    ∃ blanks, s = blanks ++ skipBlanks s ∧ ∀ c ∈ blanks, IsBlank c := by
  refine ⟨s.takeWhile (IsBlank ·), List.takeWhile_append_dropWhile.symm, fun c hc => ?_⟩
  simpa using List.mem_takeWhile_imp hc

/-- A trimmed text does not begin with a blank. -/
theorem head_trim (h : c ∈ (trim s).head?) : ¬ IsBlank c := by
  obtain ⟨rest, hrest⟩ := List.rdropWhile_prefix (fun c => decide (IsBlank c)) (skipBlanks s)
  refine head_skipBlanks (s := s) ?_
  rw [← hrest, ← trim, List.head?_append, Option.mem_def.mp h]
  rfl

theorem trim_of_no_blank (h : ∀ c ∈ s, ¬ IsBlank c) : trim s = s := by
  rw [trim, skipBlanks_of_head fun c hc => h c (List.mem_of_mem_head? hc),
    List.rdropWhile_eq_self_iff]
  exact fun hs => by simpa using h _ (List.getLast_mem hs)

end Blanks

section Bytes

/-- The length in UTF-8. -/
def byteLength (s : List Char) : ℕ := (s.map Char.utf8Size).sum

variable {s s' : List Char} {c : Char}

@[simp] theorem byteLength_nil : byteLength [] = 0 := rfl

@[simp] theorem byteLength_cons : byteLength (c :: s) = c.utf8Size + byteLength s := rfl

@[simp] theorem byteLength_append : byteLength (s ++ s') = byteLength s + byteLength s' := by
  simp [byteLength]

theorem utf8Size_of_isAscii (h : IsAscii c) : c.utf8Size = 1 := by
  have hsmall : c.toNat ≤ 127 := Nat.le_of_lt_succ h
  exact Char.utf8Size_eq_one_iff.mpr hsmall

theorem byteLength_of_isAscii (h : ∀ c ∈ s, IsAscii c) : byteLength s = s.length := by
  induction s with
  | nil => rfl
  | cons c s ih =>
    obtain ⟨hc, hs⟩ := List.forall_mem_cons.mp h
    rw [byteLength_cons, utf8Size_of_isAscii hc, ih hs, List.length_cons, Nat.add_comm]

end Bytes

section Numbers

/-- One to `width` digits. -/
structure Numeral (width : ℕ) (ds : List Char) : Prop where
  digits : ∀ c ∈ ds, IsDigit c
  ne_nil : ds ≠ []
  length_le : ds.length ≤ width

/-- The longest number of at most `width` digits in front, and the rest. -/
def number (width : ℕ) (s : List Char) : Option (ℕ × List Char) :=
  let ds := (s.takeWhile (IsDigit ·)).take width
  if ds = [] then none else some (value ds, s.drop ds.length)

def literal (c : Char) : List Char → Option (List Char)
  | d :: rest => if d = c then some rest else none
  | [] => none

/-- A signed number has any number of digits. -/
def signedNumber (width : ℕ) : List Char → Option (ℤ × List Char)
  | '-' :: rest => (number rest.length rest).map fun p => (-(p.1 : ℤ), p.2)
  | '+' :: rest => (number rest.length rest).map fun p => ((p.1 : ℤ), p.2)
  | s => (number width s).map fun p => ((p.1 : ℤ), p.2)

variable {width n : ℕ} {s rest ds : List Char}

theorem number_split (h : number width s = some (n, rest)) :
    ∃ ds, s = ds ++ rest ∧ Numeral width ds ∧ value ds = n := by
  unfold number at h
  dsimp only at h
  split at h
  · cases h
  · rename_i hne
    cases h
    refine ⟨_, ?_, ⟨fun c hc => ?_, hne, List.length_take_le _ _⟩, rfl⟩
    · exact (List.prefix_iff_eq_append.mp
        ((List.take_prefix _ _).trans (List.takeWhile_prefix _))).symm
    · simpa using List.mem_takeWhile_imp (List.mem_of_mem_take hc)

theorem number_append (hds : Numeral width ds) (hrest : ∀ c ∈ rest.head?, ¬ IsDigit c) :
    number width (ds ++ rest) = some (value ds, rest) := by
  have hstop : rest.takeWhile (IsDigit ·) = [] := by
    cases rest with
    | nil => rfl
    | cons c rest => exact List.takeWhile_cons_of_neg (by simpa using hrest c rfl)
  have htake : ((ds ++ rest).takeWhile (IsDigit ·)).take width = ds := by
    rw [List.takeWhile_append_of_pos (by simpa using hds.digits), hstop, List.append_nil,
      List.take_of_length_le hds.length_le]
  rw [number, htake, if_neg hds.ne_nil, List.drop_left]

theorem literal_eq_some_iff {c : Char} : literal c s = some rest ↔ s = c :: rest := by
  cases s with
  | nil => simp [literal]
  | cons d s =>
    rw [literal, List.cons.injEq]
    split <;> simp_all

variable (rest) in
theorem Numeral.head (h : Numeral width ds) : ∃ c ∈ (ds ++ rest).head?, IsDigit c := by
  obtain ⟨c, cs, rfl⟩ := List.exists_cons_of_ne_nil h.ne_nil
  exact ⟨c, rfl, h.digits c List.mem_cons_self⟩

end Numbers

section Separators

variable {a b l r : List Char} {c : Char} {i : ℕ}

/-- A character that a text does not have is found at its separator or after it. -/
theorem separator_at (hl : c ∉ l) (h : (l ++ c :: r)[i]? = some c) :
    i = l.length ∨ ∃ j, i = l.length + 1 + j ∧ r[j]? = some c := by
  rcases Nat.lt_trichotomy i l.length with hlt | heq | hgt
  · rw [List.getElem?_append_left hlt] at h
    exact absurd (List.mem_of_getElem? h) hl
  · exact .inl heq
  · obtain ⟨j, rfl⟩ := Nat.exists_eq_add_of_lt hgt
    rw [List.getElem?_append_right (by omega)] at h
    refine .inr ⟨j, by omega, ?_⟩
    rwa [show l.length + j + 1 - l.length = j + 1 by omega, List.getElem?_cons_succ] at h

theorem separator_last (hr : c ∉ r) (hb : c ∉ b) (h : l ++ c :: r = a ++ c :: b) :
    l = a ∧ r = b := by
  have hback : ∀ {p q : List Char}, c ∉ q →
      (p ++ c :: q).reverse.takeWhile (· != c) = q.reverse := by
    intro p q hq
    rw [List.reverse_append, List.reverse_cons, List.append_assoc,
      List.takeWhile_append_of_pos fun x hx => ?_]
    · simp
    · simpa using fun heq : x = c => hq (heq ▸ List.mem_reverse.mp hx)
  have hsame := hback hr (p := l)
  rw [h, hback hb] at hsame
  obtain rfl := List.reverse_injective hsame
  exact ⟨List.append_cancel_right h, rfl⟩

end Separators

section Dates

/-- What reads as a month or a day: at most two digits, after any blanks. -/
inductive FieldText : List Char → ℕ → Prop
  | intro {blanks ds : List Char} (hblanks : ∀ c ∈ blanks, IsBlank c) (hds : Numeral 2 ds) :
    FieldText (blanks ++ ds) (value ds)

/-- What reads as a year: at most four digits, or any digits after a sign. -/
inductive YearText : List Char → ℤ → Prop
  | plain {ds : List Char} (hds : Numeral 4 ds) : YearText ds (value ds)
  | plus {ds : List Char} (hds : Numeral ds.length ds) : YearText ('+' :: ds) (value ds)
  | minus {ds : List Char} (hds : Numeral ds.length ds) : YearText ('-' :: ds) (-(value ds : ℤ))

/-- `%Y-%m-%d`. -/
def readDate (s : List Char) : Option Date := do
  let (year, s) ← signedNumber 4 (skipBlanks s)
  let s ← literal '-' s
  let (month, s) ← number 2 (skipBlanks s)
  let s ← literal '-' s
  let (day, s) ← number 2 (skipBlanks s)
  if s = [] then ofYmd year month day else none

variable {s rest : List Char} {n : ℕ} {year : ℤ} {d : Date}

theorem FieldText.of_number (h : number 2 (skipBlanks s) = some (n, rest)) :
    ∃ f, s = f ++ rest ∧ FieldText f n := by
  obtain ⟨blanks, hs, hblanks⟩ := exists_blanks s
  obtain ⟨ds, hskip, hds, rfl⟩ := number_split h
  refine ⟨blanks ++ ds, ?_, .intro hblanks hds⟩
  rw [List.append_assoc, ← hskip]
  exact hs

theorem FieldText.number {f : List Char} (h : FieldText f n)
    (hrest : ∀ c ∈ rest.head?, ¬ IsDigit c) :
    DateText.number 2 (skipBlanks (f ++ rest)) = some (n, rest) := by
  cases h with
  | intro hblanks hds =>
    obtain ⟨c, hc, hdigit⟩ := hds.head rest
    rw [List.append_assoc, skipBlanks_append hblanks, number_append hds hrest]
    intro c' hc'
    rw [Option.mem_unique hc' hc]
    exact IsDigit.not_isBlank hdigit

theorem YearText.of_signedNumber (h : signedNumber 4 s = some (year, rest)) :
    ∃ y, s = y ++ rest ∧ YearText y year := by
  unfold signedNumber at h
  split at h
  · obtain ⟨⟨n, r⟩, hnumber, hpair⟩ := Option.map_eq_some_iff.mp h
    obtain ⟨ds, rfl, hds, rfl⟩ := number_split hnumber
    cases hpair
    exact ⟨'-' :: ds, rfl, .minus ⟨hds.digits, hds.ne_nil, Nat.le_refl _⟩⟩
  · obtain ⟨⟨n, r⟩, hnumber, hpair⟩ := Option.map_eq_some_iff.mp h
    obtain ⟨ds, rfl, hds, rfl⟩ := number_split hnumber
    cases hpair
    exact ⟨'+' :: ds, rfl, .plus ⟨hds.digits, hds.ne_nil, Nat.le_refl _⟩⟩
  · obtain ⟨⟨n, r⟩, hnumber, hpair⟩ := Option.map_eq_some_iff.mp h
    obtain ⟨ds, rfl, hds, rfl⟩ := number_split hnumber
    cases hpair
    exact ⟨ds, rfl, .plain hds⟩

theorem YearText.signedNumber {y : List Char} (h : YearText y year)
    (hrest : ∀ c ∈ rest.head?, ¬ IsDigit c) :
    DateText.signedNumber 4 (y ++ rest) = some (year, rest) := by
  have hsigned : ∀ {ds : List Char}, Numeral ds.length ds →
      DateText.number (ds ++ rest).length (ds ++ rest) = some (value ds, rest) := fun hds =>
    number_append ⟨hds.digits, hds.ne_nil, by simp⟩ hrest
  cases h with
  | plus hds =>
    rw [List.cons_append, DateText.signedNumber, hsigned hds]
    rfl
  | minus hds =>
    rw [List.cons_append, DateText.signedNumber, hsigned hds]
    rfl
  | plain hds =>
    obtain ⟨c, cs, rfl⟩ := List.exists_cons_of_ne_nil hds.ne_nil
    have hdigit := hds.digits c List.mem_cons_self
    have hminus : c ≠ '-' := fun h => absurd (h ▸ hdigit) (by decide)
    have hplus : c ≠ '+' := fun h => absurd (h ▸ hdigit) (by decide)
    have hnumber := number_append hds hrest
    rw [List.cons_append] at hnumber ⊢
    unfold DateText.signedNumber
    split
    · rename_i heq
      exact absurd (List.cons.inj heq).1 hminus
    · rename_i heq
      exact absurd (List.cons.inj heq).1 hplus
    · rw [hnumber]
      rfl

theorem YearText.head {y : List Char} (h : YearText y year) :
    ∀ c ∈ (y ++ rest).head?, ¬ IsBlank c := by
  intro c hc
  cases h with
  | plain hds =>
    obtain ⟨c', hc', hdigit⟩ := hds.head rest
    rw [Option.mem_unique hc hc']
    exact IsDigit.not_isBlank hdigit
  | plus _ =>
    cases hc
    decide
  | minus _ =>
    cases hc
    decide

theorem YearText.ne_nil {y : List Char} (h : YearText y year) : y ≠ [] := by
  cases h with
  | plain hds => exact hds.ne_nil
  | plus _ => nofun
  | minus _ => nofun

/-- A sign stands only in front of a year. -/
theorem YearText.tail {y : List Char} (h : YearText y year) : ∀ c ∈ y.tail, IsDigit c := by
  cases h with
  | plain hds => exact fun c hc => hds.digits c (List.mem_of_mem_tail hc)
  | plus hds => exact hds.digits
  | minus hds => exact hds.digits

theorem YearText.mem {y : List Char} (h : YearText y year) :
    ∀ c ∈ y, IsDigit c ∨ c = '+' ∨ c = '-' := by
  intro c hc
  cases h with
  | plain hds => exact .inl (hds.digits c hc)
  | plus hds =>
    rcases List.mem_cons.mp hc with rfl | hds'
    · exact .inr (.inl rfl)
    · exact .inl (hds.digits c hds')
  | minus hds =>
    rcases List.mem_cons.mp hc with rfl | hds'
    · exact .inr (.inr rfl)
    · exact .inl (hds.digits c hds')

/-- A year without a sign is its digits. -/
theorem YearText.unsigned {y : List Char} (h : YearText y year)
    (hsign : ∀ c ∈ y.head?, ¬ (c = '+' ∨ c = '-')) : (∀ c ∈ y, IsDigit c) ∧ year = value y := by
  cases h with
  | plain hds => exact ⟨hds.digits, rfl⟩
  | plus _ => exact absurd (.inl rfl) (hsign '+' rfl)
  | minus _ => exact absurd (.inr rfl) (hsign '-' rfl)

theorem FieldText.mem {f : List Char} (h : FieldText f n) : ∀ c ∈ f, IsBlank c ∨ IsDigit c := by
  intro c hc
  cases h with
  | intro hblanks hds =>
    rcases List.mem_append.mp hc with hblank | hdigit
    · exact .inl (hblanks c hblank)
    · exact .inr (hds.digits c hdigit)

/-- A number without blanks is its digits. -/
theorem FieldText.unpadded {f : List Char} (h : FieldText f n) (hblank : ∀ c ∈ f, ¬ IsBlank c) :
    (∀ c ∈ f, IsDigit c) ∧ n = value f := by
  have hdigits : ∀ c ∈ f, IsDigit c := fun c hc => (h.mem c hc).resolve_left (hblank c hc)
  refine ⟨hdigits, ?_⟩
  cases h with
  | intro hblanks hds =>
    rename_i blanks ds
    cases blanks with
    | nil => rfl
    | cons c blanks => exact absurd (hblanks c List.mem_cons_self) (hblank c List.mem_cons_self)

/-- A text reads as a date exactly if it is made of a year, a month and a day that do. -/
theorem readDate_eq_some_iff : readDate s = some d ↔
    ∃ blanks y m f, s = blanks ++ (y ++ '-' :: (m ++ '-' :: f)) ∧ (∀ c ∈ blanks, IsBlank c) ∧
      YearText y d.year ∧ FieldText m d.month ∧ FieldText f d.day := by
  have hdash : ∀ (r : List Char), ∀ c ∈ ('-' :: r).head?, ¬ IsDigit c := by
    intro r c hc
    cases hc
    decide
  constructor
  · intro h
    simp only [readDate, Option.bind_eq_bind, Option.bind_eq_some_iff] at h
    obtain ⟨⟨year, s₁⟩, hyear, s₂, hs₂, ⟨month, s₃⟩, hmonth, s₄, hs₄, ⟨day, s₅⟩, hday, h⟩ := h
    obtain ⟨blanks, hs, hblanks⟩ := exists_blanks s
    obtain ⟨y, hskip, hy⟩ := YearText.of_signedNumber hyear
    obtain ⟨m, hm₂, hm⟩ := FieldText.of_number hmonth
    obtain ⟨f, hf₄, hf⟩ := FieldText.of_number hday
    split at h
    · rename_i hend
      obtain ⟨rfl, rfl, rfl⟩ := ofYmd_eq_some.mp h
      refine ⟨blanks, y, m, f, ?_, hblanks, hy, hm, hf⟩
      dsimp only at hs₂ hs₄ hend hskip hm₂ hf₄
      rw [literal_eq_some_iff.mp hs₂, hm₂, literal_eq_some_iff.mp hs₄, hf₄, hend,
        List.append_nil] at hskip
      rw [← hskip]
      exact hs
    · cases h
  · rintro ⟨blanks, y, m, f, rfl, hblanks, hy, hm, hf⟩
    have hend : DateText.number 2 (skipBlanks f) = some (d.day, []) := by
      have hday := @FieldText.number [] d.day f hf (by simp)
      rwa [List.append_nil] at hday
    simp only [readDate, Option.bind_eq_bind, skipBlanks_append hblanks hy.head,
      hy.signedNumber (hdash _), Option.bind_some, literal, if_true, hm.number (hdash _), hend]
    exact ofYmd_eq_some.mpr ⟨rfl, rfl, rfl⟩

example : readDate "2024- 5- 3".toList = ofYmd 2024 5 3 := by decide

end Dates

end DateText

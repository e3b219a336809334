import Mathlib.Algebra.Order.Ring.Nat
import Mathlib.Data.Char
import Mathlib.Data.List.Induction
import Mathlib.Data.List.Lex

set_option autoImplicit false

/-!
# Digit texts

Decimal numbers of a fixed width, and the order of texts made of them: texts are lists
of characters, compared character by character.
-/
namespace DigitText

section Order

variable {α : Type*} [LinearOrder α] {p p' q q' : List α}

theorem append_lt_append (hlength : p.length = p'.length) (h : p < p') : p ++ q < p' ++ q' := by
  induction p generalizing p' with
  | nil =>
    rw [List.length_eq_zero_iff.mp hlength.symm] at h
    exact absurd h (lt_irrefl _)
  | cons a p ih =>
    cases p' with
    | nil => cases hlength
    | cons a' p' =>
      rcases List.cons_lt_cons_iff.mp h with hlt | ⟨rfl, htail⟩
      · exact List.cons_lt_cons_iff.mpr (.inl hlt)
      · exact List.cons_lt_cons_iff.mpr (.inr ⟨rfl, ih (Nat.succ.inj hlength) htail⟩)

/-- Texts that begin with a field of fixed width, by the field and then by the rest. -/
theorem append_lt_of_lex (hlength : p.length = p'.length) (h : p < p' ∨ p = p' ∧ q < q') :
    p ++ q < p' ++ q' := by
  rcases h with hlt | ⟨rfl, hlt⟩
  · exact append_lt_append hlength hlt
  · exact List.append_left_lt hlt

end Order

section Digits

/-- The last `width` decimal digits of a number. -/
def digits : ℕ → ℕ → List Char
  | 0, _ => []
  | width + 1, n => digits width (n / 10) ++ [Nat.digitChar (n % 10)]

@[simp] theorem length_digits (width n : ℕ) : (digits width n).length = width := by
  induction width generalizing n with
  | zero => rfl
  | succ width ih => rw [digits, List.length_append, ih, List.length_singleton]

theorem digitChar_lt {a b : ℕ} (h : a < b) (hb : b < 10) : Nat.digitChar a < Nat.digitChar b := by
  have hall : ∀ b < 10, ∀ a < b, Nat.digitChar a < Nat.digitChar b := by decide
  exact hall b hb a h

/-- Numbers that fit the width sort as their digits. -/
theorem digits_lt {width a b : ℕ} (h : a < b) (hb : b < 10 ^ width) :
    digits width a < digits width b := by
  induction width generalizing a b with
  | zero => omega
  | succ width ih =>
    rw [pow_succ] at hb
    refine append_lt_of_lex (by rw [length_digits, length_digits]) ?_
    rcases Nat.lt_or_ge (a / 10) (b / 10) with hlt | hge
    · exact .inl (ih hlt (by omega))
    · have heq : a / 10 = b / 10 := by omega
      exact .inr ⟨by rw [heq], List.cons_lt_cons_iff.mpr
        (.inl (digitChar_lt (by omega) (Nat.mod_lt b (by omega))))⟩

theorem digits_mod (width n : ℕ) : digits width (n % 10 ^ width) = digits width n := by
  induction width generalizing n with
  | zero => rfl
  | succ width ih =>
    rw [digits, digits, pow_succ', Nat.mod_mul_right_div_self, ih, Nat.mod_mul_right_mod]

theorem digits_lt_of_mod {width a b : ℕ} (h : a % 10 ^ width < b % 10 ^ width) :
    digits width a < digits width b := by
  rw [← digits_mod width a, ← digits_mod width b]
  exact digits_lt h (Nat.mod_lt b (Nat.pow_pos (by omega)))

theorem digits_add (v w n : ℕ) : digits (v + w) n = digits v (n / 10 ^ w) ++ digits w n := by
  induction w generalizing n with
  | zero => rw [pow_zero, Nat.div_one, Nat.add_zero, digits, List.append_nil]
  | succ w ih =>
    rw [← Nat.add_assoc, digits, ih, digits, List.append_assoc, Nat.div_div_eq_div_mul,
      ← pow_succ']

/-- A digit in front of which a sign of the offset sorts. -/
theorem exists_digit_cons (width n : ℕ) :
    ∃ d cs, d < 10 ∧ digits (width + 1) n = Nat.digitChar d :: cs := by
  induction width generalizing n with
  | zero => exact ⟨n % 10, [], Nat.mod_lt n (by omega), rfl⟩
  | succ width ih =>
    obtain ⟨d, cs, hd, hcs⟩ := ih (n / 10)
    exact ⟨d, cs ++ [Nat.digitChar (n % 10)], hd, by rw [digits, hcs, List.cons_append]⟩

end Digits

section Values

def IsDigit (c : Char) : Prop := '0' ≤ c ∧ c ≤ '9'

instance (c : Char) : Decidable (IsDigit c) := inferInstanceAs (Decidable (_ ∧ _))

def digitValue (c : Char) : ℕ := c.toNat - 48

/-- What a text of digits stands for. -/
def value (s : List Char) : ℕ := s.foldl (fun n c => 10 * n + digitValue c) 0

theorem value_concat (s : List Char) (c : Char) :
    value (s ++ [c]) = 10 * value s + digitValue c := by
  rw [value, List.foldl_append]
  rfl

theorem digitValue_digitChar {d : ℕ} (h : d < 10) : digitValue (Nat.digitChar d) = d := by
  have hall : ∀ d < 10, digitValue (Nat.digitChar d) = d := by decide
  exact hall d h

theorem isDigit_digitChar {d : ℕ} (h : d < 10) : IsDigit (Nat.digitChar d) := by
  have hall : ∀ d < 10, IsDigit (Nat.digitChar d) := by decide
  exact hall d h

theorem digitChar_digitValue {c : Char} (h : IsDigit c) :
    digitValue c < 10 ∧ Nat.digitChar (digitValue c) = c := by
  have hlow : 48 ≤ c.toNat := h.1
  have hhigh : c.toNat ≤ 57 := h.2
  have hvalue : digitValue c < 10 := by
    unfold digitValue
    omega
  refine ⟨hvalue, Char.toNat_inj.mp ?_⟩
  rw [Nat.toNat_digitChar_of_lt_ten hvalue, digitValue]
  omega

theorem isDigit_of_mem_digits {width n : ℕ} {c : Char} (h : c ∈ digits width n) : IsDigit c := by
  induction width generalizing n with
  | zero => exact absurd h List.not_mem_nil
  | succ width ih =>
    rcases List.mem_append.mp h with h | h
    · exact ih h
    · rw [List.mem_singleton.mp h]
      exact isDigit_digitChar (Nat.mod_lt n (by omega))

theorem value_digits {width n : ℕ} (h : n < 10 ^ width) : value (digits width n) = n := by
  induction width generalizing n with
  | zero =>
    rw [pow_zero] at h
    rw [digits, Nat.lt_one_iff.mp h]
    rfl
  | succ width ih =>
    rw [pow_succ] at h
    rw [digits, value_concat, ih (by omega), digitValue_digitChar (Nat.mod_lt n (by omega))]
    omega

theorem value_lt {s : List Char} (h : ∀ c ∈ s, IsDigit c) : value s < 10 ^ s.length := by
  induction s using List.reverseRecOn with
  | nil => exact Nat.one_pos
  | append_singleton s c ih =>
    have hs := ih fun c hc => h c (List.mem_append_left _ hc)
    have hc := (digitChar_digitValue (h c (List.mem_append_right _ (List.mem_singleton_self c)))).1
    rw [value_concat, List.length_append, List.length_singleton, pow_succ]
    omega

theorem digits_value {s : List Char} (h : ∀ c ∈ s, IsDigit c) : digits s.length (value s) = s := by
  induction s using List.reverseRecOn with
  | nil => rfl
  | append_singleton s c ih =>
    have hc := digitChar_digitValue (h c (List.mem_append_right _ (List.mem_singleton_self c)))
    rw [List.length_append, List.length_singleton, digits, value_concat,
      show (10 * value s + digitValue c) / 10 = value s by omega,
      show (10 * value s + digitValue c) % 10 = digitValue c by omega,
      ih fun c hc => h c (List.mem_append_left _ hc), hc.2]

end Values

section Bytes

/-- The bytes of a text in UTF-8. -/
def utf8 (s : List Char) : List UInt8 := s.flatMap String.utf8EncodeChar

def IsAscii (c : Char) : Prop := c.toNat < 128

instance (c : Char) : Decidable (IsAscii c) := inferInstanceAs (Decidable (_ < _))

theorem IsDigit.isAscii {c : Char} (h : IsDigit c) : IsAscii c :=
  lt_of_le_of_lt (show c.toNat ≤ 57 from h.2) (by decide)

theorem utf8_of_ascii {s : List Char} (h : ∀ c ∈ s, IsAscii c) :
    utf8 s = s.map fun c => c.val.toUInt8 := by
  rw [utf8, List.map_eq_flatMap]
  refine List.flatMap_congr fun c hc => String.utf8EncodeChar_eq_singleton ?_
  have hascii : c.val.toNat < 128 := h c hc
  rw [Char.utf8Size, if_pos]
  exact UInt32.le_iff_toNat_le.mpr (Nat.le_of_lt_succ hascii)

theorem map_lt_map_iff {α β : Type*} [LT α] [LT β] {f : α → β} {s s' : List α}
    (h : ∀ a ∈ s, ∀ b ∈ s', (f a < f b ↔ a < b) ∧ (f a = f b ↔ a = b)) :
    s.map f < s'.map f ↔ s < s' := by
  induction s generalizing s' with
  | nil => cases s' <;> simp
  | cons a s ih =>
    cases s' with
    | nil => simp
    | cons b s' =>
      have hrest : s.map f < s'.map f ↔ s < s' :=
        ih fun c hc d hd => h c (List.mem_cons_of_mem a hc) d (List.mem_cons_of_mem b hd)
      have hhead := h a List.mem_cons_self b List.mem_cons_self
      rw [List.map_cons, List.map_cons, List.cons_lt_cons_iff, List.cons_lt_cons_iff, hhead.1,
        hhead.2, hrest]

/-- Texts in ASCII sort as their bytes. -/
theorem utf8_lt_iff {s s' : List Char} (h : ∀ c ∈ s, IsAscii c) (h' : ∀ c ∈ s', IsAscii c) :
    utf8 s < utf8 s' ↔ s < s' := by
  have hbyte : ∀ c, IsAscii c → c.val.toUInt8.toNat = c.toNat := fun c hc => by
    rw [UInt32.toNat_toUInt8]
    exact Nat.mod_eq_of_lt (lt_trans (show c.val.toNat < 128 from hc) (by decide))
  rw [utf8_of_ascii h, utf8_of_ascii h']
  refine map_lt_map_iff fun c hc d hd => ⟨?_, ?_⟩
  · rw [UInt8.lt_iff_toNat_lt, hbyte c (h c hc), hbyte d (h' d hd)]
    rfl
  · rw [← UInt8.toNat_inj, hbyte c (h c hc), hbyte d (h' d hd), Char.toNat_inj]

end Bytes

end DigitText

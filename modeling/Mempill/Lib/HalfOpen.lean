import Mathlib.Order.Lattice
import Mathlib.Order.MinMax
import Mathlib.Data.List.Pairwise
import Mathlib.Data.Option.Basic

set_option autoImplicit false

/-!
# Half-open spans

Spans `[start, stop)` over a linear order, where a missing `stop` is unbounded.
-/
namespace HalfOpen

structure Span (α : Type*) where
  start : α
  stop : Option α
  deriving DecidableEq

variable {α : Type*} [LinearOrder α]

/-- `e` lies strictly after `t`; a missing end lies after everything. -/
def EndsAfter (t : α) : Option α → Prop
  | none => True
  | some e => t < e

/-- `e` is a present end lying at or before `t`. -/
def EndsBy (t : α) : Option α → Prop
  | none => False
  | some e => e ≤ t

instance (t : α) (e : Option α) : Decidable (EndsAfter t e) := by
  cases e <;> unfold EndsAfter <;> infer_instance

instance (t : α) (e : Option α) : Decidable (EndsBy t e) := by
  cases e <;> unfold EndsBy <;> infer_instance

theorem endsBy_iff_not_endsAfter (t : α) (e : Option α) : EndsBy t e ↔ ¬ EndsAfter t e := by
  cases e <;> simp [EndsBy, EndsAfter]

theorem EndsBy.mono {s t : α} {e : Option α} (hst : s ≤ t) (h : EndsBy s e) : EndsBy t e := by
  cases e with
  | none => exact h
  | some e => exact le_trans h hst

theorem EndsAfter.mono {s t : α} {e : Option α} (hst : s ≤ t) (h : EndsAfter t e) :
    EndsAfter s e := by
  cases e with
  | none => trivial
  | some e => exact lt_of_le_of_lt hst h

theorem lt_of_endsAfter_of_endsBy {s t : α} {e : Option α} (hs : EndsAfter s e)
    (ht : EndsBy t e) : s < t := by
  cases e with
  | none => exact ht.elim
  | some e => exact lt_of_lt_of_le hs ht

namespace Span

def Mem (s : Span α) (t : α) : Prop := s.start ≤ t ∧ EndsAfter t s.stop

instance (s : Span α) (t : α) : Decidable (s.Mem t) := by unfold Mem; infer_instance

/-- The span contains some instant, and so its start. -/
def Proper (s : Span α) : Prop := EndsAfter s.start s.stop

instance (s : Span α) : Decidable s.Proper := by unfold Proper; infer_instance

theorem Mem.proper {s : Span α} {t : α} (h : s.Mem t) : s.Proper := h.2.mono h.1

theorem Proper.mem_start {s : Span α} (h : s.Proper) : s.Mem s.start := ⟨le_rfl, h⟩

/-- One span stops before the other starts. An empty span strictly inside
    another is not apart from it. -/
def Apart (a b : Span α) : Prop := EndsBy b.start a.stop ∨ EndsBy a.start b.stop

instance (a b : Span α) : Decidable (a.Apart b) := by unfold Apart; infer_instance

def Meet (a b : Span α) : Prop := ∃ t, a.Mem t ∧ b.Mem t

theorem Apart.symm {a b : Span α} (h : a.Apart b) : b.Apart a := Or.symm h

theorem Apart.not_mem {a b : Span α} (h : a.Apart b) {t : α} (ha : a.Mem t) : ¬ b.Mem t := by
  intro hb
  rcases h with h | h
  · exact (endsBy_iff_not_endsAfter t a.stop).mp (h.mono hb.1) ha.2
  · exact (endsBy_iff_not_endsAfter t b.stop).mp (h.mono ha.1) hb.2

theorem Meet.not_apart {a b : Span α} (h : a.Meet b) : ¬ a.Apart b := by
  intro hab
  obtain ⟨t, ha, hb⟩ := h
  exact hab.not_mem ha hb

/-- Two spans meet exactly if both contain the later of their starts. -/
theorem meet_iff {a b : Span α} (h : a.start ≤ b.start) :
    a.Meet b ↔ a.Mem b.start ∧ b.Mem b.start := by
  refine ⟨?_, fun hab => ⟨b.start, hab⟩⟩
  rintro ⟨t, ⟨_, ha⟩, hb, hbt⟩
  exact ⟨⟨h, ha.mono hb⟩, le_rfl, hbt.mono hb⟩

theorem Meet.symm {a b : Span α} (h : a.Meet b) : b.Meet a := h.imp fun _ => And.symm

def minEnd (e f : Option α) : Option α :=
  match e, f with
  | some e, some f => some (min e f)
  | some e, none => some e
  | none, f => f

theorem endsAfter_minEnd (t : α) (e f : Option α) :
    EndsAfter t (minEnd e f) ↔ EndsAfter t e ∧ EndsAfter t f := by
  cases e <;> cases f <;> simp [minEnd, EndsAfter]

theorem endsBy_minEnd (t : α) (e f : Option α) :
    EndsBy t (minEnd e f) ↔ EndsBy t e ∨ EndsBy t f := by
  rw [endsBy_iff_not_endsAfter, endsAfter_minEnd, endsBy_iff_not_endsAfter,
    endsBy_iff_not_endsAfter, not_and_or]

def cut (s : Span α) (e : Option α) : Span α := ⟨s.start, minEnd s.stop e⟩

@[simp] theorem cut_start (s : Span α) (e : Option α) : (s.cut e).start = s.start := rfl

@[simp] theorem cut_none (s : Span α) : s.cut none = s := by
  cases s with
  | mk start stop => cases stop <;> rfl

theorem Apart.cut {a b : Span α} (h : a.Apart b) (e : Option α) : (a.cut e).Apart b := by
  rcases h with h | h
  · exact .inl ((endsBy_minEnd _ _ _).mpr (.inl h))
  · exact .inr h

/-- Another end for the same start, which comes no later. -/
structure Narrows (s s' : Span α) : Prop where
  start : s'.start = s.start
  stop : ∀ t, EndsBy t s.stop → EndsBy t s'.stop

theorem Narrows.apart {a b a' b' : Span α} (ha : a.Narrows a') (hb : b.Narrows b')
    (h : a.Apart b) : a'.Apart b' := by
  rcases h with h | h
  · exact .inl (hb.start ▸ ha.stop _ h)
  · exact .inr (ha.start ▸ hb.stop _ h)

end Span

section Selection

variable {β : Type*} (span : β → Span α)

theorem eq_of_mem_of_apart {xs : List β} (h : xs.Pairwise (fun x y => (span x).Apart (span y)))
    {x y : β} (hx : x ∈ xs) (hy : y ∈ xs) {t : α} (hxt : (span x).Mem t)
    (hyt : (span y).Mem t) : x = y := by
  induction xs with
  | nil => cases hx
  | cons z zs ih =>
    obtain ⟨hz, hzs⟩ := List.pairwise_cons.mp h
    rcases List.mem_cons.mp hx with rfl | hx' <;> rcases List.mem_cons.mp hy with rfl | hy'
    · rfl
    · exact absurd hyt ((hz y hy').not_mem hxt)
    · exact absurd hxt ((hz x hx').not_mem hyt)
    · exact ih hzs hx' hy'

/-- Also of equal entries at most one contains the instant. -/
theorem length_filter_mem_le_one {xs : List β}
    (h : xs.Pairwise (fun x y => (span x).Apart (span y))) (t : α) :
    (xs.filter fun x => decide ((span x).Mem t)).length ≤ 1 := by
  induction xs with
  | nil => exact Nat.zero_le _
  | cons x xs ih =>
    obtain ⟨hx, hxs⟩ := List.pairwise_cons.mp h
    by_cases hxt : (span x).Mem t
    · have hnil : xs.filter (fun y => decide ((span y).Mem t)) = [] := by
        rw [List.filter_eq_nil_iff]
        intro y hy hyt
        exact (hx y hy).not_mem hxt (of_decide_eq_true hyt)
      rw [List.filter_cons_of_pos (by simpa using hxt), hnil]
      exact le_rfl
    · rw [List.filter_cons_of_neg (by simpa using hxt)]
      exact ih hxs

theorem find?_eq_some_iff_of_apart {xs : List β}
    (h : xs.Pairwise (fun x y => (span x).Apart (span y))) (t : α) (x : β) :
    xs.find? (fun y => decide ((span y).Mem t)) = some x ↔ x ∈ xs ∧ (span x).Mem t := by
  constructor
  · intro hf
    have hxt := List.find?_some hf
    exact ⟨List.mem_of_find?_eq_some hf, of_decide_eq_true hxt⟩
  · rintro ⟨hx, hxt⟩
    cases hf : xs.find? (fun y => decide ((span y).Mem t)) with
    | none => exact absurd (decide_eq_true hxt) (List.find?_eq_none.mp hf x hx)
    | some y =>
      have hy := List.mem_of_find?_eq_some hf
      have hyt := List.find?_some hf
      exact congrArg some (eq_of_mem_of_apart span h hy hx (of_decide_eq_true hyt) hxt)

end Selection

end HalfOpen

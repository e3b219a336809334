import Mempill.TruthEngine

set_option autoImplicit false

/-!
# Active bounds

The toggle walk over a claim's assertions is decided by the last assertion that
is effective at the cutoff.
-/
namespace Mempill.ActiveBound
open Mempill.Types Mempill.TruthEngine StampedLog

def statedInstant (a : ValidityAssertion) : Instant :=
  match a.kind with
  | .bound boundAt _ => boundAt
  | .reopen reopenAt => reopenAt

/-- Recorded by the cutoff, and stating an instant reached by it. -/
def Effective (asOf : Instant) (a : ValidityAssertion) : Prop :=
  a.assertedAt ≤ asOf ∧ statedInstant a ≤ asOf

instance (asOf : Instant) (a : ValidityAssertion) : Decidable (Effective asOf a) := by
  unfold Effective; infer_instance

def toBoundState (a : ValidityAssertion) : Option BoundState :=
  match a.kind with
  | .bound boundAt granularity => some ⟨boundAt, a.assertionRef, granularity⟩
  | .reopen _ => none

def lastEffective (as : List ValidityAssertion) (asOf : Instant) : Option ValidityAssertion :=
  lastMax assertionKey (as.filter (fun a => decide (Effective asOf a)))

theorem applyAssertion_eq (asOf : Instant) (state : Option BoundState) (a : ValidityAssertion) :
    applyAssertion asOf state a = if Effective asOf a then toBoundState a else state := by
  obtain ⟨_, _, _, kind, _, _, assertedAt⟩ := a
  by_cases hrec : assertedAt ≤ asOf
  · cases kind <;> simp [applyAssertion, Effective, toBoundState, statedInstant, hrec]
  · simp [applyAssertion, Effective, hrec]

theorem foldl_applyAssertion (asOf : Instant) (as : List ValidityAssertion) :
    as.foldl (applyAssertion asOf) none =
      ((as.filter (fun a => decide (Effective asOf a))).getLast?).bind toBoundState := by
  induction as using List.reverseRecOn with
  | nil => rfl
  | append_singleton as a ih =>
    rw [List.foldl_append, List.foldl_cons, List.foldl_nil, ih, applyAssertion_eq,
      List.filter_append]
    by_cases h : Effective asOf a
    · simp [h]
    · simp [h]

theorem activeBoundAt_eq (as : List ValidityAssertion) (asOf : Instant) :
    activeBoundAt as asOf = (lastEffective as asOf).bind toBoundState := by
  rw [activeBoundAt, foldl_applyAssertion, filter_inOrder, getLast?_inOrder, lastEffective]

/-- The order in which the port returns the assertions is immaterial. -/
theorem activeBoundAt_inOrder (as : List ValidityAssertion) (asOf : Instant) :
    activeBoundAt (inOrder ValidityAssertion.assertedAt as) asOf = activeBoundAt as asOf := by
  have href : ∀ a b : ValidityAssertion,
      assertionKey a = assertionKey b → a.assertedAt = b.assertedAt :=
    fun a b h => congrArg (fun k => (ofLex k).1) h
  rw [activeBoundAt_eq, activeBoundAt_eq, lastEffective, filter_inOrder,
    lastMax_inOrder assertionKey ValidityAssertion.assertedAt href, lastEffective]

theorem mem_of_lastEffective {as : List ValidityAssertion} {asOf : Instant}
    {a : ValidityAssertion} (h : lastEffective as asOf = some a) : a ∈ as ∧ Effective asOf a := by
  have hmem := List.mem_filter.mp (mem_of_lastMax assertionKey h)
  exact ⟨hmem.1, of_decide_eq_true hmem.2⟩

theorem lastEffective_concat (as : List ValidityAssertion) (a : ValidityAssertion)
    (asOf : Instant) :
    lastEffective (as ++ [a]) asOf =
      if Effective asOf a then keepLast assertionKey (lastEffective as asOf) a
      else lastEffective as asOf := by
  unfold lastEffective
  rw [List.filter_append]
  by_cases h : Effective asOf a
  · simp [h, lastMax_concat]
  · simp [h]

theorem lastEffective_concat_of_le {as : List ValidityAssertion} {a : ValidityAssertion}
    (h : ∀ b ∈ as, assertionKey b ≤ assertionKey a) (asOf : Instant) :
    lastEffective (as ++ [a]) asOf =
      if Effective asOf a then some a else lastEffective as asOf := by
  rw [lastEffective_concat]
  by_cases ha : Effective asOf a
  · rw [if_pos ha, if_pos ha]
    cases hl : lastEffective as asOf with
    | none => rfl
    | some b => rw [keepLast, if_pos (h b (mem_of_lastEffective hl).1)]
  · rw [if_neg ha, if_neg ha]

theorem assertionKey_le_of_lt {a b : ValidityAssertion} (h : a.assertedAt < b.assertedAt) :
    assertionKey a ≤ assertionKey b := by
  unfold assertionKey
  rw [Prod.Lex.toLex_le_toLex]
  exact .inl h

theorem activeBoundAt_concat_of_le {as : List ValidityAssertion} {a : ValidityAssertion}
    (h : ∀ b ∈ as, assertionKey b ≤ assertionKey a) (asOf : Instant) :
    activeBoundAt (as ++ [a]) asOf =
      if Effective asOf a then toBoundState a else activeBoundAt as asOf := by
  rw [activeBoundAt_eq, activeBoundAt_eq, lastEffective_concat_of_le h]
  by_cases ha : Effective asOf a
  · rw [if_pos ha, if_pos ha, Option.bind_some]
  · rw [if_neg ha, if_neg ha]

theorem activeBoundAt_concat_of_lt {as : List ValidityAssertion} {a : ValidityAssertion}
    (h : ∀ b ∈ as, b.assertedAt < a.assertedAt) (asOf : Instant) :
    activeBoundAt (as ++ [a]) asOf =
      if Effective asOf a then toBoundState a else activeBoundAt as asOf :=
  activeBoundAt_concat_of_le (fun b hb => assertionKey_le_of_lt (h b hb)) asOf

/-- The assertion committed last decides where it is the last one by stamp too. -/
theorem activeBoundAt_of_last {as : List ValidityAssertion} {a : ValidityAssertion}
    {asOf : Instant} (hlast : as.getLast? = some a) (heff : Effective asOf a)
    (hmax : ∀ b ∈ as, assertionKey b ≤ assertionKey a) :
    activeBoundAt as asOf = toBoundState a := by
  obtain ⟨init, rfl⟩ := List.getLast?_eq_some_iff.mp hlast
  have hinit : ∀ b ∈ init, assertionKey b ≤ assertionKey a :=
    fun b hb => hmax b (List.mem_append_left _ hb)
  rw [activeBoundAt_concat_of_le hinit, if_pos heff]

section Monotone

variable {as : List ValidityAssertion} {t q : Instant}

theorem Effective.mono (htq : t ≤ q) {a : ValidityAssertion} (h : Effective t a) :
    Effective q a :=
  ⟨le_trans h.1 htq, le_trans h.2 htq⟩

/-- Between two cutoffs that both reach every reopen, the later one decides by the
    same assertion or by a bound keyed after it. -/
theorem lastEffective_of_le (htq : t ≤ q)
    (hreopen : ∀ a ∈ as, toBoundState a = none → Effective t a) :
    lastEffective as q = lastEffective as t ∨
      ∃ b, lastEffective as q = some b ∧ toBoundState b ≠ none ∧
        ∀ a, lastEffective as t = some a → assertionKey a ≤ assertionKey b := by
  induction as using List.reverseRecOn with
  | nil => exact .inl rfl
  | append_singleton as a ih =>
    have ih := ih fun b hb => hreopen b (List.mem_append_left _ hb)
    rw [lastEffective_concat, lastEffective_concat]
    by_cases hq : Effective q a
    case neg =>
      have ht : ¬ Effective t a := fun h => hq (h.mono htq)
      rwa [if_neg hq, if_neg ht]
    rw [if_pos hq]
    by_cases ht : Effective t a
    · rw [if_pos ht]
      rcases ih with heq | ⟨b, hb, hbound, hkey⟩
      · exact .inl (by rw [heq])
      · rw [hb]
        by_cases hle : assertionKey b ≤ assertionKey a
        · left
          cases hl : lastEffective as t with
          | none => simp [keepLast, hle]
          | some a' => simp [keepLast, hle, le_trans (hkey a' hl) hle]
        · right
          refine ⟨b, by simp [keepLast, hle], hbound, fun a' ha' => ?_⟩
          cases hl : lastEffective as t with
          | none =>
            rw [hl] at ha'
            cases ha'
            exact le_of_not_ge hle
          | some x =>
            rw [hl] at ha'
            simp only [keepLast] at ha'
            split at ha' <;> cases ha'
            · exact le_of_not_ge hle
            · exact hkey _ hl
    · rw [if_neg ht]
      have hbound : toBoundState a ≠ none := fun h => ht (hreopen a (by simp) h)
      cases hlq : lastEffective as q with
      | none =>
        rw [hlq] at ih
        rcases ih with heq | ⟨b, hb, _⟩
        · exact .inr ⟨a, rfl, hbound, fun a' ha' => by rw [← heq] at ha'; cases ha'⟩
        · cases hb
      | some x =>
        rw [hlq] at ih
        by_cases hle : assertionKey x ≤ assertionKey a
        · refine .inr ⟨a, by simp [keepLast, hle], hbound, fun a' ha' => ?_⟩
          rcases ih with heq | ⟨b, hb, _, hkey⟩
          · rw [← heq] at ha'
            cases ha'
            exact hle
          · cases hb
            exact le_trans (hkey a' ha') hle
        · simpa [keepLast, hle] using ih

/-- A claim that is open at a cutoff was open at every earlier one that reaches all
    its reopens. -/
theorem activeBoundAt_eq_none_of_le (htq : t ≤ q)
    (hreopen : ∀ a ∈ as, toBoundState a = none → Effective t a)
    (h : activeBoundAt as q = none) : activeBoundAt as t = none := by
  rw [activeBoundAt_eq] at h ⊢
  rcases lastEffective_of_le htq hreopen with heq | ⟨b, hb, hbound, _⟩
  · rwa [← heq]
  · rw [hb] at h
    exact absurd h hbound

end Monotone

end Mempill.ActiveBound

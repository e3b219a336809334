import Mathlib.Data.List.Forall2
import Mempill.HistoryAgreement

set_option autoImplicit false

/-!
# Honest windows

Where the end of a history window comes from, and with which precision it is shown.
-/
namespace Mempill.HonestWindows
open Mempill.Types Mempill.TruthEngine Mempill.ValidTimeHelpers Mempill.Rows Mempill.IngestClaim
open Mempill.Engine Mempill.HistoryAgreement HalfOpen StampedLog

section Statement

variable (config : EngineConfig) (rows : List ClaimWithStatus) (cs : ClaimWithStatus)

/-- Both rows are trusted and their stored windows are not apart. -/
def TrustedOverlap (succ : ClaimWithStatus) : Prop :=
  claimIsTrusted cs.claim config.validTimeConfidenceThreshold = true ∧
    claimIsTrusted succ.claim config.validTimeConfidenceThreshold = true ∧
    ¬ (window cs.claim.validTime).Apart (window succ.claim.validTime)

/-- The instant was recorded with this precision, as the end or the bound of the row or as
    the start of its successor row. -/
def Recorded (u : Instant) (g : DateGranularity) : Prop :=
  cs.claim.validTime.stop = some u ∧ cs.claim.validTime.stopGranularity = some g ∨
    cs.boundAt = some u ∧ cs.boundAtGranularity = some g ∨
    ∃ succ, Successor config rows cs succ ∧ succ.claim.validTime.start = some u ∧
      succ.claim.validTime.startGranularity = some g

structure HonestEnd (w : HistoryWindow) : Prop where
  withinEnd : ∀ e ∈ cs.claim.validTime.stop, ∃ u ∈ w.validUntil, u ≤ e
  withinBound : ∀ b ∈ cs.boundAt, ∃ u ∈ w.validUntil, u ≤ b
  source : ∀ u ∈ w.validUntil, cs.claim.validTime.stop = some u ∨ cs.boundAt = some u ∨
    ∃ succ, Successor config rows cs succ ∧ u = primaryKey succ.claim config ∧
      ¬ TrustedOverlap config cs succ
  precision : ∀ g ∈ w.validUntilGranularity, ∃ u ∈ w.validUntil, Recorded config rows cs u g

end Statement

section Ends

variable {config : EngineConfig} {rows pre later : List ClaimWithStatus}
variable {cs succ : ClaimWithStatus}

/-- The end of a row on its own is its stored end or its bound, whichever comes first. -/
theorem minEnd_within (stop bound : Option Instant) :
    (∀ e ∈ stop, ∃ u ∈ Span.minEnd stop bound, u ≤ e) ∧
      (∀ b ∈ bound, ∃ u ∈ Span.minEnd stop bound, u ≤ b) ∧
      ∀ u ∈ Span.minEnd stop bound, stop = some u ∨ bound = some u := by
  cases stop with
  | none => cases bound <;> simp [Span.minEnd]
  | some e =>
    cases bound with
    | none => simp [Span.minEnd]
    | some b =>
      refine ⟨fun e' he' => ⟨min e b, rfl, ?_⟩, fun b' hb' => ⟨min e b, rfl, ?_⟩, fun u hu => ?_⟩
      · exact Option.some.inj he' ▸ min_le_left e b
      · exact Option.some.inj hb' ▸ min_le_right e b
      · obtain rfl : min e b = u := Option.some.inj hu
        rcases min_choice e b with h | h <;> simp [h]

theorem recorded_of_narrowed {g : DateGranularity}
    (h : (narrowedValidEnd cs.claim cs.boundAt cs.boundAtGranularity).2 = some g) :
    ∃ u ∈ (narrowedValidEnd cs.claim cs.boundAt cs.boundAtGranularity).1,
      Recorded config rows cs u g := by
  unfold narrowedValidEnd at h ⊢
  cases hstop : cs.claim.validTime.stop with
  | none =>
    cases hbound : cs.boundAt with
    | none => simp [hstop, hbound] at h
    | some b =>
      simp only [hstop, hbound] at h ⊢
      exact ⟨b, rfl, .inr (.inl ⟨hbound, h⟩)⟩
  | some e =>
    cases hbound : cs.boundAt with
    | none =>
      simp only [hstop, hbound] at h ⊢
      exact ⟨e, rfl, .inl ⟨hstop, h⟩⟩
    | some b =>
      simp only [hstop, hbound] at h ⊢
      split at h <;> rename_i hlt
      · rw [if_pos hlt]
        exact ⟨b, rfl, .inr (.inl ⟨hbound, h⟩)⟩
      · rw [if_neg hlt]
        exact ⟨e, rfl, .inl ⟨hstop, h⟩⟩

theorem start_of_granularity {claim : Claim} {g : DateGranularity}
    (h : (primaryKeyAndGranularity claim config).2 = some g) :
    claim.validTime.start = some (primaryKey claim config) ∧
      claim.validTime.startGranularity = some g := by
  unfold primaryKeyAndGranularity at h
  unfold primaryKey
  split at h <;> rename_i htrust
  · cases hstart : claim.validTime.start with
    | none => simp [hstart] at h
    | some s =>
      rw [hstart] at h
      exact ⟨by simp [htrust], h⟩
  · cases h

/-- A row that does not end by the start of its successor overlaps it, unless it overlaps
    nothing of it even without its bound. -/
theorem not_trustedOverlap (hover : overlapsSuccessor cs succ config = false)
    (hlater : ¬ EndsBy (primaryKey succ.claim config) (effectiveWindow cs).stop) :
    ¬ TrustedOverlap config cs succ := by
  rintro ⟨htrust, htrust', hraw⟩
  have hkey : (window succ.claim.validTime).start = primaryKey succ.claim config := by
    obtain ⟨hconf, start, hstart⟩ := (claimIsTrusted_iff _ _).mp htrust'
    rw [window_eq hstart, primaryKey, if_pos hconf, hstart]
    rfl
  have hnot : ¬ overlapsSuccessor cs succ config = true := by simp [hover]
  rw [overlapsSuccessor_iff] at hnot
  have hapart : (effectiveWindow cs).Apart (window succ.claim.validTime) := by
    by_contra h
    exact hnot ⟨htrust, htrust', h⟩
  rcases hapart with h | h
  · exact hlater (hkey ▸ h)
  · exact hraw (.inr h)

/-- The window that ends with the row itself. -/
theorem honest_own {w : HistoryWindow}
    (huntil : w.validUntil = (narrowedValidEnd cs.claim cs.boundAt cs.boundAtGranularity).1)
    (hgran : ∀ g ∈ w.validUntilGranularity,
      (narrowedValidEnd cs.claim cs.boundAt cs.boundAtGranularity).2 = some g ∨
        ∃ u ∈ w.validUntil, Recorded config rows cs u g) : HonestEnd config rows cs w := by
  have huntil' := huntil
  rw [narrowedValidEnd_fst] at huntil'
  obtain ⟨hend, hbound, hsource⟩ := minEnd_within cs.claim.validTime.stop cs.boundAt
  refine ⟨huntil' ▸ hend, huntil' ▸ hbound, fun u hu => ?_, fun g hg => ?_⟩
  · exact (hsource u (huntil' ▸ hu)).imp_right .inl
  · rcases hgran g hg with hown | hrec
    · rw [huntil]
      exact recorded_of_narrowed hown
    · exact hrec

/-- The window that the successor row cuts. -/
theorem honest_cut {w : HistoryWindow} (hsucc : Successor config rows cs succ)
    (hover : overlapsSuccessor cs succ config = false)
    (hlater : ∀ e ∈ (narrowedValidEnd cs.claim cs.boundAt cs.boundAtGranularity).1,
      primaryKey succ.claim config < e)
    (huntil : w.validUntil = some (primaryKey succ.claim config))
    (hgran : w.validUntilGranularity = (primaryKeyAndGranularity succ.claim config).2) :
    HonestEnd config rows cs w := by
  rw [narrowedValidEnd_fst] at hlater
  obtain ⟨hend, hbound, _⟩ := minEnd_within cs.claim.validTime.stop cs.boundAt
  refine ⟨fun e he => ⟨_, huntil, ?_⟩, fun b hb => ⟨_, huntil, ?_⟩, fun u hu => ?_, fun g hg => ?_⟩
  · obtain ⟨u, hu, hle⟩ := hend e he
    exact le_trans (le_of_lt (hlater u hu)) hle
  · obtain ⟨u, hu, hle⟩ := hbound b hb
    exact le_trans (le_of_lt (hlater u hu)) hle
  · rw [huntil] at hu
    refine .inr (.inr ⟨succ, hsucc, (Option.some.inj hu).symm, not_trustedOverlap hover ?_⟩)
    rw [endsBy_iff_not_endsAfter, not_not]
    change EndsAfter _ (Span.minEnd cs.claim.validTime.stop cs.boundAt)
    cases hmin : Span.minEnd cs.claim.validTime.stop cs.boundAt with
    | none => trivial
    | some e => exact hlater e hmin
  · rw [hgran] at hg
    obtain ⟨hstart, hstartGran⟩ := start_of_granularity hg
    exact ⟨_, huntil, .inr (.inr ⟨succ, hsucc, hstart, hstartGran⟩)⟩

end Ends

section Main

variable {config : EngineConfig} {rows pre later : List ClaimWithStatus} {cs : ClaimWithStatus}

theorem honest_historyWindow
    (hsorted : (pre ++ cs :: later).Pairwise fun x y =>
      orderingKey x.claim config ≤ orderingKey y.claim config)
    (hasConflict : Bool) (now : Instant) :
    HonestEnd config (pre ++ cs :: later) cs (historyWindow cs later hasConflict now config) := by
  cases hrow : successorRow cs later config with
  | none =>
    refine honest_own ?_ fun g hg => .inl ?_
    · simp only [historyWindow, hrow]
    · simp only [historyWindow, hrow] at hg
      exact hg
  | some succ =>
    have hsucc := successor_of_successorRow hsorted hrow
    have hkey : (primaryKeyAndGranularity succ.claim config).1 = primaryKey succ.claim config :=
      primaryKeyAndGranularity_fst _ _
    cases hover : overlapsSuccessor cs succ config with
    | true =>
      -- a real overlap: the row keeps its own end
      refine honest_own ?_ fun g hg => .inl ?_
      · simp only [historyWindow, hrow, hover]
        cases (narrowedValidEnd cs.claim cs.boundAt cs.boundAtGranularity).1 <;> rfl
      · simp only [historyWindow, hrow, hover] at hg
        revert hg
        cases hown : (narrowedValidEnd cs.claim cs.boundAt cs.boundAtGranularity).1 with
        | some e => exact id
        | none => exact fun hg => by cases hg
    | false =>
      cases hown : (narrowedValidEnd cs.claim cs.boundAt cs.boundAtGranularity).1 with
      | none =>
        refine honest_cut hsucc hover (by simp [hown]) ?_ ?_ <;>
          simp only [historyWindow, hrow, hover, hown, hkey] <;> rfl
      | some e =>
        by_cases hle : e ≤ primaryKey succ.claim config
        · refine honest_own ?_ fun g hg => ?_
          · simp only [historyWindow, hrow, hover, hown, hkey, if_pos hle]
            rfl
          · simp only [historyWindow, hrow, hover, hown, hkey, if_pos hle] at hg ⊢
            simp only [Bool.false_eq_true, if_false, Option.mem_def, Option.or_eq_some_iff] at hg ⊢
            rcases hg with hg | ⟨_, hg⟩
            · exact .inl hg
            · -- a bound without a precision of its own, at the start of the successor
              split_ifs at hg with hat
              obtain ⟨hstart, hstartGran⟩ := start_of_granularity hg
              simp only [Bool.and_eq_true, beq_iff_eq] at hat
              exact .inr ⟨e, rfl, .inr (.inr ⟨succ, hsucc, hat.2 ▸ hstart, hstartGran⟩)⟩
        · refine honest_cut hsucc hover ?_ ?_ ?_
          · rw [hown]
            exact fun e' he' => Option.some.inj he' ▸ not_le.mp hle
          · simp only [historyWindow, hrow, hover, hown, hkey, if_neg hle]
            rfl
          · simp only [historyWindow, hrow, hover, hown, hkey, if_neg hle]
            rfl

/-- In a list in key order, every window ends no later than its row, at an instant that the
    row or its successor states and with a precision stated for it. -/
theorem history_ends_honest
    (hsorted : rows.Pairwise fun x y => orderingKey x.claim config ≤ orderingKey y.claim config)
    (hasConflict : Bool) (now : Instant) :
    List.Forall₂ (HonestEnd config rows) rows
      (computeHistoryWindows rows hasConflict now config) := by
  have hsuffix : ∀ suffix pre, rows = pre ++ suffix → List.Forall₂ (HonestEnd config rows) suffix
      (computeHistoryWindows suffix hasConflict now config) := by
    intro suffix
    induction suffix with
    | nil => exact fun _ _ => .nil
    | cons cs later ih =>
      intro pre hrows
      refine .cons ?_ (ih (pre ++ [cs]) (by rw [hrows, List.append_assoc, List.singleton_append]))
      subst hrows
      exact honest_historyWindow hsorted hasConflict now
  exact hsuffix rows [] rfl

/-- A fact that was bounded at an instant, and one that starts there on a given day. -/
def boundedThenMoved : List ClaimWithStatus :=
  [⟨stamp (remember "Paris" (some (dated 1 none))) ⟨1⟩ 10, false, some .superseded, some 7, none⟩,
    ⟨stamp (remember "Berlin" (some ⟨some 7, none, certain, some .day, none⟩)) ⟨2⟩ 20, true,
      some .committedCheap, none, none⟩]

theorem boundedThenMoved_honest :
    List.Forall₂ (HonestEnd EngineConfig.default boundedThenMoved) boundedThenMoved
        (computeHistoryWindows boundedThenMoved false 30 EngineConfig.default) ∧
      (computeHistoryWindows boundedThenMoved false 30 EngineConfig.default).map
        (fun w => (w.validUntil, w.validUntilGranularity)) =
          [(some 7, some .day), (none, none)] :=
  ⟨history_ends_honest (by decide) false 30, by decide⟩

end Main

end Mempill.HonestWindows

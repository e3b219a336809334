import Mempill.Types
import Mempill.Lib.HalfOpen

set_option autoImplicit false

/-!
# Valid-time helpers

The trusted-succession test and the selection by instant that the read-time
fold and the write-time classifier share.
-/
namespace Mempill.ValidTimeHelpers
open Mempill.Types HalfOpen

def claimIsTrusted (claim : Claim) (threshold : F32) : Bool :=
  claim.validTime.validTimeConfidence.ge threshold && claim.validTime.start.isSome

def windowsNonOverlappingBounds (aStart : Instant) (aEnd : Option Instant) (bStart : Instant)
    (bEnd : Option Instant) : Bool :=
  let aEndsBeforeBStarts := aEnd.any (fun ae => decide (ae ≤ bStart))
  let bEndsBeforeAStarts := bEnd.any (fun be => decide (be ≤ aStart))
  aEndsBeforeBStarts || bEndsBeforeAStarts

/-- The source unwraps both starts; every caller has tested them. -/
def windowsNonOverlapping (a b : Claim) : Bool :=
  match a.validTime.start, b.validTime.start with
  | some aStart, some bStart =>
    windowsNonOverlappingBounds aStart a.validTime.stop bStart b.validTime.stop
  | _, _ => false

def pairwiseNonOverlapping : List Claim → Bool
  | [] => true
  | claim :: claims => claims.all (windowsNonOverlapping claim) && pairwiseNonOverlapping claims

def isTrustedSuccession (claims : List Claim) (threshold : F32) : Bool :=
  if !claims.all (claimIsTrusted · threshold) then false else pairwiseNonOverlapping claims

/-- As in `windowsNonOverlapping`, the start has been tested by the caller. -/
def selectByValidTimeInstant (claims : List Claim) (instant : Instant) : Option Claim :=
  claims.find? fun claim =>
    match claim.validTime.start with
    | some start =>
      decide (start ≤ instant) && claim.validTime.stop.all (fun e => decide (instant < e))
    | none => false

/-- The half-open window of a valid time that has a start. -/
def window (vt : ValidTime) : Span Instant := ⟨vt.start.getD 0, vt.stop⟩

theorem window_eq {vt : ValidTime} {start : Instant} (h : vt.start = some start) :
    window vt = ⟨start, vt.stop⟩ := by
  rw [window, h]; rfl

theorem claimIsTrusted_iff (claim : Claim) (threshold : F32) :
    claimIsTrusted claim threshold = true ↔
      claim.validTime.validTimeConfidence.ge threshold = true ∧
        ∃ start, claim.validTime.start = some start := by
  rw [claimIsTrusted, Bool.and_eq_true, Option.isSome_iff_exists]

theorem windowsNonOverlappingBounds_iff (aStart : Instant) (aEnd : Option Instant)
    (bStart : Instant) (bEnd : Option Instant) :
    windowsNonOverlappingBounds aStart aEnd bStart bEnd = true ↔
      Span.Apart ⟨aStart, aEnd⟩ ⟨bStart, bEnd⟩ := by
  cases aEnd <;> cases bEnd <;>
    simp [windowsNonOverlappingBounds, Span.Apart, EndsBy]

theorem windowsNonOverlapping_iff {a b : Claim} (ha : a.validTime.start.isSome)
    (hb : b.validTime.start.isSome) :
    windowsNonOverlapping a b = true ↔ (window a.validTime).Apart (window b.validTime) := by
  obtain ⟨s, hs⟩ := Option.isSome_iff_exists.mp ha
  obtain ⟨t, ht⟩ := Option.isSome_iff_exists.mp hb
  rw [windowsNonOverlapping, hs, ht, window_eq hs, window_eq ht]
  exact windowsNonOverlappingBounds_iff _ _ _ _

theorem pairwiseNonOverlapping_iff (claims : List Claim)
    (h : ∀ claim ∈ claims, claim.validTime.start.isSome) :
    pairwiseNonOverlapping claims = true ↔
      claims.Pairwise (fun a b => (window a.validTime).Apart (window b.validTime)) := by
  induction claims with
  | nil => simp [pairwiseNonOverlapping]
  | cons claim claims ih =>
    have hc := h claim List.mem_cons_self
    have hcs : ∀ c ∈ claims, c.validTime.start.isSome :=
      fun c hc => h c (List.mem_cons_of_mem claim hc)
    rw [pairwiseNonOverlapping, Bool.and_eq_true, List.pairwise_cons, ih hcs, List.all_eq_true]
    refine and_congr_left fun _ => forall_congr' fun c => forall_congr' fun hmem => ?_
    exact windowsNonOverlapping_iff hc (hcs c hmem)

theorem isTrustedSuccession_iff (claims : List Claim) (threshold : F32) :
    isTrustedSuccession claims threshold = true ↔
      (∀ claim ∈ claims, claimIsTrusted claim threshold = true) ∧
        claims.Pairwise (fun a b => (window a.validTime).Apart (window b.validTime)) := by
  rw [isTrustedSuccession]
  by_cases hall : claims.all (claimIsTrusted · threshold) = true
  · have htrust := List.all_eq_true.mp hall
    rw [hall]
    simp only [Bool.not_true, Bool.false_eq_true, if_false]
    rw [pairwiseNonOverlapping_iff claims fun c hc =>
      ((Bool.and_eq_true _ _).mp (htrust c hc)).2]
    exact ⟨fun h => ⟨htrust, h⟩, fun h => h.2⟩
  · have hneg : ¬ ∀ claim ∈ claims, claimIsTrusted claim threshold = true :=
      fun h => hall (List.all_eq_true.mpr h)
    simp [hall, hneg]

theorem isTrustedSuccession_perm {claims claims' : List Claim} (h : claims.Perm claims')
    (threshold : F32) :
    isTrustedSuccession claims threshold = isTrustedSuccession claims' threshold := by
  rw [Bool.eq_iff_iff, isTrustedSuccession_iff, isTrustedSuccession_iff]
  refine and_congr ?_ (h.pairwise_iff fun hab => hab.symm)
  exact forall_congr' fun c => by rw [h.mem_iff]

theorem isTrustedSuccession_of_cons {claim : Claim} {claims : List Claim} {threshold : F32}
    (h : isTrustedSuccession (claim :: claims) threshold = true) :
    isTrustedSuccession claims threshold = true := by
  obtain ⟨htrust, hapart⟩ := (isTrustedSuccession_iff _ _).mp h
  exact (isTrustedSuccession_iff _ _).mpr
    ⟨fun c hc => htrust c (List.mem_cons_of_mem claim hc), (List.pairwise_cons.mp hapart).2⟩

/-- On started claims the selection is the first window around the instant. -/
theorem selectByValidTimeInstant_eq {claims : List Claim} (instant : Instant)
    (h : ∀ claim ∈ claims, claim.validTime.start.isSome) :
    selectByValidTimeInstant claims instant =
      claims.find? (fun claim => decide ((window claim.validTime).Mem instant)) := by
  unfold selectByValidTimeInstant
  induction claims with
  | nil => rfl
  | cons claim claims ih =>
    obtain ⟨start, hs⟩ := Option.isSome_iff_exists.mp (h claim List.mem_cons_self)
    have htest : (match claim.validTime.start with
        | some start =>
          decide (start ≤ instant) && claim.validTime.stop.all (fun e => decide (instant < e))
        | none => false) = decide ((window claim.validTime).Mem instant) := by
      rw [hs, window_eq hs, Bool.eq_iff_iff, decide_eq_true_iff]
      cases claim.validTime.stop <;> simp [Span.Mem, EndsAfter]
    rw [List.find?_cons, List.find?_cons, htest,
      ih fun c hc => h c (List.mem_cons_of_mem claim hc)]

/-- In a trusted succession the selected claim is the one whose window contains
    the instant. -/
theorem selectByValidTimeInstant_iff {claims : List Claim} {threshold : F32}
    (h : isTrustedSuccession claims threshold = true) (instant : Instant) (claim : Claim) :
    selectByValidTimeInstant claims instant = some claim ↔
      claim ∈ claims ∧ (window claim.validTime).Mem instant := by
  obtain ⟨htrust, hapart⟩ := (isTrustedSuccession_iff claims threshold).mp h
  rw [selectByValidTimeInstant_eq instant fun c hc =>
    ((Bool.and_eq_true _ _).mp (htrust c hc)).2]
  exact find?_eq_some_iff_of_apart (fun c : Claim => window c.validTime) hapart instant claim

end Mempill.ValidTimeHelpers

import Mempill.Engine
import Mempill.Rows

set_option autoImplicit false

/-!
# Arrival order

The fold of a line does not depend on the order in which its claims, or the
assertions of a claim, are supplied.
-/
namespace Mempill.ArrivalOrder
open Mempill.Types Mempill.TruthEngine Mempill.Rows Mempill.IngestClaim Mempill.AssertValidity
open Mempill.Engine StampedLog

section Assertions

variable {as as' : List ValidityAssertion}

/-- The identifier of an assertion is part of its key. -/
theorem inOrder_assertions_eq_of_perm (h : as.Perm as')
    (hrefs : (as.map (·.assertionRef)).Nodup) :
    inOrder assertionKey as = inOrder assertionKey as' := by
  refine inOrder_eq_of_perm _ h fun a ha b hb hkey => ?_
  have href : a.assertionRef = b.assertionRef := congrArg (fun k => (ofLex k).2) hkey
  exact List.inj_on_of_nodup_map hrefs ha hb href

theorem activeBoundAt_eq_of_perm (h : as.Perm as') (hrefs : (as.map (·.assertionRef)).Nodup)
    (asOf : Instant) : activeBoundAt as asOf = activeBoundAt as' asOf := by
  rw [activeBoundAt, inOrder_assertions_eq_of_perm h hrefs, activeBoundAt]

end Assertions

section Main

variable {claims claims' : List Claim} {supplied supplied' : ClaimRef → List ValidityAssertion}

/-- The assertions of every claim, supplied in two orders and each under an identifier
    of its own. -/
structure SameAssertions (claims : List Claim)
    (supplied supplied' : ClaimRef → List ValidityAssertion) : Prop where
  perm : ∀ c ∈ claims, (supplied c.claimRef).Perm (supplied' c.claimRef)
  refs : ∀ c ∈ claims, ((supplied c.claimRef).map (·.assertionRef)).Nodup

theorem fold_eq_of_perm (hperm : claims.Perm claims')
    (hrefs : (claims.map (·.claimRef)).Nodup)
    (hassert : SameAssertions claims supplied supplied') (asOf : Instant)
    (validAt : Option Instant) (config : EngineConfig)
    (latest : ClaimRef → Option Disposition) :
    fold claims supplied asOf validAt config latest =
      fold claims' supplied' asOf validAt config latest := by
  have hsorted : inOrder (orderingKey · config) claims = inOrder (orderingKey · config) claims' :=
    inOrder_claims_eq_of_perm hperm hrefs
  have hrows : (inOrder (orderingKey · config) claims').map (claimStatus supplied asOf latest) =
      (inOrder (orderingKey · config) claims').map (claimStatus supplied' asOf latest) := by
    refine List.map_congr_left fun c hc => ?_
    have hmem : c ∈ claims := hperm.mem_iff.mpr ((mem_inOrder _).mp hc)
    have hbound : activeBoundAt (supplied c.claimRef) asOf =
        activeBoundAt (supplied' c.claimRef) asOf :=
      activeBoundAt_eq_of_perm (hassert.perm c hmem) (hassert.refs c hmem) asOf
    simp only [claimStatus, hbound]
  rw [fold, fold, hsorted, hrows]

/-- The fold, the narrowing to an instant and the history windows are those of any
    other order of arrival. -/
theorem fold_arrival_independent (hperm : claims.Perm claims')
    (hrefs : (claims.map (·.claimRef)).Nodup)
    (hassert : SameAssertions claims supplied supplied') (asOf : Instant)
    (validAt : Option Instant) (config : EngineConfig)
    (latest : ClaimRef → Option Disposition) :
    let folded := fold claims supplied asOf validAt config latest
    let folded' := fold claims' supplied' asOf validAt config latest
    folded = folded' ∧
      (∀ instant denied, narrowLiveClaimsForValidAt folded instant denied config =
        narrowLiveClaimsForValidAt folded' instant denied config) ∧
      ∀ now, computeHistoryWindows folded.allClaims folded.hasConflict now config =
        computeHistoryWindows folded'.allClaims folded'.hasConflict now config := by
  dsimp only
  rw [fold_eq_of_perm hperm hrefs hassert asOf validAt config latest]
  exact ⟨rfl, fun _ _ => rfl, fun _ => rfl⟩

/-- Two facts of one instant, the first ended and reopened under one stamp. -/
def twins : List Claim :=
  [stamp (remember "Paris" (some (dated 1 none))) ⟨1⟩ 10,
    stamp (remember "Berlin" (some (dated 1 none))) ⟨2⟩ 10]

def toggles (r : ClaimRef) : List ValidityAssertion :=
  if r = ⟨1⟩ then
    [hostAssertion (assertOn 1 (.bound 5 none)) (.bound 5 none) 20 50,
      hostAssertion (assertOn 1 .reopen) (.reopen 20) 20 51]
  else []

theorem twins_fold_backwards :
    let folded := fold twins toggles 30 none EngineConfig.default fun _ => none
    let folded' := fold twins.reverse (fun r => (toggles r).reverse) 30 none EngineConfig.default
      fun _ => none
    folded = folded' ∧
      (∀ instant denied, narrowLiveClaimsForValidAt folded instant denied EngineConfig.default =
        narrowLiveClaimsForValidAt folded' instant denied EngineConfig.default) ∧
      ∀ now, computeHistoryWindows folded.allClaims folded.hasConflict now EngineConfig.default =
        computeHistoryWindows folded'.allClaims folded'.hasConflict now EngineConfig.default :=
  fold_arrival_independent (List.reverse_perm twins).symm (by decide)
    ⟨fun c _ => (List.reverse_perm (toggles c.claimRef)).symm, by decide⟩ 30 none
    EngineConfig.default fun _ => none

end Main

end Mempill.ArrivalOrder

import Mempill.QueueRows
import Mempill.WriteGate

set_option autoImplicit false

/-!
# Pending rows

The claims that a pending row names are two different claims of its line.
-/
namespace Mempill.PendingRows
open Mempill.Types Mempill.Persistence Mempill.IngestClaim Mempill.Engine Mempill.Steps
open Mempill.Invariants Mempill.WriteGate Mempill.QueueRows Transition

def Stored (σ : Store) (row : PendingAdjudicationRow) (r : ClaimRef) : Prop :=
  ∃ c ∈ σ.claims, c.claimRef = r ∧ onLine row.agentId row.subject row.predicate c = true

structure WellFormedRow (σ : Store) (row : PendingAdjudicationRow) : Prop where
  challenger : Stored σ row row.challengerClaimRef
  incumbent : Stored σ row row.incumbentClaimRef
  distinct : row.challengerClaimRef ≠ row.incumbentClaimRef

section Invariant

variable {eng : Engine} {σ : Store} {row : PendingAdjudicationRow}

theorem Stored.mono {σ' : Store} {r : ClaimRef} (h : Stored σ row r)
    (hsub : ∀ c ∈ σ.claims, c ∈ σ'.claims) : Stored σ' row r := by
  obtain ⟨c, hc, href, hline⟩ := h
  exact ⟨c, hsub c hc, href, hline⟩

theorem WellFormedRow.withStatus (h : WellFormedRow σ row) (handleId : Uuid)
    (status : PendingStatus) : WellFormedRow σ (withStatus handleId status row) := by
  unfold QueueRows.withStatus
  split
  · exact ⟨h.challenger, h.incumbent, h.distinct⟩
  · exact h

/-- The row of an admitted write names it and another claim of its line. -/
theorem wellFormedRow_of_queued (hσ : Reachable eng σ) {req : IngestClaimRequest} {now : Instant}
    {claimRef : ClaimRef} {reply : Except String Uuid} {incumbent : Belief} {handleId : Uuid}
    (hfresh : Fresh claimRef.uuid σ) (hadmitted : Admitted eng.config σ req claimRef now)
    (hinc : incumbentFor eng.config σ req.agentId req.subject req.predicate now =
      some incumbent) :
    WellFormedRow (apply eng σ (.ingestClaim req now claimRef reply))
      (pendingRow eng req (stamp req claimRef now) incumbent now handleId) := by
  have happ := ingest_appends hadmitted reply
  rw [apply]
  have hspec := incumbentFor_spec eng.config σ req now
  rw [hinc, Option.map_some] at hspec
  obtain ⟨cs, hcs, hbeq⟩ := Option.map_eq_some_iff.mp hspec.symm
  have href : cs.claim.claimRef = incumbent.claimRef := congrArg Prod.fst hbeq
  have hmem := mem_writeRows_of_candidate (mem_of_incumbentRow hσ hcs)
  obtain ⟨hclaim, hline⟩ := onLine_of_mem_writeRows hmem
  refine ⟨⟨stamp req claimRef now, ?_, rfl, by simp [onLine, stamp, pendingRow]⟩,
    ⟨cs.claim, ?_, href, hline⟩, fun heq => ?_⟩
  · rw [happ.claims]
    simp
  · rw [happ.claims]
    exact List.mem_append_left _ hclaim
  · exact ref_ne_of_fresh hfresh hmem (href.trans heq.symm)

theorem wellFormedRow_of_reachable (hσ : Reachable eng σ) :
    ∀ row ∈ σ.pending, WellFormedRow σ row := by
  refine Reach.invariant (P := fun σ => ∀ row ∈ σ.pending, WellFormedRow σ row) hσ
    (fun σ ⟨_, hσ⟩ => by rw [hσ]; simp [Store.empty]) fun σ op σ' hr hP hst row hrow => ?_
  obtain ⟨hsup, rfl⟩ := hst
  obtain ⟨w, hq, happ⟩ := apply_queueStep eng σ op
  have hkept : ∀ row ∈ σ.pending, WellFormedRow (apply eng σ op) row := by
    have hsub : ∀ c ∈ σ.claims, c ∈ (apply eng σ op).claims := fun c hc => by
      rw [happ.claims]
      exact List.mem_append_left _ hc
    exact fun row hrow => ⟨(hP row hrow).challenger.mono hsub, (hP row hrow).incumbent.mono hsub,
      (hP row hrow).distinct⟩
  have hmarked : ∀ handleId status, row ∈ σ.pending.map (QueueRows.withStatus handleId status) →
      WellFormedRow (apply eng σ op) row := by
    intro handleId status hrow
    obtain ⟨old, hold, rfl⟩ := List.mem_map.mp hrow
    exact (hkept old hold).withStatus handleId status
  generalize htable : (apply eng σ op).pending = table at hq hrow
  cases hq with
  | ignored => exact hkept row hrow
  | aside _ _ => exact hkept row hrow
  | queued _ hinc _ hadmitted =>
    rcases List.mem_append.mp hrow with hold | hnew
    · exact hkept row hold
    · rw [List.mem_singleton.mp hnew]
      exact wellFormedRow_of_queued hr hsup hadmitted hinc
  | applied _ => exact hmarked _ _ hrow
  | lapsed _ _ => exact hmarked _ _ hrow
  | swept _ => exact hmarked _ _ hrow

theorem loaded_of_row (hσ : Reachable eng σ) (hrow : row ∈ σ.pending) :
    ∃ challenger, loadClaim σ row.agentId row.challengerClaimRef = some challenger := by
  obtain ⟨c, hc, href, hline⟩ := (wellFormedRow_of_reachable hσ row hrow).challenger
  simp only [onLine, Bool.and_eq_true, beq_iff_eq] at hline
  refine Option.isSome_iff_exists.mp (List.find?_isSome.mpr ⟨c, hc, ?_⟩)
  simp [hline.1.1, href]

end Invariant

end Mempill.PendingRows

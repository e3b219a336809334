import Mempill.ReconcilePass
import Mempill.Verdicts

set_option autoImplicit false

/-!
# Written claims

Which stored claims an operation writes entries and assertions about, told by the
guards that it meets.
-/
namespace Mempill.WrittenClaims
open Mempill.Types Mempill.Persistence Mempill.TruthEngine Mempill.Rows Mempill.IngestClaim
open Mempill.AssertValidity Mempill.SubmitAdjudication Mempill.Engine Mempill.Steps Mempill.ClaimLog
open Mempill.ReconcilePass Mempill.Verdicts

section Statement

instance (σ : Store) (req : AssertValidityRequest) (now : Instant) :
    Decidable (ReopenAccepted σ req now) :=
  decidable_of_iff (req.provenance.isCheapPathEligible = true ∧
      (loadClaim σ req.agentId req.target).isSome ∧
      (activeBoundAt (assertionsOf σ req.agentId req.target) now).isSome)
    ⟨fun h => ⟨h.1, Option.isSome_iff_exists.mp h.2.1, Option.isSome_iff_exists.mp h.2.2⟩,
      fun h => ⟨h.provenance, Option.isSome_iff_exists.mpr h.load,
        Option.isSome_iff_exists.mpr h.isBound⟩⟩

instance (σ : Store) (req : AssertValidityRequest) (at_ now : Instant) :
    Decidable (∃ target, BoundAccepted σ req target at_ now) :=
  decidable_of_iff (req.provenance.isCheapPathEligible = true ∧
      (∃ target ∈ loadClaim σ req.agentId req.target,
        (∀ s ∈ target.validTime.start, s ≤ at_) ∧ ∀ e ∈ target.validTime.stop, at_ < e) ∧
      underAdjudication σ req.agentId req.target = false ∧
      activeBoundAt (assertionsOf σ req.agentId req.target) now = none)
    ⟨fun ⟨hprov, ⟨target, hload, hcoherent, hnarrows⟩, hfree, hbound⟩ =>
        ⟨target, hprov, hload, hfree, hcoherent, hbound, hnarrows⟩,
      fun ⟨target, h⟩ => ⟨h.provenance, ⟨target, h.load, h.coherent, h.narrows⟩, h.free,
        h.notBound⟩⟩

/-- The request passes the gates of its bound, or of its reopen. -/
def HostAccepted (σ : Store) (req : AssertValidityRequest) (now : Instant) : Prop :=
  match req.assertion with
  | .bound at_ _ => ∃ target, BoundAccepted σ req target at_ now
  | .reopen => ReopenAccepted σ req now

instance (σ : Store) (req : AssertValidityRequest) (now : Instant) :
    Decidable (HostAccepted σ req now) := by
  unfold HostAccepted
  split <;> infer_instance

/-- A call on a handle whose challenger is on the queue reverts it where the handle has
    lapsed, and else applies the verdict to it and to the claims written along. -/
def VerdictWrites (σ : Store) (row : PendingAdjudicationRow) (verdict : AdjudicationVerdict)
    (now : Instant) (r : ClaimRef) : Prop :=
  currentDisposition σ row.agentId row.challengerClaimRef = some .queuedForAdjudication ∧
    (r = row.challengerClaimRef ∨
      row.expiresAt.any (fun t => decide (t ≤ now)) = false ∧ r ∈ alsoWritten σ row verdict)

instance (σ : Store) (row : PendingAdjudicationRow) (verdict : AdjudicationVerdict)
    (now : Instant) (r : ClaimRef) : Decidable (VerdictWrites σ row verdict now r) :=
  inferInstanceAs (Decidable (_ ∧ _))

/-- The operation writes about a claim that is stored already. -/
def WritesAbout (eng : Engine) (σ : Store) (agentId : AgentId) (r : ClaimRef) : Op → Prop
  | .ingestClaim _ _ _ _ => False
  | .assertValidity req now _ =>
    req.agentId = agentId ∧ req.target = r ∧ HostAccepted σ req now
  | .submitAdjudication handleId response now _ =>
    ∃ row ∈ getPending σ handleId, row.agentId = agentId ∧
      VerdictWrites σ row response.verdict now r
  | .reconcile req now => req.agentId = agentId ∧
    ∃ line ∈ req.subjectLines, ∃ cs ∈ selectedRows eng σ req.agentId now line,
      cs.claim.claimRef = r
  | .sweepExpired row _ => row.agentId = agentId ∧ row.challengerClaimRef = r ∧
    currentDisposition σ row.agentId row.challengerClaimRef = some .queuedForAdjudication
  | .sweepOrphan orphan _ => orphan.agentId = agentId ∧ orphan.challengerClaimRef = r ∧
    currentDisposition σ orphan.agentId orphan.challengerClaimRef = some .queuedForAdjudication
  | .appendEdge _ => False

instance (eng : Engine) (σ : Store) (agentId : AgentId) (r : ClaimRef) :
    (op : Op) → Decidable (WritesAbout eng σ agentId r op)
  | .ingestClaim _ _ _ _ => .isFalse id
  | .assertValidity req now _ =>
    decidable_of_iff (req.agentId = agentId ∧ req.target = r ∧ HostAccepted σ req now) Iff.rfl
  | .submitAdjudication handleId response now _ =>
    decidable_of_iff (∃ row ∈ getPending σ handleId, row.agentId = agentId ∧
      VerdictWrites σ row response.verdict now r) Iff.rfl
  | .reconcile req now => decidable_of_iff (req.agentId = agentId ∧
      ∃ line ∈ req.subjectLines, ∃ cs ∈ selectedRows eng σ req.agentId now line,
        cs.claim.claimRef = r) Iff.rfl
  | .sweepExpired row _ => decidable_of_iff (row.agentId = agentId ∧ row.challengerClaimRef = r ∧
      currentDisposition σ row.agentId row.challengerClaimRef = some .queuedForAdjudication)
        Iff.rfl
  | .sweepOrphan orphan _ => decidable_of_iff (orphan.agentId = agentId ∧
      orphan.challengerClaimRef = r ∧
      currentDisposition σ orphan.agentId orphan.challengerClaimRef =
        some .queuedForAdjudication) Iff.rfl
  | .appendEdge _ => .isFalse id

/-- The stamp of the rows that an operation writes. -/
def stampOf : Op → Instant
  | .ingestClaim _ now _ _ => now
  | .assertValidity _ now _ => now
  | .submitAdjudication _ _ now _ => now
  | .reconcile _ now => now
  | .sweepExpired _ now => now
  | .sweepOrphan _ now => now
  | .appendEdge edge => edge.createdAt

end Statement

section Effect

variable {eng : Engine} {σ : Store} {op : Op} {w : Written}

theorem verdictWrites_of_mem {handleId : Uuid} {response : AdjudicationResponse} {now : Instant}
    {assertionRef : Uuid} {row : PendingAdjudicationRow} {challenger : Claim}
    (h : VerdictAccepted σ handleId now row challenger) {e : LedgerEntry}
    (he : e ∈ (verdictWritten eng.config σ row challenger response now assertionRef).ledger) :
    VerdictWrites σ row response.verdict now e.claimRef :=
  ⟨h.queued, (verdictEntry_of_mem he).claimRef.imp id fun hin =>
    ⟨(letsThrough_of_accepted h).1, hin⟩⟩

/-- An entry is stamped by its operation and is about the claim just ingested, or about
    a claim that the operation writes about. -/
theorem writesAbout_of_entry (h : Outcome eng σ op w) {e : LedgerEntry} (he : e ∈ w.ledger) :
    e.recordedAt = stampOf op ∧
      ((∃ c ∈ w.claims, c.claimRef = e.claimRef) ∨ WritesAbout eng σ e.agentId e.claimRef op) := by
  cases h with
  | silent _ => cases he
  | edged => cases he
  | ingested _ =>
    rw [List.mem_singleton.mp he]
    exact ⟨rfl, .inl ⟨_, List.mem_cons_self, rfl⟩⟩
  | bounded hassert haccepted =>
    rw [List.mem_singleton.mp he]
    refine ⟨rfl, .inr ⟨rfl, rfl, ?_⟩⟩
    rw [HostAccepted, hassert]
    exact ⟨_, haccepted⟩
  | reopened hassert haccepted =>
    rw [List.mem_singleton.mp he]
    refine ⟨rfl, .inr ⟨rfl, rfl, ?_⟩⟩
    rw [HostAccepted, hassert]
    exact haccepted
  | resolved haccepted =>
    have hentry := verdictEntry_of_mem he
    refine ⟨hentry.recordedAt, .inr ⟨_, haccepted.pending, hentry.agentId.symm, ?_⟩⟩
    exact verdictWrites_of_mem haccepted he
  | lazilyExpired hrow hqueued =>
    rw [List.mem_singleton.mp he]
    exact ⟨rfl, .inr ⟨_, hrow, rfl, hqueued, .inl rfl⟩⟩
  | reconciled =>
    obtain ⟨d, hd, rfl⟩ := List.mem_map.mp he
    obtain ⟨line, hline, cs, hcs, rfl⟩ := mem_decisions_iff.mp hd
    exact ⟨rfl, .inr ⟨rfl, line, hline, cs, hcs, rfl⟩⟩
  | sweptRow hqueued =>
    rw [List.mem_singleton.mp he]
    exact ⟨rfl, .inr ⟨rfl, rfl, hqueued⟩⟩
  | sweptOrphan hqueued =>
    rw [List.mem_singleton.mp he]
    exact ⟨rfl, .inr ⟨rfl, rfl, hqueued⟩⟩

/-- An assertion comes with an entry about its target. -/
theorem exists_entry_of_assertion (h : Outcome eng σ op w) {a : ValidityAssertion}
    (ha : a ∈ w.assertions) :
    ∃ e ∈ w.ledger, e.agentId = a.agentId ∧ e.claimRef = a.targetClaim ∧
      e.recordedAt = a.assertedAt := by
  cases h with
  | bounded _ _ | reopened _ _ =>
    rw [List.mem_singleton.mp ha]
    exact ⟨_, List.mem_singleton_self _, rfl, rfl, rfl⟩
  | @resolved handleId response now assertionRef row challenger _ =>
    cases hv : response.verdict with
    | affirm =>
      simp only [verdictWritten, hv, List.mem_singleton] at ha ⊢
      rw [ha]
      exact ⟨_, List.mem_cons_self, rfl, rfl, rfl⟩
    | deny =>
      simp only [verdictWritten, hv, List.mem_singleton] at ha ⊢
      rw [ha]
      exact ⟨_, List.mem_cons_self, rfl, rfl, rfl⟩
    | unknown =>
      simp only [verdictWritten, hv] at ha
      cases ha
  | _ => cases ha

theorem claims_of_outcome (h : Outcome eng σ op w) {c : Claim} (hc : c ∈ w.claims) :
    ∃ req now claimRef reply, op = .ingestClaim req now claimRef reply ∧
      c = stamp req claimRef now ∧ Admitted eng.config σ req claimRef now := by
  cases h with
  | ingested hadmitted => exact ⟨_, _, _, _, rfl, List.mem_singleton.mp hc, hadmitted⟩
  | resolved _ =>
    rw [verdictWritten_claims] at hc
    cases hc
  | _ => cases hc

end Effect

end Mempill.WrittenClaims
